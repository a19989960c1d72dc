import DfuLoader.Proofs.Coverage
import DfuLoader.Proofs.EngineRuns

/-!
# Discipline on the bus

A tick may go from opening its window over comparing and erasing to programming in one
go, and leave after each command that fails. Whatever way it takes, what it puts on the
bus is `Orderly`: it greets the chip, stops if the chip is at work, compares the window at
most once and starts at most one erase or page command, which is enabled right before.
After a fault it gives up the attempt and nothing else (`Disciplined`). A region larger than
a sector begins at the window; that it ends inside the zone (`EndsInside`) is not part of
this.
-/

namespace DfuLoader

open Dialogue

/-- A region to be erased for a window: it holds the start of the window, and begins there
if it is larger than a sector. -/
structure RegionFor (windowAt start : Address) (unit : EraseUnit) : Prop where
  aligned : start.toNat % unit.size.toNat = 0
  start_le : start.toNat ≤ windowAt.toNat
  lt_stop : windowAt.toNat < start.toNat + unit.size.toNat
  start_eq : unit ≠ .sector4K → start = windowAt

/-- Bytes to be programmed for a window: they lie in one page, and they are what the window
is to hold at their addresses. -/
structure PageOf (windowAt : Address) (window : Bytes) (start : Address) (bytes : Bytes) :
    Prop where
  length_pos : 0 < bytes.length
  one_page : start.toNat % 256 + bytes.length ≤ 256
  bytes_eq : ∃ offset, start.toNat = windowAt.toNat + offset ∧
    offset + bytes.length ≤ window.length ∧ bytes = (window.drop offset).take bytes.length

inductive Writing (windowAt : Address) (window : Bytes) : List Exchange → Prop
  | none : Writing windowAt window []
  | locked (fault : Fault) : Writing windowAt window [⟨.writeEnable, .error fault⟩]
  | erase {start : Address} {unit : EraseUnit} (region : RegionFor windowAt start unit)
      (reply : Except Fault Unit) :
      Writing windowAt window [⟨.writeEnable, .ok ()⟩, ⟨.erase start unit, reply⟩]
  | program {start : Address} {bytes : Bytes} (page : PageOf windowAt window start bytes)
      (reply : Except Fault Unit) :
      Writing windowAt window [⟨.writeEnable, .ok ()⟩, ⟨.program start bytes, reply⟩]

inductive Comparing (windowAt : Address) (window : Bytes) : List Exchange → Prop
  | none : Comparing windowAt window []
  | verify (reply : Except Fault Outcome) :
      Comparing windowAt window [⟨.verify windowAt window, reply⟩]

namespace Pipeline

inductive Orderly (p : Pipeline) : List Exchange → Tick → Prop
  | idle : Orderly p [] .idle
  | abandoned : Orderly p [⟨.reboot, ()⟩] .abandoned
  | unanswered (fault : Fault) :
      Orderly p [⟨.select p.engine.chip, ()⟩, ⟨.readStatus, .error fault⟩] .failed
  | busy {status : UInt8} (working : (status &&& busyBit != 0) = true) :
      Orderly p [⟨.select p.engine.chip, ()⟩, ⟨.readStatus, .ok status⟩] .busy
  | worked {status : UInt8} (ready : (status &&& busyBit != 0) = false) {block : Bytes}
      (head : p.buffer.head? = some block) (full : p.engine.windowLength ≤ block.length)
      {t t' : List Exchange} {k : Tick}
      (kind : k = .progress ∨ k = .committed ∨ k = .failed)
      (comparing : Comparing p.engine.windowAt (block.take p.engine.windowLength) t)
      (writing : Writing p.engine.windowAt (block.take p.engine.windowLength) t') :
      Orderly p (⟨.select p.engine.chip, ()⟩ :: ⟨.readStatus, .ok status⟩ :: (t ++ t')) k

/-- An attempt on the window was given up, and all else stays. -/
structure Restarted (p q : Pipeline) : Prop where
  attempts_eq : q.engine.attempts.toNat + 1 = p.engine.attempts.toNat
  stage_eq : q.engine.stage = .idle
  offset_eq : q.engine.offset = 0
  windowAt_eq : q.engine.windowAt = p.engine.windowAt
  receiveAt_eq : q.engine.receiveAt = p.engine.receiveAt
  readAt_eq : q.engine.readAt = p.engine.readAt
  zoneStart_eq : q.engine.zoneStart = p.engine.zoneStart
  zoneEnd_eq : q.engine.zoneEnd = p.engine.zoneEnd
  chip_eq : q.engine.chip = p.engine.chip
  buffer_eq : q.buffer = p.buffer

/-- A tick that keeps discipline, but for the end of a region that it erases. -/
structure Disciplined (p : Pipeline) (t : List Exchange) (k : Tick) (q : Pipeline) : Prop where
  orderly : p.Orderly t k
  length_eq : k ≠ .idle → q.engine.length = p.engine.windowLength
  unfailed : ∀ e ∈ t.dropLast, e.fault? = none
  failed_iff : k = .failed ↔ ∃ e ∈ t, e.fault? ≠ none
  restarted : k = .failed → p.Restarted q
  busy_eq : k = .busy → q.buffer = p.buffer ∧ q.engine = { p.engine with
    stage := q.engine.stage, offset := q.engine.offset, length := q.engine.length }

def EndsInside (p : Pipeline) (c : Command) : Prop :=
  ∀ start unit, c = .erase start unit → unit ≠ .sector4K →
    start.toNat + unit.size.toNat ≤ p.engine.zoneEnd.toNat

variable {cfg : Config} {z : Zone} {m n : Nat} {p q : Pipeline} {t : List Exchange} {k : Tick}

/-! What is put on the bus. -/

theorem regionFor_eraseBase (cfg : Config) (p : Pipeline) :
    RegionFor p.engine.windowAt (p.eraseBase cfg) (p.engine.eraseUnit cfg.eraseUnit) := by
  have hbase := (p.engine.eraseUnit cfg.eraseUnit).toNat_baseOf p.engine.windowAt
  have hsize := (p.engine.eraseUnit cfg.eraseUnit).size_eq
  rw [← eraseBase] at hbase
  refine ⟨?_, ?_, ?_, ?_⟩
  · rcases hsize with hs | hs | hs <;> rw [hs] at hbase ⊢ <;> omega
  · omega
  · rcases hsize with hs | hs | hs <;> rw [hs] at hbase ⊢ <;> omega
  · intro hlarge
    obtain ⟨hunit, haligned, -⟩ := Engine.eraseUnit_of_large hlarge
    rw [eraseBase, hunit]
    exact EraseUnit.baseOf_eq haligned

theorem pageOf_next (hp : p.engine.Placed z m) (hstage : p.engine.stage ≠ .idle) {block : Bytes}
    (hblock : block.length = blockSize) (hpart : p.engine.offset < p.engine.length) :
    PageOf p.engine.windowAt (block.take p.engine.length) p.engine.pageAt
      ((block.drop p.engine.offset).take p.engine.pageLength) := by
  have hpage := hp.pageAt_eq hstage
  have hlength := hp.length_eq hstage
  have hpos := Engine.pageLength_pos hpart
  have hpageLength : p.engine.pageLength ≤ p.engine.length - p.engine.offset ∧
      p.engine.pageLength ≤ 256 - p.engine.pageAt.toNat % 256 := by
    rw [Engine.pageLength, pageSize]
    omega
  have hle : p.engine.length ≤ block.length :=
    hlength ▸ p.engine.windowLength_le_length hblock
  have hbytes : ((block.drop p.engine.offset).take p.engine.pageLength).length =
      p.engine.pageLength := by
    rw [List.length_take, List.length_drop]
    omega
  refine ⟨by omega, by omega, p.engine.offset, hpage, ?_, ?_⟩
  · rw [hbytes, List.length_take]
    omega
  · rw [hbytes, List.drop_take, List.take_take, Nat.min_eq_left hpageLength.1]

theorem Programs.writing {block : Bytes} (h : Programs p block t k q) (hp : p.engine.Placed z m)
    (hstage : p.engine.stage ≠ .idle) (hblock : block.length = blockSize)
    (hpart : p.engine.offset < p.engine.length) :
    Writing p.engine.windowAt (block.take p.engine.length) t ∧
      (k = .progress ∨ k = .committed ∨ k = .failed) := by
  have hpage := pageOf_next hp hstage hblock hpart
  cases h with
  | locked fault => exact ⟨.locked fault, .inr (.inr rfl)⟩
  | refused fault => exact ⟨.program hpage _, .inr (.inr rfl)⟩
  | started => exact ⟨.program hpage _, .inl rfl⟩

theorem Writes.writing (h : Writes cfg p t k q) (hp : p.engine.Placed z m)
    (hstage : p.engine.stage ≠ .idle) {block : Bytes} (hhead : p.buffer.head? = some block)
    (hblock : block.length = blockSize) :
    Writing p.engine.windowAt (block.take p.engine.length) t ∧
      (k = .progress ∨ k = .committed ∨ k = .failed) := by
  cases h with
  | written done => exact ⟨.none, .inr (.inl rfl)⟩
  | passed due all => exact ⟨.none, .inl rfl⟩
  | starved due part empty => exact absurd (hhead.symm.trans empty) (by simp)
  | page due part head programs =>
      cases hhead.symm.trans head
      exact programs.writing hp hstage hblock (lt_of_le_of_ne (hp.offset_le hstage) part)

theorem Erases.writing (h : Erases cfg p t k q) (window : Bytes) :
    Writing p.engine.windowAt window t ∧ (k = .progress ∨ k = .committed ∨ k = .failed) := by
  have hregion := regionFor_eraseBase cfg p
  cases h with
  | locked fault => exact ⟨.locked fault, .inr (.inr rfl)⟩
  | refused fault => exact ⟨.erase hregion _, .inr (.inr rfl)⟩
  | started => exact ⟨.erase hregion _, .inl rfl⟩

theorem Works.orderly (h : Works cfg p t k q) (hp : p.engine.Placed z m)
    (hstage : p.engine.stage ≠ .idle) {block : Bytes} (hhead : p.buffer.head? = some block)
    (hblock : block.length = blockSize) :
    ∃ t₁ t₂, t = t₁ ++ t₂ ∧ Comparing p.engine.windowAt (block.take p.engine.length) t₁ ∧
      Writing p.engine.windowAt (block.take p.engine.length) t₂ ∧
      (k = .progress ∨ k = .committed ∨ k = .failed) := by
  cases h with
  | starved _ empty => exact absurd (hhead.symm.trans empty) (by simp)
  | unread _ head fault =>
      cases hhead.symm.trans head
      exact ⟨_, [], rfl, .verify _, .none, .inr (.inr rfl)⟩
  | @stale _ _ head outcome needed t _ _ erases =>
      cases hhead.symm.trans head
      obtain ⟨hwriting, hkind⟩ := erases.writing (block.take p.engine.length)
      exact ⟨[_], t, rfl, .verify _, hwriting, hkind⟩
  | @fresh _ _ head outcome spared t _ _ writes =>
      cases hhead.symm.trans head
      have hplaced := placed_cleared (placed_compared hp outcome) hstage
      obtain ⟨hwriting, hkind⟩ := writes.writing hplaced (by rw [stage_cleared]; simp)
        (by rw [buffer_cleared]; exact hhead) hblock
      rw [windowAt_cleared, length_cleared] at hwriting
      exact ⟨[_], t, rfl, .verify _, hwriting, hkind⟩
  | resumed _ writes =>
      obtain ⟨hwriting, hkind⟩ := writes.writing hp hstage hhead hblock
      exact ⟨[], t, rfl, .none, hwriting, hkind⟩

theorem Tracks.exists_head (h : p.Tracks z m n) (hattended : p.Attended) :
    ∃ block, p.buffer.head? = some block ∧ block.length = blockSize := by
  have hpos := h.committed_pos hattended
  obtain ⟨block, hhead⟩ := Option.ne_none_iff_exists'.1 (BlockRing.head?_ne_none_iff.2 hpos)
  refine ⟨block, hhead, h.ring.length_block block ?_⟩
  rw [← BlockRing.head?_queue] at hhead
  exact List.mem_of_head? hhead

theorem Ticks.orderly (h : Ticks cfg p t k q) (hp : p.Tracks z m n) : p.Orderly t k := by
  obtain ⟨hopened, hstage⟩ := steady_opened hp.steady
  obtain ⟨hwindow, -, hchip⟩ := p.window_opened
  have hlength := length_opened hp.steady
  have hgreeting (status : Except Fault UInt8) :
      p.opened.greeting status = [⟨.select p.engine.chip, ()⟩, ⟨.readStatus, status⟩] := by
    rw [greeting, hchip]
  cases h with
  | resting _ _ => exact .idle
  | abandoned _ _ => exact .abandoned
  | unanswered _ _ fault =>
      rw [hgreeting]
      exact .unanswered fault
  | busy _ _ working =>
      rw [hgreeting]
      exact .busy working
  | worked attended _ ready works =>
      obtain ⟨block, hhead, hblock⟩ := hp.exists_head attended
      obtain ⟨t₁, t₂, rfl, hcomparing, hwriting, hkind⟩ :=
        works.orderly hopened.toPlaced hstage (by rw [buffer_opened]; exact hhead) hblock
      rw [hwindow, hlength] at hcomparing hwriting
      rw [hgreeting]
      have horderly : p.Orderly _ k := .worked ready hhead
        (p.engine.windowLength_le_length hblock) hkind hcomparing hwriting
      exact horderly

/-! What a fault leads to. -/

def GivesUp (p q : Pipeline) : Prop :=
  q.buffer = p.buffer ∧ q.engine = { p.engine.endAttempt with
    erasedTo := q.engine.erasedTo, last := q.engine.last }

theorem givesUp_endAttempt (p : Pipeline) : p.GivesUp (p.mapEngine .endAttempt) := ⟨rfl, rfl⟩

theorem givesUp_of_compared (outcome : Outcome) (h : (p.compared outcome).GivesUp q) :
    p.GivesUp q := h

theorem givesUp_of_programming (erasedTo : Address) (h : (p.programming erasedTo).GivesUp q) :
    p.GivesUp q := h

/-- The first fault is the end of a tick, which gives up an attempt. -/
structure Exits (p : Pipeline) (t : List Exchange) (k : Tick) (q : Pipeline) : Prop where
  unfailed : ∀ e ∈ t.dropLast, e.fault? = none
  failed_iff : k = .failed ↔ ∃ e ∈ t, e.fault? ≠ none
  givesUp : k = .failed → p.GivesUp q

theorem exits_of_unfailed (h : ∀ e ∈ t, e.fault? = none) (hk : k ≠ .failed) : Exits p t k q where
  unfailed e he := h e (List.mem_of_mem_dropLast he)
  failed_iff := ⟨fun hf => absurd hf hk, fun ⟨e, he, hfault⟩ => absurd (h e he) hfault⟩
  givesUp hf := absurd hf hk

theorem exits_of_fault {e : Exchange} (h : ∀ e ∈ t, e.fault? = none) (he : e.fault? ≠ none)
    (hq : p.GivesUp q) : Exits p (t ++ [e]) .failed q where
  unfailed e he := h e (by rwa [List.dropLast_concat] at he)
  failed_iff :=
    ⟨fun _ => ⟨e, List.mem_append_right _ (List.mem_singleton_self e), he⟩, fun _ => rfl⟩
  givesUp _ := hq

theorem exits_of_only_fault {e : Exchange} (he : e.fault? ≠ none) (hq : p.GivesUp q) :
    Exits p [e] .failed q :=
  exits_of_fault (List.forall_mem_nil _) he hq

theorem exits_nil (hk : k ≠ .failed) : Exits p [] k q :=
  exits_of_unfailed (List.forall_mem_nil _) hk

theorem Exits.of_givesUp {p' : Pipeline} (h : Exits p' t k q)
    (hgives : p'.GivesUp q → p.GivesUp q) : Exits p t k q :=
  ⟨h.unfailed, h.failed_iff, fun hk => hgives (h.givesUp hk)⟩

theorem Exits.append {t' : List Exchange} (h : Exits p t' k q) (ht : ∀ e ∈ t, e.fault? = none) :
    Exits p (t ++ t') k q where
  unfailed e he := by
    cases t' with
    | nil =>
        rw [List.append_nil] at he
        exact ht e (List.mem_of_mem_dropLast he)
    | cons x t' =>
        rw [List.dropLast_append_of_ne_nil (by simp)] at he
        exact (List.mem_append.1 he).elim (ht e) (h.unfailed e)
  failed_iff := by
    rw [h.failed_iff]
    constructor
    · rintro ⟨e, he, hfault⟩
      exact ⟨e, List.mem_append_right _ he, hfault⟩
    · rintro ⟨e, he, hfault⟩
      exact ⟨e, (List.mem_append.1 he).resolve_left fun he => hfault (ht e he), hfault⟩
  givesUp := h.givesUp

theorem Programs.exits {block : Bytes} (h : Programs p block t k q) : Exits p t k q := by
  cases h with
  | locked fault => exact exits_of_only_fault (by simp [Exchange.fault?]) (givesUp_endAttempt _)
  | refused fault =>
      exact exits_of_fault (t := [⟨.writeEnable, .ok ()⟩]) (List.forall_mem_singleton.2 rfl)
        (by simp [Exchange.fault?]) (givesUp_endAttempt _)
  | started => exact exits_of_unfailed (by simp [Exchange.fault?]) (by simp)

theorem Writes.exits (h : Writes cfg p t k q) : Exits p t k q := by
  cases h with
  | page due part head programs => exact programs.exits
  | written _ | passed _ _ | starved _ _ _ =>
      exact exits_nil (by simp)

theorem Erases.exits (h : Erases cfg p t k q) : Exits p t k q := by
  cases h with
  | locked fault => exact exits_of_only_fault (by simp [Exchange.fault?]) (givesUp_endAttempt _)
  | refused fault =>
      exact exits_of_fault (t := [⟨.writeEnable, .ok ()⟩]) (List.forall_mem_singleton.2 rfl)
        (by simp [Exchange.fault?]) (givesUp_endAttempt _)
  | started => exact exits_of_unfailed (by simp [Exchange.fault?]) (by simp)

theorem Works.exits (h : Works cfg p t k q) : Exits p t k q := by
  cases h with
  | starved _ empty => exact exits_nil (by simp)
  | unread _ head fault =>
      exact exits_of_only_fault (by simp [Exchange.fault?]) (givesUp_endAttempt _)
  | @stale _ _ _ outcome _ t _ _ erases =>
      have hexits : Exits p t k q := erases.exits.of_givesUp (givesUp_of_compared outcome)
      exact hexits.append (t := [⟨.verify _ _, .ok _⟩]) (by simp [Exchange.fault?])
  | @fresh _ _ _ outcome _ t _ _ writes =>
      have hexits : Exits p t k q := writes.exits.of_givesUp fun h =>
        givesUp_of_compared outcome (givesUp_of_programming _ h)
      exact hexits.append (t := [⟨.verify _ _, .ok _⟩]) (by simp [Exchange.fault?])
  | resumed _ writes => exact writes.exits

theorem Ticks.exits (h : Ticks cfg p t k q) : Exits p.opened t k q := by
  cases h with
  | resting _ _ => exact exits_nil (by simp)
  | abandoned _ _ => exact exits_of_unfailed (List.forall_mem_singleton.2 rfl) (by simp)
  | unanswered _ _ fault =>
      exact exits_of_fault (t := [⟨.select p.opened.engine.chip, ()⟩])
        (List.forall_mem_singleton.2 rfl) (by simp [Exchange.fault?]) (givesUp_endAttempt _)
  | busy _ _ working => exact exits_of_unfailed (by simp [greeting, Exchange.fault?]) (by simp)
  | worked _ _ ready works => exact works.exits.append (by simp [greeting, Exchange.fault?])

/-! The state after a tick. -/

theorem Writes.length_eq (h : Writes cfg p t k q) : q.engine.length = p.engine.length := by
  cases h with
  | page due part head programs => cases programs <;> rfl
  | written _ | passed _ _ | starved _ _ _ => rfl

theorem Works.length_eq (h : Works cfg p t k q) : q.engine.length = p.engine.length := by
  cases h with
  | stale _ head needed erases => cases erases <;> rfl
  | fresh _ head spared writes => exact writes.length_eq.trans (length_cleared _)
  | resumed _ writes => exact writes.length_eq
  | starved _ _ | unread _ _ _ => rfl

theorem Ticks.length_eq (h : Ticks cfg p t k q) (hp : p.engine.Steady z m)
    (hattended : p.Attended) : q.engine.length = p.engine.windowLength := by
  have hlength := length_opened hp
  cases h with
  | resting stage empty => exact absurd hattended (by simp [Attended, stage, empty])
  | worked _ _ _ works => exact works.length_eq.trans hlength
  | abandoned _ _ | unanswered _ _ _ | busy _ _ _ => exact hlength

theorem Ticks.attempts_opened_ne (h : Ticks cfg p t .failed q) : p.opened.engine.attempts ≠ 0 := by
  cases h with
  | unanswered _ left _ => exact left
  | worked _ left _ _ => exact left

theorem GivesUp.restarted (h : p.GivesUp q) (hleft : p.engine.attempts ≠ 0) : p.Restarted q := by
  obtain ⟨hbuffer, hengine⟩ := h
  have hpos := Engine.attempts_pos hleft
  have hspent := p.engine.toNat_attempts_spendAttempt
  have hattempts : q.engine.attempts = p.engine.spendAttempt.attempts := by
    rw [hengine]
    rfl
  refine ⟨?_, ?_, ?_, ?_, ?_, ?_, ?_, ?_, ?_, hbuffer⟩
  · rw [hattempts, hspent]
    omega
  all_goals
    rw [hengine]
    rfl

theorem restarted_of_opened (h : p.opened.Restarted q) : p.Restarted q := by
  rw [opened] at h
  split at h
  · exact ⟨h.attempts_eq, h.stage_eq, h.offset_eq, h.windowAt_eq, h.receiveAt_eq, h.readAt_eq,
      h.zoneStart_eq, h.zoneEnd_eq, h.chip_eq, h.buffer_eq⟩
  · exact h

theorem Ticks.restarted (h : Ticks cfg p t .failed q) : p.Restarted q :=
  restarted_of_opened ((h.exits.givesUp rfl).restarted h.attempts_opened_ne)

theorem Works.ne_busy (h : Works cfg p t k q) : k ≠ .busy := by
  rintro rfl
  cases h with
  | stale _ _ _ erases => cases erases
  | fresh _ _ _ writes =>
      cases writes with
      | page _ _ _ programs => cases programs
  | resumed _ writes =>
      cases writes with
      | page _ _ _ programs => cases programs

/-- While the chip is at work, a tick opens the window at most. -/
theorem Ticks.busy_eq (h : Ticks cfg p t .busy q) :
    q.buffer = p.buffer ∧ q.engine = { p.engine with
      stage := q.engine.stage, offset := q.engine.offset, length := q.engine.length } := by
  cases h with
  | busy _ _ _ =>
      rw [opened]
      split <;> exact ⟨rfl, rfl⟩
  | worked _ _ _ works => exact absurd rfl works.ne_busy

/-- Every tick at a buffer that belongs to the engine keeps discipline. -/
theorem Ticks.disciplined (h : Ticks cfg p t k q) (hp : p.Tracks z m n) :
    p.Disciplined t k q where
  orderly := h.orderly hp
  length_eq hk :=
    h.length_eq hp.steady (h.attended_or.resolve_right fun hidle => hk hidle.2.1)
  unfailed := h.exits.unfailed
  failed_iff := h.exits.failed_iff
  restarted hk := by
    subst hk
    exact h.restarted
  busy_eq hk := by
    subst hk
    exact h.busy_eq

end Pipeline

end DfuLoader
