import DfuLoader.Proofs.WindowCursor

/-!
# The commands of a tick

A tick that works on a window first selects the chip of the zone and asks for its
status. All it does after that concerns this window (`OnWindow`): the comparison
with the block that heads the queue, a page of that block, and the region that has
to be erased around the window. What a tick leaves alone is listed as well
(`Ticks.frame`): the cursors of the host's side, and the buffer unless a window was
released.
-/

namespace DfuLoader

def Command.Changes : Command → Nat → Prop
  | .erase start size, x => start.toNat ≤ x ∧ x < start.toNat + size.size.toNat
  | .program start bytes, x => start.toNat ≤ x ∧ x < start.toNat + bytes.length
  | _, _ => False

/-- The windows that leave the buffer with a tick of some kind. -/
def Tick.released : Tick → Nat
  | .committed | .abandoned => 1
  | _ => 0

/-- The commands that concern the window with a number, whose bytes head the queue. -/
inductive OnWindow (z : Zone) (m : Nat) (buffer : BlockRing) : Command → Prop
  | writeEnable : OnWindow z m buffer .writeEnable
  | verify {block : Bytes} (head : buffer.head? = some block) {start : Address} {length : Nat}
      (start_eq : start.toNat = z.windowStart m)
      (stop_eq : start.toNat + length = z.windowStart (m + 1)) :
      OnWindow z m buffer (.verify start (block.take length))
  | erase {start : Address} {unit : EraseUnit}
      (start_eq : start.toNat = z.windowStart m - z.windowStart m % 4096)
      (inside : z.stop.toNat ≤ 0xFFFFF000 → unit = .sector4K ∨
        z.windowStart m % 4096 = 0 ∧ z.windowStart m + unit.size.toNat ≤ z.stop.toNat) :
      OnWindow z m buffer (.erase start unit)
  | program {block : Bytes} (head : buffer.head? = some block) {start : Address}
      {offset length : Nat} (start_eq : start.toNat = z.windowStart m + offset)
      (stop_le : start.toNat + length ≤ z.windowStart (m + 1)) (some_left : 0 < length) :
      OnWindow z m buffer (.program start ((block.drop offset).take length))

namespace OnWindow

variable {z : Zone} {m : Nat} {buffer : BlockRing} {c : Command} {x : Nat}

/-- A changed address lies in the window, or behind the sector that the window begins
in if it was erased. -/
theorem le_of_changes (h : OnWindow z m buffer c) (hx : c.Changes x) :
    z.windowStart m - z.windowStart m % 4096 ≤ x := by
  cases h with
  | writeEnable => exact hx.elim
  | verify _ _ _ => exact hx.elim
  | erase start_eq _ => exact start_eq ▸ hx.1
  | program _ start_eq _ _ =>
      have hstart := hx.1
      omega

theorem ne_select (h : OnWindow z m buffer c) (chip : Chip) : c ≠ .select chip := by
  rintro rfl
  cases h

end OnWindow

namespace Pipeline

variable {cfg : Config} {z : Zone} {m x : Nat} {p q : Pipeline} {t : List Exchange} {k : Tick}

theorem Programs.onWindow {block : Bytes} (h : Programs p block t k q)
    (hhead : p.buffer.head? = some block) (hp : p.engine.Placed z m)
    (hstage : p.engine.stage ≠ .idle) (hpart : p.engine.offset < p.engine.length) :
    ∀ e ∈ t, OnWindow z m p.buffer e.command := by
  have hpage := hp.pageAt_eq hstage
  have hend := hp.windowAt_add_length hstage
  have hlength : p.engine.pageLength ≤ p.engine.length - p.engine.offset := by
    rw [Engine.pageLength]
    omega
  have hprogram : OnWindow z m p.buffer
      (.program p.engine.pageAt ((block.drop p.engine.offset).take p.engine.pageLength)) :=
    .program hhead (hpage.trans (by rw [hp.windowAt_eq])) (by omega) (Engine.pageLength_pos hpart)
  cases h with
  | locked fault => simpa using OnWindow.writeEnable
  | refused fault => simpa using ⟨OnWindow.writeEnable, hprogram⟩
  | started => simpa using ⟨OnWindow.writeEnable, hprogram⟩

theorem Writes.onWindow (h : Writes cfg p t k q) (hp : p.engine.Placed z m)
    (hstage : p.engine.stage ≠ .idle) : ∀ e ∈ t, OnWindow z m p.buffer e.command := by
  cases h with
  | written done => simp
  | passed due all => simp
  | starved due part empty => simp
  | page due part head programs =>
      exact programs.onWindow head hp hstage (lt_of_le_of_ne (hp.offset_le hstage) part)

theorem Erases.onWindow (h : Erases cfg p t k q) (hp : p.engine.Placed z m) :
    ∀ e ∈ t, OnWindow z m p.buffer e.command := by
  have herase : OnWindow z m p.buffer
      (.erase (p.eraseBase cfg) (p.engine.eraseUnit cfg.eraseUnit)) := by
    refine .erase ?_ ?_
    · rw [eraseBase, Engine.toNat_baseOf_eraseUnit, hp.windowAt_eq]
    · intro hstop
      rw [← hp.windowAt_eq, ← hp.zoneEnd_eq]
      rw [← hp.zoneEnd_eq] at hstop
      exact p.engine.size_eraseUnit cfg.eraseUnit hstop
  cases h with
  | locked fault => simpa using OnWindow.writeEnable
  | refused fault => simpa using ⟨OnWindow.writeEnable, herase⟩
  | started => simpa using ⟨OnWindow.writeEnable, herase⟩

theorem Works.onWindow (h : Works cfg p t k q) (hp : p.engine.Placed z m)
    (hstage : p.engine.stage ≠ .idle) : ∀ e ∈ t, OnWindow z m p.buffer e.command := by
  have hend := hp.windowAt_add_length hstage
  have hverify {block : Bytes} (hhead : p.buffer.head? = some block) :
      OnWindow z m p.buffer (.verify p.engine.windowAt (block.take p.engine.length)) :=
    .verify hhead hp.windowAt_eq hend
  cases h with
  | starved _ empty => simp
  | unread _ head fault => simpa using hverify head
  | @stale _ _ head outcome _ _ _ _ erases =>
      exact List.forall_mem_cons.2 ⟨hverify head, erases.onWindow (placed_compared hp outcome)⟩
  | @fresh _ _ head outcome _ _ _ _ writes =>
      have hplaced := placed_cleared (placed_compared hp outcome) hstage
      have hwrites := writes.onWindow hplaced (by rw [stage_cleared]; simp)
      rw [buffer_cleared] at hwrites
      exact List.forall_mem_cons.2 ⟨hverify head, hwrites⟩
  | resumed _ writes => exact writes.onWindow hp hstage

/-- A tick stays silent, reboots, or greets the chip of the zone and works on its
window. -/
theorem Ticks.exchanges (h : Ticks cfg p t k q) (hp : p.engine.Steady z m) :
    t = [] ∨ t = [⟨.reboot, ()⟩] ∨
      ∃ status works, t = ⟨.select z.chip, ()⟩ :: ⟨.readStatus, status⟩ :: works ∧
        ∀ e ∈ works, OnWindow z m p.buffer e.command := by
  obtain ⟨hopened, hstage⟩ := steady_opened hp
  have hgreeting (status : Except Fault UInt8) :
      p.opened.greeting status = [⟨.select z.chip, ()⟩, ⟨.readStatus, status⟩] := by
    rw [greeting, hopened.chip_eq]
  cases h with
  | resting stage empty => exact .inl rfl
  | abandoned _ spent => exact .inr (.inl rfl)
  | unanswered _ left fault => exact .inr (.inr ⟨_, [], hgreeting _, by simp⟩)
  | busy _ left working => exact .inr (.inr ⟨_, [], hgreeting _, by simp⟩)
  | worked _ left ready works =>
      refine .inr (.inr ⟨_, _, by rw [hgreeting]; rfl, ?_⟩)
      have honWindow := works.onWindow hopened.toPlaced hstage
      rwa [buffer_opened] at honWindow

theorem Works.ne_abandoned (h : Works cfg p t k q) : k ≠ .abandoned := by
  rintro rfl
  cases h with
  | stale _ _ _ erases => cases erases
  | fresh _ _ _ writes =>
      cases writes with
      | page _ _ _ programs => cases programs
  | resumed _ writes =>
      cases writes with
      | page _ _ _ programs => cases programs

theorem Ticks.eq_of_abandoned (h : Ticks cfg p t .abandoned q) :
    t = [⟨.reboot, ()⟩] ∧ q.engine.attempts = cfg.maxAttempts := by
  cases h with
  | abandoned attended spent => exact ⟨rfl, rfl⟩
  | worked attended left ready works => exact absurd rfl works.ne_abandoned

/-- A tick reboots exactly if it gives its window up. -/
theorem Ticks.reboot_mem_iff (h : Ticks cfg p t k q) (hp : p.engine.Steady z m) :
    ⟨.reboot, ()⟩ ∈ t ↔ k = .abandoned := by
  constructor
  · intro hmem
    cases h with
    | abandoned attended spent => rfl
    | resting stage empty => cases hmem
    | unanswered attended left fault => simp [greeting] at hmem
    | busy attended left working => simp [greeting] at hmem
    | worked attended left ready works =>
        obtain ⟨hopened, hstage⟩ := steady_opened hp
        rcases List.mem_append.1 hmem with hmem | hmem
        · simp [greeting] at hmem
        · have hon := works.onWindow hopened.toPlaced hstage _ hmem
          cases hon
  · rintro rfl
    rw [h.eq_of_abandoned.1]
    exact List.mem_singleton_self _

theorem Works.compared_of_committed (h : Works cfg p t .committed q) (hp : p.engine.Steady z m)
    (hstage : p.engine.stage ≠ .idle) :
    ∃ (block : Bytes) (outcome : Outcome), p.buffer.head? = some block ∧
      outcome.needsErase = false ∧ outcome.needsProgram = false ∧
      t = [⟨.verify p.engine.windowAt (block.take p.engine.length), .ok outcome⟩] := by
  cases h with
  | stale _ _ _ erases => cases erases
  | @fresh _ block head outcome spared _ _ _ writes =>
      cases writes with
      | written done =>
          rw [last_cleared] at done
          exact ⟨block, outcome, head, spared, done, rfl⟩
      | page _ _ _ programs => cases programs
  | resumed hnot writes =>
      cases writes with
      | written done =>
          -- a window that is being programmed still needs it
          rw [hp.last_eq (stage_eq_programming hstage hnot)] at done
          cases done
      | page _ _ _ programs => cases programs

/-- The addresses that a tick changes are in its window, or behind the sector that the
window begins in if there is an erase command. -/
theorem Ticks.le_of_changes (h : Ticks cfg p t k q) (hp : p.engine.Steady z m)
    {e : Exchange} (he : e ∈ t) (hx : e.command.Changes x) :
    z.windowStart m ≤ x ∨
      z.windowStart m - z.windowStart m % 4096 ≤ x ∧
        ∃ start unit, e.command = .erase start unit := by
  rcases h.exchanges hp with rfl | rfl | ⟨status, works, rfl, hworks⟩
  · simp at he
  · rw [List.mem_singleton] at he
    subst he
    exact hx.elim
  · rcases List.mem_cons.1 he with rfl | he
    · exact hx.elim
    rcases List.mem_cons.1 he with rfl | he
    · exact hx.elim
    have hon := hworks e he
    have hle := hon.le_of_changes hx
    generalize e.command = c at hon hx
    cases hon with
    | writeEnable => exact hx.elim
    | verify _ _ _ => exact hx.elim
    | @erase start unit _ _ => exact .inr ⟨hle, start, unit, rfl⟩
    | program _ start_eq _ _ =>
        have hstart := hx.1
        exact .inl (by omega)

structure Leaves (p q : Pipeline) (k : Tick) : Prop where
  receiveAt_eq : q.engine.receiveAt = p.engine.receiveAt
  readAt_eq : q.engine.readAt = p.engine.readAt
  buffer_eq : q.buffer = if k.released = 1 then p.buffer.pop else p.buffer
  rests : k.released = 1 → q.engine.stage = .idle

theorem Leaves.congr {p' : Pipeline} (h : Leaves p' q k)
    (hreceive : p'.engine.receiveAt = p.engine.receiveAt)
    (hread : p'.engine.readAt = p.engine.readAt) (hbuffer : p'.buffer = p.buffer) :
    Leaves p q k where
  receiveAt_eq := h.receiveAt_eq.trans hreceive
  readAt_eq := h.readAt_eq.trans hread
  buffer_eq := by rw [h.buffer_eq, hbuffer]
  rests := h.rests

theorem leaves_mapEngine {f : Engine → Engine} (hreceive : ∀ e, (f e).receiveAt = e.receiveAt)
    (hread : ∀ e, (f e).readAt = e.readAt) (hk : k.released = 0) :
    Leaves p (p.mapEngine f) k where
  receiveAt_eq := hreceive _
  readAt_eq := hread _
  buffer_eq := by rw [hk]; rfl
  rests h := by omega

theorem leaves_opened (p : Pipeline) : Leaves p p.opened .progress := by
  rw [opened]
  split
  · exact leaves_mapEngine (fun _ => rfl) (fun _ => rfl) rfl
  · exact ⟨rfl, rfl, rfl, fun h => by cases h⟩

theorem Programs.leaves {block : Bytes} (h : Programs p block t k q) : Leaves p q k := by
  cases h with
  | locked fault => exact leaves_mapEngine (fun _ => rfl) (fun _ => rfl) rfl
  | refused fault => exact leaves_mapEngine (fun _ => rfl) (fun _ => rfl) rfl
  | started => exact leaves_mapEngine (fun _ => rfl) (fun _ => rfl) rfl

theorem Writes.leaves (h : Writes cfg p t k q) : Leaves p q k := by
  cases h with
  | written done => exact ⟨rfl, rfl, rfl, fun _ => rfl⟩
  | passed due all => exact leaves_mapEngine (fun _ => rfl) (fun _ => rfl) rfl
  | starved due part empty => exact leaves_mapEngine (fun _ => rfl) (fun _ => rfl) rfl
  | page due part head programs => exact programs.leaves

theorem Erases.leaves (h : Erases cfg p t k q) : Leaves p q k := by
  have hended (base : Address) :
      Leaves (p.erasing base) ((p.erasing base).mapEngine .endAttempt) .failed :=
    leaves_mapEngine (fun _ => rfl) (fun _ => rfl) rfl
  cases h with
  | locked fault => exact (hended _).congr rfl rfl rfl
  | refused fault => exact (hended _).congr rfl rfl rfl
  | started => exact leaves_mapEngine (fun _ => rfl) (fun _ => rfl) rfl

theorem Works.leaves (h : Works cfg p t k q) : Leaves p q k := by
  cases h with
  | starved _ empty => exact leaves_mapEngine (fun _ => rfl) (fun _ => rfl) rfl
  | unread _ head fault => exact leaves_mapEngine (fun _ => rfl) (fun _ => rfl) rfl
  | stale _ head needed erases => exact erases.leaves.congr rfl rfl rfl
  | fresh _ head spared writes =>
      exact writes.leaves.congr (receiveAt_cleared _) (readAt_cleared _) (buffer_cleared _)
  | resumed _ writes => exact writes.leaves

/-- A tick leaves the host's cursors alone, and the buffer unless it releases the
window. The engine rests after a release. -/
theorem Ticks.leaves (h : Ticks cfg p t k q) : Leaves p q k := by
  have hopened := leaves_opened p
  have hbuffer := buffer_opened p
  cases h with
  | resting stage empty => exact ⟨rfl, rfl, rfl, fun h => by cases h⟩
  | abandoned _ spent =>
      have hgiven : Leaves p.opened
          { engine := p.opened.engine.giveUp cfg.maxAttempts, buffer := p.opened.buffer.pop }
          .abandoned := ⟨rfl, rfl, rfl, fun _ => rfl⟩
      exact hgiven.congr hopened.receiveAt_eq hopened.readAt_eq hbuffer
  | unanswered _ left fault =>
      have hended : Leaves p.opened (p.opened.mapEngine .endAttempt) .failed :=
        leaves_mapEngine (fun _ => rfl) (fun _ => rfl) rfl
      exact hended.congr hopened.receiveAt_eq hopened.readAt_eq hbuffer
  | busy _ left working =>
      exact ⟨hopened.receiveAt_eq, hopened.readAt_eq, hbuffer, fun h => by cases h⟩
  | worked _ left ready works =>
      exact works.leaves.congr hopened.receiveAt_eq hopened.readAt_eq hbuffer

end Pipeline

end DfuLoader
