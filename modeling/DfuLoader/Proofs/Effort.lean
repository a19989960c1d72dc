import DfuLoader.Proofs.Reachable

/-!
# The effort on a window

However a board answers, a window is not worked on for ever. Every tick that is neither
throttled nor told that the chip is busy uses up some of the `effort` that is left: an
attempt pays for its ticks in advance, a page command costs one, and the end of an
attempt forfeits what is left of it. The commands that wear the flash are paid for in
the same way: every erase costs an attempt, and a program pass that has begun has its
attempt set aside (`writes`). `Spends` is what each tick does to the two accounts, and
`effort_bounded` what a run of ticks comes to.
-/

namespace DfuLoader

/-- The ticks that count: what is throttled or busy costs nothing. -/
def Tick.counted : Tick → Nat
  | .throttled | .busy => 0
  | _ => 1

namespace Exchange

def isErase (e : Exchange) : Bool :=
  match e.command with
  | .erase _ _ => true
  | _ => false

def startsPass (windowAt : Address) (e : Exchange) : Bool :=
  match e.command with
  | .program start _ => start == windowAt
  | _ => false

end Exchange

namespace Engine

def pagesLeft (e : Engine) : Nat :=
  if e.offset < e.length then
    (e.windowAt.toNat + e.length + 255) / 256 - (e.windowAt.toNat + e.offset) / 256
  else 0

/-- The ticks that the attempts left can pay for. An attempt pays for a comparison
and 17 pages, which are as many as a window can touch. -/
def effort (e : Engine) : Nat :=
  18 * e.attempts.toNat - if e.stage = .programming then 17 - e.pagesLeft else 0

/-- The attempt that is set aside for a program pass that has begun. -/
def reserved (e : Engine) : Nat := if e.stage = .programming ∧ 0 < e.offset then 1 else 0

/-- The erase commands and program passes that the other attempts can pay for. -/
def writes (e : Engine) : Nat := e.attempts.toNat - e.reserved

/-- From one state of the engine to another, `n` counted ticks and the exchanges `t` are
paid for, and the window stays the same. -/
structure Spends (e f : Engine) (n : Nat) (t : List Exchange) : Prop where
  windowAt_eq : f.windowAt = e.windowAt
  effort_le : n + f.effort ≤ e.effort
  writes_le :
    t.countP Exchange.isErase + t.countP (Exchange.startsPass e.windowAt) + f.writes ≤ e.writes

variable {z : Zone} {m n n' : Nat} {e f g : Engine} {t t' : List Exchange}

theorem effort_le (e : Engine) : e.effort ≤ 18 * e.attempts.toNat := Nat.sub_le _ _

theorem writes_le (e : Engine) : e.writes ≤ e.attempts.toNat := Nat.sub_le _ _

theorem Spends.refl (e : Engine) : Spends e e 0 [] := ⟨rfl, by omega, by simp⟩

theorem spends_withReceiveAt (e : Engine) (receiveAt : Address) :
    Spends e { e with receiveAt := receiveAt } 0 [] :=
  ⟨rfl, (Nat.zero_add e.effort).le, (Nat.zero_add e.writes).le⟩

theorem spends_withReadAt (e : Engine) (readAt : Address) :
    Spends e { e with readAt := readAt } 0 [] :=
  ⟨rfl, (Nat.zero_add e.effort).le, (Nat.zero_add e.writes).le⟩

theorem Spends.trans (h : Spends e f n t) (h' : Spends f g n' t') :
    Spends e g (n + n') (t ++ t') where
  windowAt_eq := h'.windowAt_eq.trans h.windowAt_eq
  effort_le := by
    have hfirst := h.effort_le
    have hsecond := h'.effort_le
    omega
  writes_le := by
    have hfirst := h.writes_le
    have hsecond := h'.writes_le
    rw [h.windowAt_eq] at hsecond
    rw [List.countP_append, List.countP_append]
    omega

theorem Spends.cons {x : Exchange} (h : Spends e f n t) (herase : x.isErase = false)
    (hpass : x.startsPass e.windowAt = false) : Spends e f n (x :: t) where
  windowAt_eq := h.windowAt_eq
  effort_le := h.effort_le
  writes_le := by
    rw [List.countP_cons_of_neg (by simp [herase]), List.countP_cons_of_neg (by simp [hpass])]
    exact h.writes_le

theorem pagesLeft_le (h : e.length ≤ 4096) : e.pagesLeft ≤ 17 := by
  rw [pagesLeft]
  split <;> omega

theorem pagesLeft_page (hpage : e.pageAt.toNat = e.windowAt.toNat + e.offset)
    (hpart : e.offset < e.length) :
    { e with offset := e.offset + e.pageLength }.pagesLeft + 1 ≤ e.pagesLeft := by
  simp only [pagesLeft, pageLength, hpage, pageSize]
  rw [if_pos hpart]
  split <;> omega

theorem Placed.length_le (h : e.Placed z m) (hstage : e.stage ≠ .idle) : e.length ≤ 4096 := by
  rw [h.length_eq hstage, windowLength, blockSize]
  omega

theorem Placed.pageAt_eq_windowAt_iff (h : e.Placed z m) (hstage : e.stage ≠ .idle) :
    e.pageAt = e.windowAt ↔ e.offset = 0 := by
  rw [← UInt32.toNat_inj, h.pageAt_eq hstage]
  omega

theorem reserved_of_ne (h : e.stage ≠ .programming) : e.reserved = 0 := if_neg fun hn => h hn.1

theorem reserved_of_programming (h : e.stage = .programming) :
    e.reserved = if 0 < e.offset then 1 else 0 := by
  rw [reserved, h]
  simp

theorem reserved_le (e : Engine) : e.reserved ≤ 1 := by
  rw [reserved]
  split <;> omega

theorem Spends.of_not_programming (h : Spends f g n t) (hstage : e.stage ≠ .programming)
    (hwindow : f.windowAt = e.windowAt) (hattempts : f.attempts = e.attempts) :
    Spends e g n t where
  windowAt_eq := h.windowAt_eq.trans hwindow
  effort_le := by
    have heffort : f.effort ≤ e.effort := by
      rw [effort, effort, hattempts, if_neg hstage]
      omega
    exact h.effort_le.trans heffort
  writes_le := by
    have hwrites : f.writes ≤ e.writes := by
      rw [writes, writes, hattempts, reserved_of_ne hstage]
      omega
    rw [← hwindow]
    exact h.writes_le.trans hwrites

theorem Spends.of_attempt (hleft : e.attempts ≠ 0) (hwindow : f.windowAt = e.windowAt)
    (hattempts : f.attempts.toNat = e.attempts.toNat - 1) (hstage : f.stage ≠ .programming)
    (hcount : t.countP Exchange.isErase + t.countP (Exchange.startsPass e.windowAt) +
      e.reserved ≤ 1) : Spends e f 1 t where
  windowAt_eq := hwindow
  effort_le := by
    have hpos := attempts_pos hleft
    rw [effort, effort, if_neg hstage, hattempts]
    split <;> omega
  writes_le := by
    have hpos := attempts_pos hleft
    rw [writes, writes, reserved_of_ne hstage, hattempts]
    omega

theorem Spends.of_page (h : e.Placed z m) (hstage : e.stage = .programming)
    (hleft : e.attempts ≠ 0) (hpart : e.offset < e.length)
    (hcount : t.countP Exchange.isErase + t.countP (Exchange.startsPass e.windowAt) +
      e.reserved ≤ 1) : Spends e { e with offset := e.offset + e.pageLength } 1 t where
  windowAt_eq := rfl
  effort_le := by
    have hne : e.stage ≠ .idle := by simp [hstage]
    have hpos := attempts_pos hleft
    have hpages := pagesLeft_le (h.length_le hne)
    have hpage := pagesLeft_page (h.pageAt_eq hne) hpart
    rw [effort, effort, if_pos hstage, if_pos hstage]
    change 1 + (18 * e.attempts.toNat - _) ≤ _
    omega
  writes_le := by
    have hpos := attempts_pos hleft
    have hlength := pageLength_pos hpart
    have hbegun : { e with offset := e.offset + e.pageLength }.reserved = 1 :=
      if_pos ⟨hstage, by change 0 < e.offset + e.pageLength; omega⟩
    rw [writes, writes, hbegun]
    change _ + (e.attempts.toNat - 1) ≤ _
    omega

end Engine

namespace Pipeline

open Engine

variable {cfg : Config} {z : Zone} {m n : Nat} {p q : Pipeline} {t : List Exchange} {k : Tick}

theorem spends_endAttempt (hleft : p.engine.attempts ≠ 0)
    (hcount : t.countP Exchange.isErase + t.countP (Exchange.startsPass p.engine.windowAt) +
      p.engine.reserved ≤ 1) : p.engine.Spends (p.mapEngine .endAttempt).engine 1 t :=
  .of_attempt hleft rfl p.engine.toNat_attempts_spendAttempt (fun h => by cases h) hcount

theorem Programs.spends {block : Bytes} (h : Programs p block t k q) (hp : p.engine.Placed z m)
    (hstage : p.engine.stage = .programming) (hleft : p.engine.attempts ≠ 0)
    (hpart : p.engine.offset < p.engine.length) : p.engine.Spends q.engine k.counted t := by
  have hne : p.engine.stage ≠ .idle := by simp [hstage]
  have hreserved := reserved_of_programming hstage
  -- the page command starts a pass unless an attempt is set aside for this one
  have hpage (reply : Except Fault Unit) :
      [⟨.writeEnable, .ok ()⟩, ⟨.program p.engine.pageAt
        ((block.drop p.engine.offset).take p.engine.pageLength), reply⟩].countP Exchange.isErase +
      [⟨.writeEnable, .ok ()⟩, ⟨.program p.engine.pageAt
        ((block.drop p.engine.offset).take p.engine.pageLength), reply⟩].countP
          (Exchange.startsPass p.engine.windowAt) + p.engine.reserved ≤ 1 := by
    have hstart := hp.pageAt_eq_windowAt_iff hne
    by_cases hoffset : p.engine.offset = 0
    · simp [Exchange.isErase, Exchange.startsPass, hstart, hreserved, hoffset]
    · simpa [Exchange.isErase, Exchange.startsPass, hstart, hoffset] using p.engine.reserved_le
  cases h with
  | locked fault =>
      refine spends_endAttempt hleft ?_
      simpa [Exchange.isErase, Exchange.startsPass] using p.engine.reserved_le
  | refused fault => exact spends_endAttempt hleft (hpage _)
  | started => exact .of_page hp hstage hleft hpart (hpage _)

theorem Writes.spends (h : Writes cfg p t k q) (hp : p.engine.Placed z m)
    (hstage : p.engine.stage = .programming) (hleft : p.engine.attempts ≠ 0)
    (hhead : p.buffer.head? ≠ none) (hk : k.released = 0) :
    p.engine.Spends q.engine k.counted t := by
  have hoffset := hp.offset_le (by simp [hstage])
  cases h with
  | written done => cases hk
  | passed due all => exact spends_endAttempt hleft (by simpa using p.engine.reserved_le)
  | starved due part empty => exact absurd empty hhead
  | page due part head programs => exact programs.spends hp hstage hleft (by omega)

theorem Erases.spends (h : Erases cfg p t k q) (hstage : p.engine.stage = .erasing)
    (hleft : p.engine.attempts ≠ 0) : p.engine.Spends q.engine k.counted t := by
  have hne : p.engine.stage ≠ .programming := by simp [hstage]
  have hreserved := reserved_of_ne hne
  have hended := p.engine.toNat_attempts_spendAttempt
  cases h with
  | locked fault =>
      refine .of_attempt hleft rfl hended (fun h => by cases h) ?_
      simp [Exchange.isErase, Exchange.startsPass, hreserved]
  | refused fault =>
      refine .of_attempt hleft rfl hended (fun h => by cases h) ?_
      simp [Exchange.isErase, Exchange.startsPass, hreserved]
  | started =>
      refine .of_attempt hleft rfl hended hne ?_
      simp [Exchange.isErase, Exchange.startsPass, hreserved]

theorem Works.spends (h : Works cfg p t k q) (hp : p.engine.Placed z m)
    (hstage : p.engine.stage ≠ .idle) (hleft : p.engine.attempts ≠ 0)
    (hhead : p.buffer.head? ≠ none) (hk : k.released = 0) :
    p.engine.Spends q.engine k.counted t := by
  cases h with
  | starved _ empty => exact absurd empty hhead
  | unread herasing head fault =>
      refine spends_endAttempt hleft ?_
      simpa [Exchange.isErase, Exchange.startsPass] using p.engine.reserved_le
  | @stale herasing _ head outcome needed _ _ _ erases =>
      have hne : p.engine.stage ≠ .programming := by simp [herasing]
      have hspends := erases.spends herasing hleft
      exact (hspends.of_not_programming hne rfl rfl).cons rfl rfl
  | @fresh herasing _ head outcome spared _ _ _ writes =>
      have hne : p.engine.stage ≠ .programming := by simp [herasing]
      have hplaced := placed_cleared (placed_compared hp outcome) hstage
      have hspends := writes.spends hplaced (stage_cleared _)
        (by rw [attempts_cleared]; exact hleft) (by rw [buffer_cleared]; exact hhead) hk
      exact (hspends.of_not_programming hne (windowAt_cleared _) (attempts_cleared _)).cons rfl rfl
  | resumed hnot writes =>
      exact writes.spends hp (stage_eq_programming hstage hnot) hleft hhead hk

/-- A tick that finishes no window is paid for. -/
theorem Ticks.spends (h : Ticks cfg p t k q) (hp : p.engine.Steady z m)
    (hhead : p.buffer.head? ≠ none) (hk : k.released = 0) :
    p.engine.Spends q.engine k.counted t := by
  obtain ⟨hopened, hstage⟩ := steady_opened hp
  have hspends : p.opened.engine.Spends q.engine k.counted t := by
    cases h with
    | resting stage empty => exact absurd empty hhead
    | abandoned _ spent => cases hk
    | unanswered _ left fault =>
        refine spends_endAttempt left ?_
        simpa [greeting, Exchange.isErase, Exchange.startsPass] using p.opened.engine.reserved_le
    | busy _ left working => exact ((Spends.refl _).cons rfl rfl).cons rfl rfl
    | worked _ left ready works =>
        have hworks := works.spends hopened.toPlaced hstage left (buffer_opened p ▸ hhead) hk
        exact (hworks.cons rfl rfl).cons rfl rfl
  by_cases hidle : p.engine.stage = .idle
  · have hne : p.engine.stage ≠ .programming := by simp [hidle]
    exact hspends.of_not_programming hne (by rw [opened, if_pos hidle]; rfl) (attempts_opened p)
  · rwa [opened_of_not_idle hidle] at hspends

/-! A tick gives no more attempts than there are for a new window. -/

theorem Programs.attempts_le {block : Bytes} (h : Programs p block t k q) :
    q.engine.attempts.toNat ≤ p.engine.attempts.toNat := by
  have hended := p.engine.toNat_attempts_spendAttempt_le
  cases h with
  | locked fault => exact hended
  | refused fault => exact hended
  | started => exact le_refl _

theorem Writes.attempts_le (h : Writes cfg p t k q) :
    q.engine.attempts.toNat ≤ max p.engine.attempts.toNat cfg.maxAttempts.toNat := by
  have hended := p.engine.toNat_attempts_spendAttempt_le
  cases h with
  | written done => exact le_max_right _ _
  | passed due all => exact hended.trans (le_max_left _ _)
  | starved due part empty => exact le_max_left _ _
  | page due part head programs => exact programs.attempts_le.trans (le_max_left _ _)

theorem Erases.attempts_le (h : Erases cfg p t k q) :
    q.engine.attempts.toNat ≤ p.engine.attempts.toNat := by
  have hended := p.engine.toNat_attempts_spendAttempt_le
  cases h with
  | locked fault => exact hended
  | refused fault => exact hended
  | started => exact hended

theorem Works.attempts_le (h : Works cfg p t k q) :
    q.engine.attempts.toNat ≤ max p.engine.attempts.toNat cfg.maxAttempts.toNat := by
  have hended := p.engine.toNat_attempts_spendAttempt_le
  cases h with
  | starved _ empty => exact le_max_left _ _
  | unread _ head fault => exact hended.trans (le_max_left _ _)
  | stale _ head needed erases => exact erases.attempts_le.trans (le_max_left _ _)
  | fresh _ head spared writes =>
      have hle := writes.attempts_le
      rwa [attempts_cleared] at hle
  | resumed _ writes => exact writes.attempts_le

theorem Ticks.attempts_le (h : Ticks cfg p t k q) :
    q.engine.attempts.toNat ≤ max p.engine.attempts.toNat cfg.maxAttempts.toNat := by
  rw [← attempts_opened p]
  have hended := p.opened.engine.toNat_attempts_spendAttempt_le
  cases h with
  | resting stage empty => exact (attempts_opened p) ▸ le_max_left _ _
  | abandoned _ spent => exact le_max_right _ _
  | unanswered _ left fault => exact hended.trans (le_max_left _ _)
  | busy _ left working => exact le_max_left _ _
  | worked _ left ready works => exact works.attempts_le

/-! The tick that finishes the window. -/

/-- A tick that finishes the window releases it, leaves the engine at rest with all
attempts for the next one, and changes nothing on the chip. It asks for a reboot exactly
if it gives the window up. -/
structure Finishes (cfg : Config) (p q : Pipeline) (t : List Exchange) (k : Tick) : Prop where
  outcome : k = .committed ∧ ⟨.reboot, ()⟩ ∉ t ∨ k = .abandoned ∧ t = [⟨.reboot, ()⟩]
  buffer_eq : q.buffer = p.buffer.pop
  committed_eq : q.buffer.committed + 1 = p.buffer.committed
  stage_eq : q.engine.stage = .idle
  attempts_eq : q.engine.attempts = cfg.maxAttempts
  unworn : ∀ e ∈ t, e.isErase = false ∧ ∀ windowAt, e.startsPass windowAt = false

theorem Works.attempts_of_committed (h : Works cfg p t .committed q) :
    q.engine.attempts = cfg.maxAttempts := by
  cases h with
  | stale _ _ _ erases => cases erases
  | fresh _ _ _ writes =>
      cases writes with
      | written _ => rfl
      | page _ _ _ programs => cases programs
  | resumed _ writes =>
      cases writes with
      | written _ => rfl
      | page _ _ _ programs => cases programs

theorem Ticks.finishes (h : Ticks cfg p t k q) (hp : p.Tracks z m n)
    (hk : k.released = 1) : Finishes cfg p q t k := by
  have hbuffer := h.leaves.buffer_eq
  have hstage := h.leaves.rests hk
  have hreboot := h.reboot_mem_iff hp.steady
  rw [if_pos hk] at hbuffer
  have hcommitted : q.buffer.committed + 1 = p.buffer.committed := by
    rcases h.attended_or with hattended | ⟨-, hidle, -⟩
    · have hpos := hp.committed_pos hattended
      rw [hbuffer, BlockRing.committed_pop]
      omega
    · rw [hidle] at hk
      cases hk
  have hkind : k = .abandoned ∨ k = .committed := by
    cases k <;> simp_all [Tick.released]
  rcases hkind with rfl | rfl
  · obtain ⟨rfl, hattempts⟩ := h.eq_of_abandoned
    exact ⟨.inr ⟨rfl, rfl⟩, hbuffer, hcommitted, hstage, hattempts,
      List.forall_mem_singleton.2 ⟨rfl, fun _ => rfl⟩⟩
  · have hkept : ⟨.reboot, ()⟩ ∉ t := fun hmem => by cases hreboot.1 hmem
    obtain ⟨hopened, hopen⟩ := steady_opened hp.steady
    cases h with
    | worked _ _ _ works =>
        have hattempts := works.attempts_of_committed
        obtain ⟨block, outcome, -, -, -, rfl⟩ := works.compared_of_committed hopened hopen
        refine ⟨.inl ⟨rfl, hkept⟩, hbuffer, hcommitted, hstage, hattempts, ?_⟩
        simp [greeting, Exchange.isErase, Exchange.startsPass]

/-- The work on the window is as it was, and the window stays in the buffer. -/
structure Keeps (p q : Pipeline) : Prop where
  spends : p.engine.Spends q.engine 0 []
  attempts_eq : q.engine.attempts = p.engine.attempts
  committed_le : p.buffer.committed ≤ q.buffer.committed

theorem Keeps.refl (p : Pipeline) : Keeps p p := ⟨.refl _, rfl, le_refl _⟩

theorem Keeps.trans {r : Pipeline} (h : Keeps p q) (h' : Keeps q r) : Keeps p r :=
  ⟨h.spends.trans h'.spends, h'.attempts_eq.trans h.attempts_eq,
    h.committed_le.trans h'.committed_le⟩

end Pipeline

namespace Session

open Dialogue Engine Pipeline

variable {cfg : Config} {limit : Nat} {s s' s'' : Session} {op : Operation} {a : Answer}
  {n : Nat} {t t' : List Exchange} {k : Tick}

theorem keeps_commitTail (s : Session) : s.Keeps s.commitTail.toPipeline := by
  rw [commitTail]
  split
  · exact .refl _
  split
  · exact .refl _
  · rename_i buffer hcommit
    rw [← (BlockRing.commit_eq_some_iff.1 hcommit).2]
    exact ⟨spends_withReceiveAt _ _, rfl, Nat.le_succ _⟩

theorem keeps_commitImageTail (s : Session) : s.Keeps s.commitImageTail.toPipeline :=
  commitImageTail_of (P := fun s' => s.Keeps s'.toPipeline) s.keeps_commitTail (.refl _)

theorem keeps_closedIfShort (s : Session) (length : Nat) :
    s.Keeps (s.closedIfShort cfg length).toPipeline :=
  closedIfShort_of (P := fun s' => s.Keeps s'.toPipeline) s.keeps_commitTail (.refl _) length

theorem Downloads.keeps {bytes : Bytes} {x : Except SessionError Unit}
    (h : Downloads cfg s bytes x s') (hs : s.buffer.WellFormed) : s.Keeps s'.toPipeline := by
  cases h with
  | ended none_left => exact .refl _
  | overflowed some_left past => exact .refl _
  | crowded some_left inside full => exact .refl _
  | @taken some_left receiveAt buffer inside receiveAt_eq append =>
      have hreceived : s.Keeps (s.received buffer receiveAt).toPipeline :=
        ⟨spends_withReceiveAt _ _, rfl, hs.committed_le_append append⟩
      exact hreceived.trans (keeps_closedIfShort _ _)

theorem Uploads.keeps {room requested : Nat} {x : Except SessionError Bytes}
    (h : Uploads s room requested t x s') : s.Keeps s'.toPipeline := by
  cases h with
  | finished none_left => exact .refl _
  | unread some_left fault => exact .refl _
  | read some_left bytes => exact ⟨spends_withReadAt _ _, rfl, le_refl _⟩

/-- The operations besides the work on the window: no tick, nothing that drops the
window, and no status request that waits for the buffer to drain. -/
def Aside (cfg : Config) (s : Session) : Operation → Prop
  | .tick | .configured | .selectAlt _ | .busReset => False
  | .getStatus => ¬(s.state = .manifestSync ∧ cfg.manifest = .drain)
  | _ => True

theorem Reports.keeps {report : StatusReport} (h : Reports cfg limit s t (some (report, s')))
    (hqueued : 0 < s.buffer.committed) (haside : s.Aside cfg .getStatus) :
    s.Keeps s'.toPipeline := by
  cases h with
  | drained state policy drains => exact absurd ⟨state, policy⟩ haside
  | finished state policy empty =>
      have hle := s.keeps_commitImageTail.committed_le
      have hzero := (BlockRing.isEmpty_iff.1 empty).1
      omega
  | manifesting state policy queued => exact s.keeps_commitImageTail
  | ready _ _ | crowded _ _ | other _ _ => exact .refl _

theorem Performs.keeps (h : Performs cfg limit s op t (some (a, s')))
    (hs : s.buffer.WellFormed) (hqueued : 0 < s.buffer.committed) (haside : s.Aside cfg op) :
    s.Keeps s'.toPipeline := by
  cases h with
  | download downloads => exact downloads.keeps hs
  | upload uploads => exact uploads.keeps
  | reported reports => exact reports.keeps hqueued haside
  | configured _ _ | unconfigured | selected _ | unselected _ | unreset _ | reset _ | throttled _
  | ticked _ _ => exact haside.elim
  | allowed _ _ | refused _ | fail _ | detach | clearStatus | getState | abort | polled _
  | detached _ => exact .refl _

/-- A run from a session in which no tick finishes the window: `n` of its ticks count,
and `t` are the exchanges of the ticks. Between them the host may do as it likes, as far
as that leaves the window alone. -/
inductive Attends (cfg : Config) (s : Session) : Nat → List Exchange → Session → Prop
  | start : Attends cfg s 0 [] s
  | tick {s' s'' : Session} {limit n : Nat} {t t' : List Exchange} {k : Tick}
      (run : Attends cfg s n t s')
      (ends : Ends (s'.perform cfg limit .tick) t' (some (.ticked k, s'')))
      (unfinished : k.released = 0) : Attends cfg s (n + k.counted) (t ++ t') s''
  | aside {s' s'' : Session} {limit n : Nat} {op : Operation} {t t' : List Exchange} {a : Answer}
      (run : Attends cfg s n t s') (aside : s'.Aside cfg op)
      (ends : Ends (s'.perform cfg limit op) t' (some (a, s''))) : Attends cfg s n t s''

theorem Attends.reachable (h : Attends cfg s n t s') (hs : Reachable cfg s) :
    Reachable cfg s' := by
  induction h with
  | start => exact hs
  | tick _ ends _ ih => exact .perform ih ends
  | aside _ _ ends ih => exact .perform ih ends

/-- A step that does not finish the window is paid for, and leaves it in the buffer. -/
theorem Steps.spends (h : Steps cfg s t k s') (hs : Located cfg s)
    (hqueued : 0 < s.buffer.committed) (hk : k.released = 0) :
    s.engine.Spends s'.engine k.counted t ∧ 0 < s'.buffer.committed ∧ ⟨.reboot, ()⟩ ∉ t := by
  obtain ⟨_, z, m, n, -, -, htracks⟩ := hs.commitImageTail
  have hkeeps := s.keeps_commitImageTail
  have hpos : 0 < s.commitImageTail.buffer.committed := hqueued.trans_le hkeeps.committed_le
  cases h with
  | @step q ticks =>
      have hspends := ticks.spends htracks.steady (BlockRing.head?_ne_none_iff.2 hpos) hk
      have hbuffer := ticks.leaves.buffer_eq
      rw [hk, if_neg (by decide)] at hbuffer
      refine ⟨?_, ?_, ?_⟩
      · have htotal := hkeeps.spends.trans hspends
        rwa [Nat.zero_add] at htotal
      · change 0 < q.buffer.committed
        rwa [hbuffer]
      · intro hmem
        rw [(ticks.reboot_mem_iff htracks.steady).1 hmem] at hk
        cases hk

theorem Attends.spends (h : Attends cfg s n t s') (hs : Reachable cfg s)
    (hqueued : 0 < s.buffer.committed) :
    s.engine.Spends s'.engine n t ∧ 0 < s'.buffer.committed ∧ ⟨.reboot, ()⟩ ∉ t := by
  induction h with
  | start => exact ⟨.refl _, hqueued, List.not_mem_nil⟩
  | tick run ends unfinished ih =>
      obtain ⟨hspends, hpos, hkept⟩ := ih
      have hlocated := (run.reachable hs).located
      have hnext := performs_of_ends ends
      cases hnext with
      | throttled skip =>
          rw [List.append_nil]
          exact ⟨hspends, hpos, hkept⟩
      | ticked due steps =>
          obtain ⟨hstep, hpos', hkept'⟩ := steps.spends hlocated hpos unfinished
          exact ⟨hspends.trans hstep, hpos', List.not_mem_append hkept hkept'⟩
  | aside run aside ends ih =>
      obtain ⟨hspends, hpos, hkept⟩ := ih
      have hring := (run.reachable hs).located.wellFormed
      have hkeeps := (performs_of_ends ends).keeps hring hpos aside
      have htotal := hspends.trans hkeeps.spends
      rw [Nat.add_zero, List.append_nil] at htotal
      exact ⟨htotal, hpos.trans_le hkeeps.committed_le, hkept⟩

/-- The effort on a window is bounded, whatever the board answers. From a session with
a queued window and `r` attempts, no more than `18 * r` ticks count without finishing the
window; together they try no more than `r` erase commands and program passes, and they
never reboot. The tick that finishes it then does so in one of two ways. -/
theorem effort_bounded (h : Reachable cfg s) (hqueued : 0 < s.buffer.committed)
    (hrun : Attends cfg s n t s') :
    n ≤ 18 * s.engine.attempts.toNat ∧
      t.countP Exchange.isErase + t.countP (Exchange.startsPass s.engine.windowAt) ≤
        s.engine.attempts.toNat ∧
      ⟨.reboot, ()⟩ ∉ t ∧
      ∀ {limit : Nat} {t' : List Exchange} {k : Tick} {s'' : Session},
        Ends (s'.perform cfg limit .tick) t' (some (.ticked k, s'')) → k.released = 1 →
        Finishes cfg s'.commitImageTail.toPipeline s''.toPipeline t' k := by
  obtain ⟨hspends, -, hkept⟩ := hrun.spends h hqueued
  refine ⟨?_, ?_, hkept, ?_⟩
  · have heffort := hspends.effort_le.trans s.engine.effort_le
    omega
  · have hwrites := hspends.writes_le.trans s.engine.writes_le
    omega
  · intro limit t' k s'' ends hk
    obtain ⟨_, z, m, n, -, -, htracks⟩ := (hrun.reachable h).located.commitImageTail
    have hnext := performs_of_ends ends
    cases hnext with
    | throttled skip => cases hk
    | ticked due steps =>
        cases steps with
        | step ticks =>
            rw [commitImageTail_skipped] at ticks
            exact ticks.finishes htracks hk

/-- One byte for the smallest zone of the reference board, and a tick to which the chip
does not answer. -/
theorem effort_bounded_unanswered :
    ∃ (s s' : Session) (t : List Exchange), Reachable {} s ∧ 0 < s.buffer.committed ∧
      Attends {} s 1 t s' ∧ 1 ≤ 18 * s.engine.attempts.toNat ∧ ⟨.reboot, ()⟩ ∉ t := by
  let s₁ := (initial {}).loaded {} 6 ⟨.cartridge, 0, 0x100, "RTC"⟩
  let s₂ := (s₁.download {} [0x42]).2
  have hselect : Ends ((initial {}).perform {} 0 (.selectAlt 6)) []
      (some (.selected true, s₁)) := .done _
  have hdownload : Ends (s₁.perform {} 0 (.download [0x42])) []
      (some (.downloaded (s₁.download {} [0x42]).1, s₂)) := .done _
  have h₂ : Reachable {} s₂ := .perform (.perform .initial hselect) hdownload
  have hqueued : 0 < s₂.buffer.committed := by decide +kernel
  have hleft : s₂.commitImageTail.opened.engine.attempts ≠ 0 := by decide +kernel
  have hattended : s₂.commitImageTail.Attended :=
    .inr (BlockRing.head?_ne_none_iff.2 (hqueued.trans_le s₂.keeps_commitImageTail.committed_le))
  have hdue : ¬s₂.skipped < ({} : Config).skipTicks := by decide +kernel
  have hsteps : Steps {} { s₂ with skipped := 0 } _ .failed _ :=
    .step (.unanswered hattended hleft .bus)
  have hrun : Attends {} s₂ 1 _ _ := .tick .start (hsteps.ends hdue 0) rfl
  obtain ⟨heffort, -, hkept, -⟩ := effort_bounded h₂ hqueued hrun
  exact ⟨s₂, _, _, h₂, hqueued, hrun, heffort, hkept⟩

/-! No session has more attempts on a window than the loader is given. -/

theorem Steps.attempts_le (h : Steps cfg s t k s')
    (hs : s.engine.attempts.toNat ≤ cfg.maxAttempts.toNat) :
    s'.engine.attempts.toNat ≤ cfg.maxAttempts.toNat := by
  have hkeeps := s.keeps_commitImageTail.attempts_eq
  cases h with
  | step ticks =>
      have hle := ticks.attempts_le
      rw [hkeeps, max_eq_right hs] at hle
      exact hle

theorem Reports.attempts_le {report : StatusReport}
    (h : Reports cfg limit s t (some (report, s'))) (hs : Located cfg s)
    (hle : s.engine.attempts.toNat ≤ cfg.maxAttempts.toNat) :
    s'.engine.attempts.toNat ≤ cfg.maxAttempts.toNat := by
  have hrewind {s : Session} (hs : Located cfg s) :
      (s.rewind cfg).engine.attempts.toNat ≤ cfg.maxAttempts.toNat := by
    obtain ⟨zone, _, _, _, hzone, -, -⟩ := hs
    have hengine : (s.rewind cfg).engine = .loaded zone cfg.maxAttempts := by
      simp only [Session.rewind, hzone]
    rw [hengine]
    exact le_refl _
  cases h with
  | drained state policy drains =>
      exact hrewind (drains.preserves (P := Located cfg) Steps.located hs rfl).1
  | finished state policy empty => exact hrewind (Located.commitImageTail hs)
  | manifesting state policy queued => rwa [s.keeps_commitImageTail.attempts_eq]
  | ready _ _ | crowded _ _ | other _ _ => exact hle

theorem Performs.attempts_le (h : Performs cfg limit s op t (some (a, s'))) (hs : Located cfg s)
    (hle : s.engine.attempts.toNat ≤ cfg.maxAttempts.toNat) :
    s'.engine.attempts.toNat ≤ cfg.maxAttempts.toNat := by
  cases h with
  | download downloads => rwa [(downloads.keeps hs.wellFormed).attempts_eq]
  | upload uploads => rwa [uploads.keeps.attempts_eq]
  | reported reports => exact reports.attempts_le hs hle
  | ticked due steps => exact steps.attempts_le hle
  | configured _ _ | selected _ | reset _ => exact le_refl _
  | unconfigured | unselected _ | allowed _ _ | refused _ | fail _ | detach | clearStatus
  | getState | abort | unreset _ | polled _ | detached _ | throttled _ => exact hle

theorem Reachable.attempts_le (h : Reachable cfg s) :
    s.engine.attempts.toNat ≤ cfg.maxAttempts.toNat := by
  induction h with
  | initial => exact le_refl _
  | perform reachable ends ih => exact (performs_of_ends ends).attempts_le reachable.located ih

end Session

end DfuLoader
