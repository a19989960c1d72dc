import DfuLoader.Proofs.Completion

/-!
# The engine steps on every so many ticks

A loader may let some ticks pass between two that step the engine. Which ones those are is told
by the number of ticks alone, counted from power-on or from the last reset of the bus that ended
a session (`Called`), whatever else is done in between: the counter of a session is that number
modulo the ticks from one step to the next (`Called.counts`), so it never comes to wrap. Ticks and
such resets are all that touches it. A status request may step the engine many times to drain the
buffer, and neither sees the counter nor changes it (`getStatus_withSkipped`).
-/

namespace DfuLoader

namespace Session

open Dialogue

/-- The ticks after an operation, if there were `i` before it. A reset of the bus that ends the
session begins to count anew. -/
def Operation.calls (s : Session) (i : Nat) : Operation → Nat
  | .tick => i + 1
  | .busReset => if s.state = .appDetach then i else 0
  | _ => i

/-- The sessions that operations lead to, with the ticks since power-on or since the last reset
of the bus that ended a session. -/
inductive Called (cfg : Config) : Nat → Session → Prop
  | initial : Called cfg 0 (.initial cfg)
  | perform {i limit : Nat} {s s' : Session} {op : Operation} {t : List Exchange} {a : Answer}
      (called : Called cfg i s) (ends : Ends (s.perform cfg limit op) t (some (a, s'))) :
      Called cfg (op.calls s i) s'

/-- The counter starts over with every tick that is due. -/
def Counts (cfg : Config) (i : Nat) (s : Session) : Prop :=
  s.skipped.toNat = i % (cfg.skipTicks.toNat + 1)

def withSkipped (s : Session) (skipped : UInt8) : Session := { s with skipped := skipped }

variable {cfg : Config} {limit i : Nat} {s s' : Session} {t : List Exchange} {op : Operation}
  {a : Answer} {k : Tick}

/-! One tick. -/

/-- The ticks to skip are those whose number is no multiple of the ticks to a step. -/
theorem Counts.skip_iff (h : s.Counts cfg i) :
    s.skipped < cfg.skipTicks ↔ ¬cfg.skipTicks.toNat + 1 ∣ i + 1 := by
  have hlt : i % (cfg.skipTicks.toNat + 1) < cfg.skipTicks.toNat + 1 :=
    Nat.mod_lt i (Nat.succ_pos _)
  rw [UInt8.lt_iff_toNat_lt, h, Nat.dvd_iff_mod_eq_zero, Nat.succ_mod_succ_eq_zero_iff]
  omega

theorem Counts.skip (h : s.Counts cfg i) (hskip : s.skipped < cfg.skipTicks) :
    Counts cfg (i + 1) { s with skipped := s.skipped + 1 } := by
  have hlt := UInt8.lt_iff_toNat_lt.1 hskip
  rw [h] at hlt
  have hnext : (i + 1) % (cfg.skipTicks.toNat + 1) = i % (cfg.skipTicks.toNat + 1) + 1 := by
    rw [← Nat.mod_add_mod]
    exact Nat.mod_eq_of_lt (by omega)
  rw [Counts, hnext, ← h]
  exact toNat_skipped_add_one hskip

theorem Counts.due (h : s.Counts cfg i) (hdue : ¬s.skipped < cfg.skipTicks)
    (hs' : s'.skipped = 0) : s'.Counts cfg (i + 1) := by
  rw [h.skip_iff, not_not, Nat.dvd_iff_mod_eq_zero] at hdue
  rw [Counts, hs', hdue]
  rfl

/-! Any operation. -/

theorem skipped_commitImageTail (s : Session) : s.commitImageTail.skipped = s.skipped := by
  rw [s.commitImageTail_frame]
  rfl

theorem Steps.skipped_eq (h : Steps cfg s t k s') : s'.skipped = s.skipped := by
  rw [h.frame]
  rfl

theorem Downloads.skipped_eq {bytes : Bytes} {x : Except SessionError Unit}
    (h : Downloads cfg s bytes x s') : s'.skipped = s.skipped := by
  rw [h.frame]

theorem Reports.skipped_eq {report : StatusReport}
    (h : Reports cfg limit s t (some (report, s'))) : s'.skipped = s.skipped := by
  cases h with
  | drained _ _ drains =>
      exact (drains.preserves (P := fun s' => s'.skipped = s.skipped)
        (fun steps hs => steps.skipped_eq.trans hs) rfl rfl).1
  | finished _ _ _ | manifesting _ _ _ => exact s.skipped_commitImageTail
  | ready _ _ | crowded _ _ | other _ _ => rfl

theorem Performs.counts (h : Performs cfg limit s op t (some (a, s'))) (hs : s.Counts cfg i) :
    s'.Counts cfg (op.calls s i) := by
  cases h with
  | throttled skip => exact hs.skip skip
  | ticked due steps => exact hs.due due steps.skipped_eq
  | reset state =>
      rw [Operation.calls, if_neg state]
      rfl
  | unreset state =>
      rw [Operation.calls, if_pos state]
      exact hs
  | download downloads => exact (congrArg UInt8.toNat downloads.skipped_eq).trans hs
  | reported reports => exact (congrArg UInt8.toNat reports.skipped_eq).trans hs
  | upload uploads => cases uploads with | finished _ | unread _ _ | read _ _ => exact hs
  | configured _ _ | unconfigured | selected _ | unselected _ | allowed _ _ | refused _ | fail _
  | detach | clearStatus | getState | abort | polled _ | detached _ => exact hs

theorem Called.counts (h : Called cfg i s) : s.Counts cfg i := by
  induction h with
  | initial => exact (Nat.zero_mod _).symm
  | perform _ ends ih => exact (performs_of_ends ends).counts ih

/-! A status request. -/

theorem commitImageTail_withSkipped (s : Session) (c : UInt8) :
    (s.withSkipped c).commitImageTail = s.commitImageTail.withSkipped c := by
  rw [commitImageTail_congr (r := s.withSkipped c) (s := s) rfl rfl, s.commitImageTail_frame]
  rfl

/-- A status request does not see the counter, nor do the steps that it takes to drain the
buffer. -/
theorem getStatus_withSkipped (cfg : Config) (limit : Nat) (s : Session) (c : UInt8) :
    (s.withSkipped c).getStatus cfg limit =
      Option.map (fun r => (r.1, r.2.withSkipped c)) <$> s.getStatus cfg limit := by
  cases hstate : s.state with
  | manifestSync =>
      cases hpolicy : cfg.manifest with
      | drain =>
          rw [getStatus_of_drain hstate hpolicy,
            getStatus_of_drain (s := s.withSkipped c) hstate hpolicy]
          change (s.draining c).drain cfg limit >>= _ =
            Option.map _ <$> ((s.draining s.skipped).drain cfg limit >>= _)
          rw [drain_draining, drain_draining, bind_map_left, bind_map_left, map_bind]
          exact bind_congr fun r => by cases r <;> rfl
      | report =>
          rw [getStatus_of_report hstate hpolicy,
            getStatus_of_report (s := s.withSkipped c) hstate hpolicy, commitImageTail_withSkipped]
          change (if s.commitImageTail.buffer.isEmpty then _ else _) =
            Option.map _ <$> (if s.commitImageTail.buffer.isEmpty then _ else _)
          split <;> rfl
  | downloadSync =>
      rw [getStatus, getStatus, show (s.withSkipped c).state = s.state from rfl, hstate]
      change (if s.buffer.committed < 2 then _ else _) =
        Option.map _ <$> (if s.buffer.committed < 2 then _ else _)
      split <;> rfl
  | appIdle | appDetach | idle | downloadBusy | downloadIdle | manifest | manifestWaitReset
  | uploadIdle | error =>
      rw [getStatus, getStatus, show (s.withSkipped c).state = s.state from rfl, hstate]
      rfl

/-- From power-on, or from the last reset of the bus that ended a session, every so many ticks
step the engine, whatever else is done in between: a tick is a step if its number is a multiple of
`skipTicks + 1`. Every other tick is throttled, asks nothing of the board and changes nothing but
the counter, which is the number of ticks modulo that. The steps that drain the buffer for a status
request are no ticks. Whatever the counter, they are the same, and leave it as it is. -/
theorem tick_rate (h : Called cfg i s) :
    s.tick cfg =
        (if cfg.skipTicks.toNat + 1 ∣ i + 1 then { s with skipped := 0 }.step cfg
        else .done (.throttled, { s with skipped := s.skipped + 1 })) ∧
      (∀ t k s', Ends ({ s with skipped := 0 }.step cfg) t (k, s') → k ≠ .throttled) ∧
      s.skipped.toNat = i % (cfg.skipTicks.toNat + 1) ∧
      ∀ limit c, { s with skipped := c }.getStatus cfg limit =
        Option.map (fun r => (r.1, { r.2 with skipped := c })) <$> s.getStatus cfg limit := by
  refine ⟨?_, fun _ _ _ hends => (steps_of_ends hends).ne_throttled, h.counts,
    fun limit c => getStatus_withSkipped cfg limit s c⟩
  rw [tick]
  by_cases hskip : s.skipped < cfg.skipTicks
  · rw [if_pos hskip, if_neg (h.counts.skip_iff.1 hskip)]
    rfl
  · rw [if_neg hskip, if_pos (not_not.1 (mt h.counts.skip_iff.2 hskip))]

/-- Every other tick is a step. Half of the smallest zone of the reference board is received, the
first tick is throttled, a status request then drains the buffer, and the second tick is a step. -/
theorem tick_rate_drained :
    ∃ s s' : Session,
      let cfg : Config := { skipTicks := 1 }
      Called cfg 0 s ∧ s.buffer.isEmpty = false ∧
        s.tick cfg = .done (.throttled, { s with skipped := s.skipped + 1 }) ∧
        Called cfg 1 s' ∧ s'.buffer.isEmpty = true ∧
        s'.tick cfg = { s' with skipped := 0 }.step cfg := by
  let cfg : Config := { skipTicks := 1 }
  let s : Session := halfImage cfg
  let s₁ : Session := { s with skipped := s.skipped + 1 }
  have hselect : Ends ((initial cfg).perform cfg 0 (.selectAlt 6)) []
      (some (.selected true, (initial cfg).loaded cfg 6 ⟨.cartridge, 0, 0x100, "RTC"⟩)) := .done _
  have hreceived : Called cfg 0 s :=
    ((Called.initial.perform hselect).perform (ends_download cfg 0 _ _)).perform
      (ends_download_nil cfg 0 _)
  have hthrottled : s.tick cfg = .done (.throttled, s₁) :=
    (tick_rate hreceived).1.trans (if_neg (by decide))
  have htick : Ends (s.perform cfg 0 .tick) [] (some (.ticked .throttled, s₁)) := by
    rw [perform, hthrottled]
    exact .done _
  have hticked : Called cfg 1 s₁ := hreceived.perform htick
  have hempty : ((s₁.getStatus cfg 4).run Flash.chips.withReadback
      ⟨.internal, fun _ _ => 0xff⟩).1.map (·.2.buffer.isEmpty) = some true := by
    decide +kernel
  generalize hdrain : (s₁.getStatus cfg 4).run Flash.chips.withReadback
    ⟨.internal, fun _ _ => 0xff⟩ = r at hempty
  obtain ⟨_ | ⟨report, s'⟩, f⟩ := r
  · cases hempty
  have hreport : Ends (s₁.perform cfg 4 .getStatus) _ (some (.reported report, s')) :=
    ends_bind.2 ⟨_, [], _, rfl, ends_of_run hdrain, .done _⟩
  have hdrained : Called cfg 1 s' := hticked.perform hreport
  exact ⟨s, s', hreceived, by decide +kernel, hthrottled, hdrained,
    Option.some.inj hempty, (tick_rate hdrained).1.trans (if_pos (by decide))⟩

end Session

end DfuLoader
