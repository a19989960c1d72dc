import DfuLoader.Proofs.ImageTransfer

/-!
# Downloads come to an end

On every board that does not find a chip at work for ever, a host that waits for its image to be
written is told so. Draining the buffer takes a number of steps (`EmptiesWithin`), whichever of
the two policies is in force: a status request that drains takes all of them, and every tick
takes one, but for those that are skipped. So the host needs to ask once after enough ticks
(`Nearing.reachesIdle`). As long as the image is sent, all is answered at once (`run_sends`), and a
whole download comes to its end (`Transfer.reachesIdle`).
-/

namespace DfuLoader

namespace Session

open Dialogue

/-- The ticks that some steps of the engine take, with those that are skipped. -/
def ticksFor (cfg : Config) (steps : Nat) (s : Session) : Nat :=
  if steps = 0 then 0
  else (steps - 1) * (cfg.skipTicks.toNat + 1) + (cfg.skipTicks.toNat - s.skipped.toNat) + 1

variable {cfg : Config} {limit d : Nat} {s s' s₁ : Session} {t : List Exchange} {k : Tick}
  {op : Operation} {ops : List Operation} {a : Answer}

theorem ticksFor_eq_zero : ticksFor cfg d s = 0 ↔ d = 0 := by
  rw [ticksFor]
  split
  · simp [*]
  · simp [*]

theorem ticksFor_of_skip (hd : d ≠ 0) (hskip : s.skipped < cfg.skipTicks) :
    ticksFor cfg d s = ticksFor cfg d { s with skipped := s.skipped + 1 } + 1 := by
  have hlt := UInt8.lt_iff_toNat_lt.1 hskip
  have hnext := toNat_skipped_add_one hskip
  rw [ticksFor, ticksFor, if_neg hd, if_neg hd]
  change _ = _ + (_ - (s.skipped + 1).toNat) + 1 + 1
  rw [hnext]
  omega

theorem ticksFor_of_step (hd : d ≠ 0) (hskipped : s₁.skipped = 0) :
    ticksFor cfg (d - 1) s₁ + 1 ≤ ticksFor cfg d s := by
  obtain ⟨e, rfl⟩ := Nat.exists_eq_succ_of_ne_zero hd
  rw [ticksFor, ticksFor, if_neg hd, Nat.succ_sub_one, hskipped]
  split
  · omega
  · rename_i he
    obtain ⟨e, rfl⟩ := Nat.exists_eq_succ_of_ne_zero he
    rw [Nat.succ_sub_one, Nat.succ_mul]
    change _ + (_ - 0) + 1 + 1 ≤ _
    omega

/-! Once the image is written, the host is told so. -/

section Board

variable {σ : Type} {board : Board σ} {x x' x₁ : σ}

def EmptiesWithin (cfg : Config) (board : Board σ) (d : Nat) (s : Session) (x : σ) : Prop :=
  ∀ limit, d ≤ limit → ((s.drain cfg limit).run board x).1.isSome = true

theorem drain_draining (cfg : Config) (limit : Nat) (s : Session) (n : UInt8) :
    (s.draining n).drain cfg limit = Option.map (draining · n) <$> s.drain cfg limit := by
  induction limit generalizing s with
  | zero =>
      rw [drain, drain]
      change (pure (if s.buffer.isEmpty then _ else _) : Dialogue _) = _
      split <;> rfl
  | succ limit ih =>
      rw [drain, drain]
      change (if s.buffer.isEmpty then _ else _) = _
      split
      · rfl
      · rw [step_draining, bind_bind, map_bind]
        exact bind_congr fun r => ih r.2

theorem EmptiesWithin.congr (h : EmptiesWithin cfg board d s x)
    (same : s₁.draining 0 = s.draining 0) : EmptiesWithin cfg board d s₁ x := by
  intro limit hlimit
  have hs := h limit hlimit
  have hdrain := (drain_draining cfg limit s₁ 0).symm.trans
    ((congrArg (drain cfg limit) same).trans (drain_draining cfg limit s 0))
  have hrun := congrArg (fun d => (d.run board x).1.isSome) hdrain
  simp only [run_map, Option.isSome_map] at hrun
  rw [hrun]
  exact hs

theorem EmptiesWithin.commitImageTail (h : EmptiesWithin cfg board d s x)
    (hs : s.buffer.WellFormed) : EmptiesWithin cfg board d s.commitImageTail x := by
  intro limit hlimit
  rw [drain_commitImageTail hs]
  exact h limit hlimit

theorem EmptiesWithin.isEmpty (h : EmptiesWithin cfg board 0 s x) : s.buffer.isEmpty = true := by
  have hs := h 0 le_rfl
  rw [drain] at hs
  by_contra hempty
  rw [if_neg hempty] at hs
  cases hs

theorem emptiesWithin_of_isEmpty (h : s.buffer.isEmpty = true) (board : Board σ) (d : Nat) (x : σ) :
    EmptiesWithin cfg board d s x := by
  intro limit _
  rw [drain_of_isEmpty h]
  rfl

theorem EmptiesWithin.step (h : EmptiesWithin cfg board d s x) (hs : Located cfg s)
    (hstep : (s.step cfg).run board x = ((k, s₁), x₁)) :
    EmptiesWithin cfg board (d - 1) s₁ x₁ := by
  cases hempty : s.buffer.isEmpty with
  | true =>
      rw [step_of_isEmpty hs hempty] at hstep
      cases hstep
      exact emptiesWithin_of_isEmpty hempty board _ x
  | false =>
      intro limit hlimit
      rw [← (drain_succ hempty hstep limit).1]
      exact h (limit + 1) (by omega)

/-- The buffer of a session that works on its zone is emptied, if no chip is at work for ever. -/
theorem exists_emptiesWithin (hboard : board.Settles) (hs : Located cfg s)
    (hend : s.endOfImage = true) (x : σ) : ∃ d, EmptiesWithin cfg board d s x := by
  obtain ⟨n, t, w, s', x', -, m, hm⟩ := drainable hboard (sealed_commitImageTail hs hend) x
  refine ⟨m, fun limit hlimit => ?_⟩
  rw [← drain_commitImageTail hs.wellFormed, (hm limit hlimit).1]
  rfl

/-- The operations are all answered, and the session is idle in the end. -/
def ReachesIdle (cfg : Config) (board : Board σ) (limit : Nat) (ops : List Operation) (s : Session)
    (x : σ) : Prop :=
  ∃ answers s' x', (performAll cfg limit ops s).run board x = (some (answers, s'), x') ∧
    s'.state = .idle

theorem ReachesIdle.cons (h : ReachesIdle cfg board limit ops s₁ x₁)
    (hop : (s.perform cfg limit op).run board x = (some (a, s₁), x₁)) :
    ReachesIdle cfg board limit (op :: ops) s x := by
  obtain ⟨answers, s', x', hrest, hidle⟩ := h
  exact ⟨a :: answers, s', x',
    run_performAll_cons.2 ⟨a, s₁, x₁, answers, hop, hrest, rfl⟩, hidle⟩

theorem Written.reachesIdle (h : Written cfg s) (hops : ∀ op ∈ ops, op.Waits)
    (board : Board σ) (limit : Nat) (x : σ) : ReachesIdle cfg board limit ops s x := by
  induction ops generalizing s x with
  | nil => exact ⟨[], s, x, rfl, h.state_eq⟩
  | cons op ops ih =>
      rw [List.forall_mem_cons] at hops
      obtain ⟨⟨r, x₁⟩, hop⟩ : ∃ r, (s.perform cfg limit op).run board x = r := ⟨_, rfl⟩
      obtain ⟨-, a, s₁, rfl, hs₁, -⟩ := (performs_of_ends (ends_of_run hop)).written hops.1 h
      exact (ih hs₁ hops.2 x₁).cons hop

/-- The host waits, and draining takes no more than `d` steps. -/
structure Nearing (cfg : Config) (board : Board σ) (d : Nat) (s : Session) (x : σ) : Prop where
  located : Located cfg s
  awaiting : Awaiting s
  within : EmptiesWithin cfg board d s x

theorem Nearing.getStatus (h : Nearing cfg board d s x) (hlimit : d ≤ limit) :
    ∃ a s₁ x₁, (s.perform cfg limit .getStatus).run board x = (some (a, s₁), x₁) ∧
      (Written cfg s₁ ∨ d ≠ 0 ∧ Nearing cfg board d s₁ x₁ ∧ s₁.skipped = s.skipped) := by
  obtain ⟨⟨r, x₁⟩, hrun⟩ : ∃ r, (s.perform cfg limit .getStatus).run board x = r := ⟨_, rfl⟩
  have hplays := board.plays_run (s.perform cfg limit .getStatus) x
  have hperforms := performs_of_ends (ends_of_run hrun)
  rw [hrun] at hplays
  generalize (s.perform cfg limit .getStatus).trace board x = t at *
  cases hperforms with
  | unreported reports =>
      cases reports with
      | waiting state policy _ =>
          have hdrains : Operation.getStatus.Drains cfg s := ⟨rfl, state, policy⟩
          have hwithin : EmptiesWithin cfg board d { s with state := .idle } x := h.within.congr rfl
          have hsome := hwithin limit hlimit
          rw [perform_of_drains hdrains, run_map] at hrun
          rw [← Option.isSome_map, (Prod.mk.inj hrun).1] at hsome
          cases hsome
  | reported reports =>
      refine ⟨_, _, x₁, hrun, ?_⟩
      cases reports with
      | ready state _ | crowded state _ =>
          exact absurd (h.awaiting.state_eq.symm.trans state) (by decide)
      | other _ manifest => exact absurd h.awaiting.state_eq manifest
      | drained _ _ drains =>
          have hidle : Located cfg { s with state := .idle } := h.located
          obtain ⟨⟨hlocated, hstate⟩, hempty⟩ := drains.preserves
            (P := fun s => Located cfg s ∧ s.state = .idle)
            (fun steps hs => ⟨steps.located hs.1, steps.fields.2.1.trans hs.2⟩) ⟨hidle, rfl⟩ rfl
          exact .inl ⟨hlocated.rewind hempty, hempty, hstate⟩
      | finished _ _ empty =>
          have hidle : Located cfg { s.commitImageTail with state := .idle } :=
            h.located.commitImageTail
          exact .inl ⟨hidle.rewind empty, empty, rfl⟩
      | manifesting _ _ queued =>
          cases hplays
          obtain ⟨-, hstate, hend⟩ := s.commitImageTail_fields
          refine .inr ⟨?_, ⟨h.located.commitImageTail,
            ⟨hend.trans h.awaiting.endOfImage_eq, hstate.trans h.awaiting.state_eq⟩,
            h.within.commitImageTail h.located.wellFormed⟩, ?_⟩
          · rintro rfl
            rw [isEmpty_commitImageTail, h.within.isEmpty] at queued
            cases queued
          · rw [commitImageTail_frame]
            rfl

/-- A tick comes nearer to the end of the manifestation, by as much as it is counted. -/
theorem Nearing.tick (h : Nearing cfg board d s x) (limit : Nat) :
    ∃ a s₁ x₁ e, (s.perform cfg limit .tick).run board x = (some (a, s₁), x₁) ∧ e ≤ d ∧
      Nearing cfg board e s₁ x₁ ∧ ticksFor cfg e s₁ ≤ ticksFor cfg d s - 1 := by
  by_cases hskip : s.skipped < cfg.skipTicks
  · refine ⟨.ticked .throttled, { s with skipped := s.skipped + 1 }, x, d, ?_, le_rfl,
      ⟨h.located, ⟨h.awaiting.endOfImage_eq, h.awaiting.state_eq⟩, h.within.congr rfl⟩, ?_⟩
    · rw [perform_tick_of_skip hskip]
      rfl
    by_cases hd : d = 0
    · rw [hd]
      exact Nat.zero_le _
    · rw [ticksFor_of_skip hd hskip, Nat.add_sub_cancel]
  · obtain ⟨⟨⟨k, s₁⟩, x₁⟩, hstep⟩ : ∃ r, ({ s with skipped := 0 }.step cfg).run board x = r :=
      ⟨_, rfl⟩
    have hsteps := steps_of_ends (ends_of_run hstep)
    obtain ⟨-, hstate, hend⟩ := hsteps.fields
    have hdue : Located cfg { s with skipped := 0 } := h.located
    have hskipped : s₁.skipped = 0 := by
      rw [hsteps.frame]
      rfl
    have hwithin : EmptiesWithin cfg board d { s with skipped := 0 } x := h.within.congr rfl
    refine ⟨.ticked k, s₁, x₁, d - 1, ?_, Nat.sub_le _ _, ⟨hsteps.located hdue,
      ⟨hend.trans h.awaiting.endOfImage_eq, hstate.trans h.awaiting.state_eq⟩,
      hwithin.step hdue hstep⟩, ?_⟩
    · rw [perform_tick_of_due hskip]
      exact run_bind_eq_iff.2 ⟨_, _, hstep, rfl⟩
    by_cases hd : d = 0
    · rw [hd]
      exact Nat.zero_le _
    · have hless : ticksFor cfg (d - 1) s₁ + 1 ≤ ticksFor cfg d s := ticksFor_of_step hd hskipped
      omega

def AsksAfter (ticks : Nat) (ops : List Operation) : Prop :=
  ∃ before after, ops = before ++ .getStatus :: after ∧ ticks ≤ before.count .tick

/-- After enough ticks the host is told that the image is written. -/
theorem Nearing.reachesIdle (h : Nearing cfg board d s x) (hops : ∀ op ∈ ops, op.Waits)
    (hasks : AsksAfter (ticksFor cfg d s) ops) (hlimit : d ≤ limit) :
    ReachesIdle cfg board limit ops s x := by
  obtain ⟨before, after, rfl, hticks⟩ := hasks
  -- the ticks before the status request are at least those that are still needed
  induction before generalizing d s x with
  | nil =>
      have hd : d = 0 := ticksFor_eq_zero.1 (Nat.le_zero.1 hticks)
      obtain ⟨a, s₁, x₁, hop, hs₁ | ⟨hne, -⟩⟩ := h.getStatus hlimit
      · exact (hs₁.reachesIdle (List.forall_mem_cons.1 hops).2 board limit x₁).cons hop
      · exact absurd hd hne
  | cons op before ih =>
      rw [List.cons_append, List.forall_mem_cons] at hops
      obtain ⟨rfl | rfl, hops⟩ := hops
      · rw [List.count_cons_of_ne (by decide)] at hticks
        obtain ⟨a, s₁, x₁, hop, hs₁ | ⟨-, hs₁, hskipped⟩⟩ := h.getStatus hlimit
        · exact (hs₁.reachesIdle hops board limit x₁).cons hop
        · have hsame : ticksFor cfg d s₁ = ticksFor cfg d s := by rw [ticksFor, ticksFor, hskipped]
          exact (ih hs₁ hlimit (hsame.trans_le hticks) hops).cons hop
      · rw [List.count_cons_self] at hticks
        obtain ⟨a, s₁, x₁, e, hop, hle, hs₁, hless⟩ := h.tick limit
        exact (ih hs₁ (hle.trans hlimit) (by omega) hops).cons hop

/-! While the image is sent, everything is answered. -/

/-- The limit is one of draining. -/
theorem perform_eq_of_not_drains (h : ¬op.Drains cfg s) (limit limit' : Nat) :
    s.perform cfg limit op = s.perform cfg limit' op := by
  cases op with
  | getStatus =>
      have hstatus : s.getStatus cfg limit = s.getStatus cfg limit' := by
        rw [getStatus, getStatus]
        by_cases hstate : s.state = .manifestSync
        · cases hpolicy : cfg.manifest with
          | drain => exact absurd ⟨rfl, hstate, hpolicy⟩ h
          | report => rw [hstate, manifest, manifest, hpolicy]
        · cases hs : s.state <;> first | rfl | exact absurd hs hstate
      rw [perform_getStatus, perform_getStatus, hstatus]
  | configured | selectAlt _ | request _ | fail _ | detach | download _ | upload _ _ | clearStatus
  | getState | abort | busReset | poll | tick => rfl

theorem run_sends (hops : ∀ op ∈ ops, op.Sends) (hs : Sending s) (hlocated : Located cfg s)
    (board : Board σ) (x : σ) :
    ∃ answers s' x', Located cfg s' ∧
      ∀ limit, (performAll cfg limit ops s).run board x = (some (answers, s'), x') := by
  induction ops generalizing s x with
  | nil => exact ⟨[], s, x, hlocated, fun _ => rfl⟩
  | cons op ops ih =>
      rw [List.forall_mem_cons] at hops
      obtain ⟨⟨r, x₁⟩, hrun⟩ : ∃ r, (s.perform cfg 0 op).run board x = r := ⟨_, rfl⟩
      have hperforms := performs_of_ends (ends_of_run hrun)
      obtain ⟨a, s₁, rfl, hs₁, -⟩ := hperforms.sends hops.1 hs []
      obtain ⟨answers, s', x', hlocated', hrest⟩ :=
        ih hops.2 hs₁ (hperforms.located hlocated) x₁
      refine ⟨a :: answers, s', x', hlocated', fun limit => ?_⟩
      rw [perform_eq_of_not_drains (hs.not_drains op) 0 limit] at hrun
      exact run_performAll_cons.2 ⟨a, s₁, x₁, answers, hrun, hrest limit, rfl⟩

variable {image : Bytes} {alt : UInt8} {zone : Zone}

/-- On a board that does not find a chip at work for ever, a download comes to its end, if the
host waits for enough ticks. -/
theorem Transfer.reachesIdle (transfer : Transfer cfg image) (hboard : board.Settles)
    (hs : Located cfg s) (hzone : cfg.zones.get? alt = some zone) (x : σ) :
    ∃ n m, ∀ other : Transfer cfg image, other.sending = transfer.sending →
      AsksAfter n other.waiting → ∀ limit, m ≤ limit →
        ReachesIdle cfg board limit (other.operations alt) s x := by
  have hselect (limit : Nat) : s.perform cfg limit (.selectAlt alt) =
      .done (some (.selected true, s.loaded cfg alt zone)) := by
    rw [perform, selectAlt, hzone]
    rfl
  have hselected : Performs cfg 0 s (.selectAlt alt) []
      (some (.selected true, s.loaded cfg alt zone)) := .selected hzone
  have hlocated : Located cfg (s.loaded cfg alt zone) := hselected.located hs
  have hsending : Sending (s.loaded cfg alt zone) := ⟨rfl, fun hstate => by cases hstate⟩
  obtain ⟨sent, s₂, x₂, hlocated₂, hsent⟩ := run_sends transfer.sends hsending hlocated board x
  let ended : Session := { s₂ with endOfImage := true, state := .manifestSync }
  have hended : Located cfg ended := hlocated₂
  obtain ⟨d, hd⟩ := exists_emptiesWithin hboard hended rfl x₂
  refine ⟨ticksFor cfg d ended, d, fun other hsame hasks limit hlimit => ?_⟩
  obtain ⟨answers, s', x', hwait, hidle⟩ :=
    Nearing.reachesIdle ⟨hended, ⟨rfl, rfl⟩, hd⟩ other.waits hasks hlimit
  rw [Transfer.operations, hsame]
  refine ReachesIdle.cons ?_ (by rw [hselect]; rfl)
  refine ⟨sent ++ .downloaded (.ok ()) :: answers, s', x', ?_, hidle⟩
  refine run_performAll_append.2 ⟨_, _, x₂, _, hsent limit, ?_, rfl⟩
  exact run_performAll_cons.2 ⟨_, ended, x₂, _, rfl, hwait, rfl⟩

end Board

end Session

end DfuLoader
