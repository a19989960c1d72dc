import DfuLoader.Proofs.Draining

/-!
# Draining and reporting agree

A status request that ends an image either drains the buffer before it is answered, or says
that manifestation goes on and leaves the work to the ticks. The two come to the same. While
the host polls, what is left of the draining is told by the session alone (`Outstanding`): a
poll pads the block under way, which the first step of the draining would do, a tick takes one
step of it off, and a tick to be skipped or with nothing left takes off none. The poll that is
answered with idle finds nothing outstanding.
-/

namespace DfuLoader

def Config.withManifest (cfg : Config) (policy : Manifestation) : Config :=
  { cfg with manifest := policy }

namespace Dialogue

variable {α β σ : Type} {board : Board σ} {x : σ}

theorem run_bind_eq_iff {d : Dialogue α} {f : α → Dialogue β} {r : β × σ} :
    (d >>= f).run board x = r ↔
      ∃ a x₁, d.run board x = (a, x₁) ∧ (f a).run board x₁ = r := by
  rw [run_bind]
  constructor
  · intro h
    exact ⟨_, _, rfl, h⟩
  · rintro ⟨a, x₁, hd, h⟩
    rw [hd]
    exact h

end Dialogue

namespace Session

open Dialogue

/-- The session as it is drained, which began with some ticks skipped. -/
def draining (s : Session) (skipped : UInt8) : Session :=
  { s with state := .idle, skipped := skipped }

variable {cfg : Config} {limit : Nat} {s s₁ : Session} {n : UInt8}

/-! A step does not see the policy, the state, or the ticks skipped. -/

theorem step_withManifest (cfg : Config) (policy : Manifestation) (s : Session) :
    s.step (cfg.withManifest policy) = s.step cfg := rfl

theorem drain_withManifest (cfg : Config) (policy : Manifestation) (limit : Nat) (s : Session) :
    s.drain (cfg.withManifest policy) limit = s.drain cfg limit := by
  induction limit generalizing s with
  | zero => rfl
  | succ limit ih =>
      rw [drain, drain, step_withManifest]
      simp only [ih]

theorem commitImageTail_draining (s : Session) (n : UInt8) :
    (s.draining n).commitImageTail = s.commitImageTail.draining n := by
  rw [commitImageTail_congr (r := s.draining n) (s := s) rfl rfl, s.commitImageTail_frame]
  rfl

theorem step_draining (cfg : Config) (s : Session) (n : UInt8) :
    (s.draining n).step cfg = s.step cfg >>= fun r => .done (r.1, r.2.draining n) := by
  rw [step, step, commitImageTail_draining, bind_bind]
  rfl

theorem step_of_isEmpty (hs : Located cfg s) (hempty : s.buffer.isEmpty = true) :
    s.step cfg = .done (.idle, s) := by
  obtain ⟨_, _, _, _, -, -, htracks⟩ := hs
  have hcommitted := (BlockRing.isEmpty_iff.1 hempty).1
  have hstage : s.engine.stage = .idle := by
    by_contra hne
    exact absurd hcommitted (htracks.attended hne).ne'
  rw [step, commitImageTail_of_isEmpty hempty, Pipeline.tick, if_neg (not_not_intro hstage),
    if_pos (BlockRing.head?_eq_none_iff.2 hcommitted)]
  rfl

theorem Steps.eq_of_isEmpty {s' : Session} {t : List Exchange} {k : Tick} (h : Steps cfg s t k s')
    (hs : Located cfg s) (hempty : s.buffer.isEmpty = true) : t = [] ∧ k = .idle ∧ s' = s := by
  cases h with
  | step ticks =>
      rw [commitImageTail_of_isEmpty hempty] at ticks ⊢
      obtain ⟨_, _, _, _, -, -, htracks⟩ := hs
      rcases ticks.attended_or with hattended | ⟨rfl, rfl, rfl⟩
      · exact absurd (BlockRing.isEmpty_iff.1 hempty).1 (htracks.committed_pos hattended).ne'
      · exact ⟨rfl, rfl, rfl⟩

section Board

variable {σ : Type} {board : Board σ} {x x₁ x' : σ} {d : Session} {t : List Exchange}

/-- What is left of draining a session that the host waits for: the exchanges `t`, which end
in the session `d` and leave the board in the state `x'`. -/
structure Outstanding (cfg : Config) (board : Board σ) (n : UInt8) (d : Session) (x' : σ)
    (s : Session) (x : σ) (t : List Exchange) : Prop where
  located : Located cfg s
  state_eq : s.state = .manifestSync
  endOfImage_eq : s.endOfImage = true
  drains : ∃ limit, ((s.draining n).drain cfg limit).run board x = (some d, x') ∧
    ((s.draining n).drain cfg limit).trace board x = t

theorem Outstanding.commitImageTail (h : Outstanding cfg board n d x' s x t) :
    Outstanding cfg board n d x' s.commitImageTail x t := by
  obtain ⟨-, hstate, hend⟩ := s.commitImageTail_fields
  have hring : (s.draining n).buffer.WellFormed := h.located.wellFormed
  refine ⟨h.located.commitImageTail, hstate.trans h.state_eq, hend.trans h.endOfImage_eq, ?_⟩
  obtain ⟨limit, hrun, htrace⟩ := h.drains
  refine ⟨limit, ?_⟩
  rw [← commitImageTail_draining, drain_commitImageTail hring]
  exact ⟨hrun, htrace⟩

/-- A step is the first of those that are left, if any are. -/
theorem Outstanding.step {k : Tick} (h : Outstanding cfg board n d x' s x t)
    (hstep : (s.step cfg).run board x = ((k, s₁), x₁)) :
    ∃ t₁, t = (s.step cfg).trace board x ++ t₁ ∧ Outstanding cfg board n d x' s₁ x₁ t₁ := by
  cases hempty : s.buffer.isEmpty with
  | true =>
      rw [step_of_isEmpty h.located hempty] at hstep ⊢
      cases hstep
      exact ⟨t, rfl, h⟩
  | false =>
      have hqueued : (s.draining n).buffer.isEmpty = false := hempty
      have hsteps := steps_of_ends (ends_of_run hstep)
      obtain ⟨-, hstate, hend⟩ := hsteps.fields
      have hdrain : ((s.draining n).step cfg).run board x = ((k, s₁.draining n), x₁) := by
        rw [step_draining, run_bind, hstep]
        rfl
      have htrace : ((s.draining n).step cfg).trace board x = (s.step cfg).trace board x := by
        rw [step_draining, trace_bind, trace_done, List.append_nil]
      obtain ⟨limit, hrun, rfl⟩ := h.drains
      cases limit with
      | zero =>
          rw [drain, if_neg (by simp [hqueued])] at hrun
          cases hrun
      | succ limit =>
          obtain ⟨hrun₁, htrace₁⟩ := drain_succ hqueued hdrain limit
          rw [htrace₁, htrace]
          exact ⟨_, rfl, hsteps.located h.located, hstate.trans h.state_eq,
            hend.trans h.endOfImage_eq, limit, hrun₁ ▸ hrun, rfl⟩

theorem Outstanding.eq_of_isEmpty (h : Outstanding cfg board n d x' s x t)
    (hempty : s.buffer.isEmpty = true) : t = [] ∧ d = s.draining n ∧ x' = x := by
  obtain ⟨limit, hrun, htrace⟩ := h.drains
  rw [drain_of_isEmpty (s := s.draining n) hempty limit] at hrun htrace
  cases hrun
  exact ⟨htrace.symm, rfl, rfl⟩

/-! A run with a result is made of operations with results. -/

variable {op : Operation} {ops ops' : List Operation} {a : Answer} {answers : List Answer}
  {s' : Session}

theorem run_performAll_cons :
    (performAll cfg limit (op :: ops) s).run board x = (some (answers, s'), x') ↔
      ∃ a s₁ x₁ rest, (s.perform cfg limit op).run board x = (some (a, s₁), x₁) ∧
        (performAll cfg limit ops s₁).run board x₁ = (some (rest, s'), x') ∧
          answers = a :: rest := by
  rw [performAll, run_bind_eq_iff]
  constructor
  · rintro ⟨_ | ⟨a, s₁⟩, x₁, hop, h⟩
    · cases h
    obtain ⟨_ | ⟨rest, s₂⟩, x₂, hrest, h⟩ := run_bind_eq_iff.1 h
    · cases h
    cases h
    exact ⟨a, s₁, x₁, rest, hop, hrest, rfl⟩
  · rintro ⟨a, s₁, x₁, rest, hop, hrest, rfl⟩
    exact ⟨_, _, hop, run_bind_eq_iff.2 ⟨_, _, hrest, rfl⟩⟩

theorem trace_performAll_cons (h : (s.perform cfg limit op).run board x = (some (a, s₁), x₁))
    (ops : List Operation) :
    (performAll cfg limit (op :: ops) s).trace board x =
      (s.perform cfg limit op).trace board x ++ (performAll cfg limit ops s₁).trace board x₁ := by
  rw [performAll, trace_bind, h]
  congr 1
  change (performAll cfg limit ops s₁ >>= _).trace board x₁ = _
  rw [trace_bind]
  split <;> rw [pure_eq_done, trace_done, List.append_nil]

theorem run_performAll_append :
    (performAll cfg limit (ops ++ ops') s).run board x = (some (answers, s'), x') ↔
      ∃ first s₁ x₁ rest, (performAll cfg limit ops s).run board x = (some (first, s₁), x₁) ∧
        (performAll cfg limit ops' s₁).run board x₁ = (some (rest, s'), x') ∧
          answers = first ++ rest := by
  induction ops generalizing s x answers with
  | nil =>
      constructor
      · intro h
        exact ⟨[], s, x, answers, rfl, h, rfl⟩
      · rintro ⟨first, s₁, x₁, rest, hfirst, hrest, rfl⟩
        cases hfirst
        exact hrest
  | cons op ops ih =>
      rw [List.cons_append, run_performAll_cons]
      constructor
      · rintro ⟨a, s₁, x₁, _, hop, h, rfl⟩
        obtain ⟨first, s₂, x₂, rest, hfirst, hrest, rfl⟩ := ih.1 h
        exact ⟨a :: first, s₂, x₂, rest,
          run_performAll_cons.2 ⟨a, s₁, x₁, first, hop, hfirst, rfl⟩, hrest, rfl⟩
      · rintro ⟨_, s₂, x₂, rest, h, hrest, rfl⟩
        obtain ⟨a, s₁, x₁, first, hop, hfirst, rfl⟩ := run_performAll_cons.1 h
        exact ⟨a, s₁, x₁, first ++ rest, hop, ih.2 ⟨first, s₂, x₂, rest, hfirst, hrest, rfl⟩, rfl⟩

theorem trace_performAll_append
    (h : (performAll cfg limit ops s).run board x = (some (answers, s₁), x₁)) :
    (performAll cfg limit (ops ++ ops') s).trace board x =
      (performAll cfg limit ops s).trace board x ++
        (performAll cfg limit ops' s₁).trace board x₁ := by
  induction ops generalizing s x answers with
  | nil =>
      cases h
      rfl
  | cons op ops ih =>
      obtain ⟨a, s₂, x₂, rest, hop, hrest, rfl⟩ := run_performAll_cons.1 h
      rw [List.cons_append, trace_performAll_cons hop, trace_performAll_cons hop, ih hrest,
        List.append_assoc]

/-! Polls and ticks under the policy that reports. -/

def replies (answers : List Answer) : List StatusReport :=
  answers.filterMap fun
    | .reported report => some report
    | _ => none

theorem replies_append (answers answers' : List Answer) :
    replies (answers ++ answers') = replies answers ++ replies answers' :=
  List.filterMap_append

theorem mem_replies_cons {r : StatusReport} :
    r ∈ replies (a :: answers) ↔ a = .reported r ∨ r ∈ replies answers := by
  cases a <;> simp [replies, eq_comm]

theorem perform_getStatus (cfg : Config) (limit : Nat) (s : Session) :
    s.perform cfg limit .getStatus = s.getStatus cfg limit >>= fun r =>
      .done (r.map fun r => (.reported r.1, r.2)) :=
  bind_congr fun r => by cases r <;> rfl

theorem perform_tick_of_skip (h : s.skipped < cfg.skipTicks) (limit : Nat) :
    s.perform cfg limit .tick =
      .done (some (.ticked .throttled, { s with skipped := s.skipped + 1 })) := by
  rw [Session.perform, Session.tick, if_pos h]
  rfl

theorem perform_tick_of_due (h : ¬s.skipped < cfg.skipTicks) (limit : Nat) :
    s.perform cfg limit .tick = { s with skipped := 0 }.step cfg >>= fun r =>
      .done (some (.ticked r.1, r.2)) := by
  rw [Session.perform, Session.tick, if_neg h]
  rfl

/-- A poll holds no exchanges. It pads the block under way, and is answered with idle when
the buffer is empty. -/
theorem run_getStatus_of_report {report : StatusReport} (hstate : s.state = .manifestSync)
    (hrun : (s.getStatus (cfg.withManifest .report) limit).run board x =
      (some (report, s₁), x₁)) :
    x₁ = x ∧ (s.getStatus (cfg.withManifest .report) limit).trace board x = [] ∧
      ((s.buffer.isEmpty = true ∧ report = ⟨s.status, cfg.pollTimeout, .idle⟩ ∧
          s₁ = (s.draining s.skipped).rewind cfg) ∨
        report.state = .manifest ∧ s₁ = s.commitImageTail) := by
  have hreports := reports_of_ends (ends_of_run hrun)
  have hplays := board.plays_run (s.getStatus (cfg.withManifest .report) limit) x
  rw [hrun] at hplays
  generalize (s.getStatus (cfg.withManifest .report) limit).trace board x = t at *
  cases hreports with
  | ready state _ | crowded state _ => exact absurd (hstate.symm.trans state) (by decide)
  | drained _ policy _ => cases policy
  | other _ manifest => exact absurd hstate manifest
  | finished _ _ empty =>
      cases hplays
      rw [isEmpty_commitImageTail] at empty
      refine ⟨rfl, rfl, .inl ⟨empty, ?_, ?_⟩⟩ <;> rw [commitImageTail_of_isEmpty empty] <;> rfl
  | manifesting _ _ queued =>
      cases hplays
      exact ⟨rfl, rfl, .inr ⟨rfl, rfl⟩⟩

/-- As long as no poll is answered with idle, every one is answered with manifest, and what
was exchanged comes off what is left. -/
theorem Outstanding.perform (h : Outstanding cfg board n d x' s x t)
    (hop : op = .getStatus ∨ op = .tick)
    (hrun : (s.perform (cfg.withManifest .report) limit op).run board x = (some (a, s₁), x₁))
    (hbusy : ∀ r, a = .reported r → r.state ≠ .idle) :
    (∀ r, a = .reported r → r.state = .manifest) ∧
      ∃ t₁, t = (s.perform (cfg.withManifest .report) limit op).trace board x ++ t₁ ∧
        Outstanding cfg board n d x' s₁ x₁ t₁ := by
  rcases hop with rfl | rfl
  · rw [perform_getStatus] at hrun
    rw [perform_getStatus, trace_bind, trace_done, List.append_nil]
    obtain ⟨_ | ⟨report, s₂⟩, x₂, hstatus, hrun⟩ := run_bind_eq_iff.1 hrun
    · cases hrun
    cases hrun
    obtain ⟨rfl, htrace, ⟨-, rfl, -⟩ | ⟨hmanifest, rfl⟩⟩ :=
      run_getStatus_of_report h.state_eq hstatus
    · exact absurd rfl (hbusy _ rfl)
    · rw [htrace]
      refine ⟨?_, t, rfl, h.commitImageTail⟩
      rintro r ⟨⟩
      exact hmanifest
  by_cases hskip : s.skipped < (cfg.withManifest .report).skipTicks
  · rw [perform_tick_of_skip hskip] at hrun ⊢
    cases hrun
    exact ⟨nofun, t, rfl, h.located, h.state_eq, h.endOfImage_eq, h.drains⟩
  · rw [perform_tick_of_due hskip, step_withManifest] at hrun ⊢
    rw [trace_bind, trace_done, List.append_nil]
    obtain ⟨⟨k, s₂⟩, x₂, hstep, hrun⟩ := run_bind_eq_iff.1 hrun
    cases hrun
    have hdue : Outstanding cfg board n d x' { s with skipped := 0 } x t :=
      ⟨h.located, h.state_eq, h.endOfImage_eq, h.drains⟩
    exact ⟨nofun, hdue.step hstep⟩

theorem Outstanding.performAll (h : Outstanding cfg board n d x' s x t)
    (hops : ∀ op ∈ ops, op = .getStatus ∨ op = .tick)
    (hrun : (performAll (cfg.withManifest .report) limit ops s).run board x =
      (some (answers, s₁), x₁))
    (hbusy : ∀ r ∈ replies answers, r.state ≠ .idle) :
    (∀ r ∈ replies answers, r.state = .manifest) ∧
      ∃ t₁, t = (performAll (cfg.withManifest .report) limit ops s).trace board x ++ t₁ ∧
        Outstanding cfg board n d x' s₁ x₁ t₁ := by
  induction ops generalizing s x t answers with
  | nil =>
      cases hrun
      exact ⟨fun r hr => absurd hr List.not_mem_nil, t, rfl, h⟩
  | cons op ops ih =>
      obtain ⟨a, s₂, x₂, rest, hop, hrest, rfl⟩ := run_performAll_cons.1 hrun
      rw [List.forall_mem_cons] at hops
      obtain ⟨hmanifest, t₂, rfl, h₂⟩ := h.perform hops.1 hop
        fun r hr => hbusy r (mem_replies_cons.2 (.inl hr))
      obtain ⟨hmanifests, t₁, rfl, h₁⟩ := ih h₂ hops.2 hrest
        fun r hr => hbusy r (mem_replies_cons.2 (.inr hr))
      refine ⟨?_, t₁, ?_, h₁⟩
      · intro r hr
        exact (mem_replies_cons.1 hr).elim (hmanifest r) (hmanifests r)
      · rw [trace_performAll_cons hop, List.append_assoc]

/-- A status request that drains the buffer leaves all of it outstanding. -/
theorem outstanding_of_drain {report : StatusReport} (hs : Reachable cfg s)
    (hstate : s.state = .manifestSync)
    (hrun : (s.getStatus (cfg.withManifest .drain) limit).run board x =
      (some (report, s'), x')) :
    ∃ d, s' = d.rewind cfg ∧ report = (d.rewind cfg).report cfg .idle ∧
      Outstanding cfg board s.skipped d x' s x
        ((s.getStatus (cfg.withManifest .drain) limit).trace board x) := by
  rw [getStatus_of_drain hstate rfl, drain_withManifest] at hrun ⊢
  rw [trace_bind, trace_done, List.append_nil]
  obtain ⟨_ | d, x₁, hdrain, hrun⟩ := run_bind_eq_iff.1 hrun
  · cases hrun
  cases hrun
  exact ⟨d, rfl, rfl, hs.located, hstate, hs.complete hstate, limit, hdrain, rfl⟩

/-- Draining and reporting come to the same. Where a status request drains the buffer and is
answered, take any polls and ticks under the policy that reports, up to the first poll that is
answered with idle. They hold the same exchanges, leave the board in the same state, and end
with the same reply in the same session, the ticks skipped apart. Every poll before is answered
with manifest, and the host still waits after it. -/
theorem drain_eq_report (hs : Reachable cfg s) (hstate : s.state = .manifestSync)
    {limit' : Nat} {report last : StatusReport} {earlier : List StatusReport}
    (hdrain : (s.getStatus (cfg.withManifest .drain) limit).run board x =
      (some (report, s'), x'))
    (hops : ∀ op ∈ ops, op = .getStatus ∨ op = .tick)
    (hreport : (performAll (cfg.withManifest .report) limit' (ops ++ [.getStatus]) s).run board x =
      (some (answers, s₁), x₁))
    (hreplies : replies answers = earlier ++ [last])
    (hfirst : ∀ r ∈ earlier, r.state ≠ .idle) (hlast : last.state = .idle) :
    (performAll (cfg.withManifest .report) limit' (ops ++ [.getStatus]) s).trace board x =
        (s.getStatus (cfg.withManifest .drain) limit).trace board x ∧
      x₁ = x' ∧ last = report ∧ s₁ = { s' with skipped := s₁.skipped } ∧
      ∀ before after, ops = before ++ after →
        ∃ answers' s₂ x₂,
          (performAll (cfg.withManifest .report) limit' before s).run board x =
            (some (answers', s₂), x₂) ∧
          (∀ r ∈ replies answers', r.state = .manifest) ∧ s₂.state = .manifestSync := by
  obtain ⟨d, rfl, rfl, houtstanding⟩ := outstanding_of_drain hs hstate hdrain
  obtain ⟨first, s₂, x₂, rest, hpolls, hpoll, rfl⟩ := run_performAll_append.1 hreport
  obtain ⟨a, s₃, x₃, _, hop, hnil, rfl⟩ := run_performAll_cons.1 hpoll
  cases hnil
  have hlastTrace := trace_performAll_cons hop []
  rw [perform_getStatus, trace_bind, trace_done, List.append_nil] at hlastTrace
  rw [perform_getStatus] at hop
  obtain ⟨_ | ⟨r, s₄⟩, x₄, hstatus, hop⟩ := run_bind_eq_iff.1 hop
  · cases hop
  cases hop
  obtain ⟨rfl, hr⟩ := List.append_inj' ((replies_append first _).symm.trans hreplies) rfl
  obtain rfl : r = last := (List.cons.inj hr).1
  obtain ⟨-, t, htrace, h₂⟩ := houtstanding.performAll hops hpolls hfirst
  -- the poll that is answered with idle finds nothing outstanding
  obtain ⟨rfl, hquiet, ⟨hempty, rfl, rfl⟩ | ⟨hbusy, -⟩⟩ :=
    run_getStatus_of_report h₂.state_eq hstatus
  swap
  · exact absurd (hbusy.symm.trans hlast) (by decide)
  obtain ⟨rfl, rfl, rfl⟩ := h₂.eq_of_isEmpty hempty
  refine ⟨?_, rfl, rfl, rfl, ?_⟩
  · rw [trace_performAll_append hpolls, hlastTrace, hquiet, htrace]
    rfl
  · rintro before after rfl
    obtain ⟨answers', s₅, x₅, rest, hbefore, -, rfl⟩ := run_performAll_append.1 hpolls
    rw [replies_append] at hfirst
    obtain ⟨hmanifest, _, -, h₅⟩ := houtstanding.performAll
      (fun op hop => hops op (List.mem_append_left _ hop)) hbefore
      (fun r hr => hfirst r (List.mem_append_left _ hr))
    exact ⟨answers', s₅, x₅, hbefore, hmanifest, h₅.state_eq⟩

end Board

/-- Half of the smallest zone of the reference board, with every other tick skipped and polls
in between, on chips that take their time. -/
theorem drain_eq_report_half :
    ∃ (s s' s₁ : Session) (answers : List Answer) (earlier : List StatusReport)
        (report last : StatusReport) (x' x₁ : TimedFlash),
      let cfg : Config := { skipTicks := 1 }
      let board := (TimedFlash.chips 1).withReadback
      let x : TimedFlash := ⟨⟨.internal, fun _ _ => 0xff⟩, 0, false⟩
      let ops := .getStatus :: List.replicate 4 .tick ++ .getStatus :: List.replicate 5 .tick
      Reachable cfg s ∧ s.buffer.fill = 128 ∧
        (s.getStatus (cfg.withManifest .drain) 4).run board x = (some (report, s'), x') ∧
        (performAll (cfg.withManifest .report) 0 (ops ++ [.getStatus]) s).run board x =
          (some (answers, s₁), x₁) ∧
        replies answers = earlier ++ [last] ∧ earlier ≠ [] ∧ last.state = .idle ∧
        last = report ∧ x₁ = x' := by
  let cfg : Config := { skipTicks := 1 }
  let board := (TimedFlash.chips 1).withReadback
  let x : TimedFlash := ⟨⟨.internal, fun _ _ => 0xff⟩, 0, false⟩
  let ops : List Operation :=
    .getStatus :: List.replicate 4 .tick ++ .getStatus :: List.replicate 5 .tick
  have hreachable : Reachable cfg (halfImage cfg) := reachable_halfImage rfl
  have hfill : (halfImage cfg).buffer.fill = 128 := by decide +kernel
  obtain ⟨⟨drained, x'⟩, hdrain⟩ :
      ∃ r, ((halfImage cfg).getStatus (cfg.withManifest .drain) 4).run board x = r := ⟨_, rfl⟩
  obtain ⟨⟨polled, x₁⟩, hpolls⟩ :
      ∃ r, (performAll (cfg.withManifest .report) 0 (ops ++ [.getStatus]) (halfImage cfg)).run
        board x = r := ⟨_, rfl⟩
  have hreport : drained.map Prod.fst = some ⟨.ok, 5, .idle⟩ :=
    (congrArg (fun r => r.1.map Prod.fst) hdrain).symm.trans (by decide +kernel)
  have hreplies : polled.map (fun r => replies r.1) =
      some [⟨.ok, 5, .manifest⟩, ⟨.ok, 5, .manifest⟩, ⟨.ok, 5, .idle⟩] :=
    (congrArg (fun r => r.1.map fun r => replies r.1) hpolls).symm.trans (by decide +kernel)
  obtain ⟨⟨report, s'⟩, rfl, rfl⟩ := Option.map_eq_some_iff.1 hreport
  obtain ⟨⟨answers, s₁⟩, rfl, hanswers⟩ := Option.map_eq_some_iff.1 hreplies
  have hearlier : replies answers =
      [⟨.ok, 5, .manifest⟩, ⟨.ok, 5, .manifest⟩] ++ [⟨.ok, 5, .idle⟩] := hanswers
  obtain ⟨-, hx, hlast, -, -⟩ :=
    drain_eq_report hreachable rfl hdrain (by decide) hpolls hearlier (by decide) rfl
  exact ⟨_, s', s₁, answers, _, _, _, _, _, hreachable, hfill, hdrain, hpolls, hearlier,
    List.cons_ne_nil _ _, rfl, hlast, hx⟩

end Session

end DfuLoader
