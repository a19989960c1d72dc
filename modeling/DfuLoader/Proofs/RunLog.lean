import DfuLoader.Proofs.Draining

/-!
# The log of a run

What a run answers does not tell everything that happened in it: a status request that drains
the buffer steps the engine many times and says nothing of it, and a bus reset may or may not
have ended a session. A logged run says it, event by event, and is the same run otherwise
(`snd_performAllLogged`).
-/

namespace DfuLoader

namespace Dialogue

variable {α β σ : Type} {d : Dialogue α} {f : α → β} {t : List Exchange}

theorem ends_map {b : β} : Ends (f <$> d) t b ↔ ∃ a, Ends d t a ∧ f a = b := by
  rw [← bind_pure_comp, ends_bind]
  constructor
  · rintro ⟨t₁, t₂, a, rfl, hd, hf⟩
    obtain ⟨rfl, rfl⟩ := ends_done.1 hf
    exact ⟨a, by rwa [List.append_nil], rfl⟩
  · rintro ⟨a, hd, rfl⟩
    exact ⟨t, [], a, (List.append_nil t).symm, hd, .done _⟩

theorem run_map (board : Board σ) (x : σ) :
    (f <$> d).run board x = (f (d.run board x).1, (d.run board x).2) := by
  rw [← bind_pure_comp, run_bind]
  rfl

end Dialogue

namespace Session

open Dialogue

inductive Event where
  /-- The engine took a step. -/
  | stepped (tick : Tick)
  /-- The host asked for a detach. -/
  | detached
  | polled
  /-- A reset of the bus ended a session. -/
  | ended
  deriving DecidableEq, Repr

/-- Steps the engine as draining does, and keeps what each step did. -/
def drainLogged (cfg : Config) : Nat → Session → Dialogue (List Tick × Option Session)
  | 0, s => return ([], if s.buffer.isEmpty then some s else none)
  | limit + 1, s =>
      if s.buffer.isEmpty then return ([], some s)
      else do
        let (tick, s) ← s.step cfg
        let (ticks, r) ← drainLogged cfg limit s
        return (tick :: ticks, r)

def Operation.events (s : Session) : Operation → Answer → List Event
  | .tick, .ticked .throttled => []
  | .tick, .ticked k => [.stepped k]
  | .detach, _ => [.detached]
  | .poll, _ => [.polled]
  | .busReset, _ => if s.state = .appDetach then [] else [.ended]
  | _, _ => []

def Operation.Drains (cfg : Config) (s : Session) (op : Operation) : Prop :=
  op = .getStatus ∧ s.state = .manifestSync ∧ cfg.manifest = .drain

instance (cfg : Config) (s : Session) (op : Operation) : Decidable (op.Drains cfg s) :=
  inferInstanceAs (Decidable (_ ∧ _ ∧ _))

def drainedReply (cfg : Config) (s : Session) : Answer × Session :=
  (.reported ((s.rewind cfg).report cfg .idle), s.rewind cfg)

def performLogged (cfg : Config) (limit : Nat) (op : Operation) (s : Session) :
    Dialogue (List Event × Option (Answer × Session)) :=
  if op.Drains cfg s then
    (fun r => (r.1.map .stepped, r.2.map (drainedReply cfg))) <$>
      { s with state := .idle }.drainLogged cfg limit
  else
    (fun r => (r.elim [] fun x => op.events s x.1, r)) <$> s.perform cfg limit op

def performAllLogged (cfg : Config) (limit : Nat) :
    List Operation → Session → Dialogue (List Event × Option (List Answer × Session))
  | [], s => return ([], some ([], s))
  | op :: ops, s => do
      let (log, r) ← s.performLogged cfg limit op
      match r with
      | none => return (log, none)
      | some (answer, s) =>
          let (log', r) ← performAllLogged cfg limit ops s
          return (log ++ log', r.map fun x => (answer :: x.1, x.2))

variable {cfg : Config} {limit : Nat} {s s' : Session} {t : List Exchange} {op : Operation}
  {ops : List Operation} {log : List Event}

theorem Steps.ne_throttled {k : Tick} (h : Steps cfg s t k s') : k ≠ .throttled := by
  rintro rfl
  cases h with
  | step ticks =>
      cases ticks with
      | worked _ _ _ works => cases works.counted

theorem Steps.events {k : Tick} (h : Steps cfg s t k s') (s₀ : Session) :
    Operation.tick.events s₀ (.ticked k) = [.stepped k] := by
  have hk := h.ne_throttled
  cases k <;> first | rfl | exact absurd rfl hk

/-! A logged run is the run. -/

theorem snd_drainLogged (cfg : Config) (limit : Nat) (s : Session) :
    Prod.snd <$> s.drainLogged cfg limit = s.drain cfg limit := by
  induction limit generalizing s with
  | zero => rfl
  | succ limit ih =>
      rw [drainLogged, drain]
      split
      · rfl
      · rw [map_bind]
        refine bind_congr fun r => ?_
        obtain ⟨tick, s'⟩ := r
        change Prod.snd <$> (s'.drainLogged cfg limit >>= fun r => pure (tick :: r.1, r.2)) =
          s'.drain cfg limit
        rw [← ih, map_bind, ← bind_pure_comp]
        rfl

theorem perform_of_drains (h : op.Drains cfg s) (limit : Nat) :
    s.perform cfg limit op =
      Option.map (drainedReply cfg) <$> { s with state := .idle }.drain cfg limit := by
  obtain ⟨rfl, hstate, hpolicy⟩ := h
  change (s.getStatus cfg limit >>= fun r => _) = _
  rw [getStatus_of_drain hstate hpolicy, bind_bind, ← bind_pure_comp]
  refine bind_congr fun r => ?_
  cases r <;> rfl

theorem snd_performLogged (cfg : Config) (limit : Nat) (op : Operation) (s : Session) :
    Prod.snd <$> s.performLogged cfg limit op = s.perform cfg limit op := by
  rw [performLogged]
  split
  · rename_i hdrains
    rw [perform_of_drains hdrains, ← snd_drainLogged, Functor.map_map, Functor.map_map]
  · rw [Functor.map_map]
    exact id_map _

theorem snd_performAllLogged (cfg : Config) (limit : Nat) (ops : List Operation) (s : Session) :
    Prod.snd <$> performAllLogged cfg limit ops s = performAll cfg limit ops s := by
  induction ops generalizing s with
  | nil => rfl
  | cons op ops ih =>
      rw [performAllLogged, performAll, ← snd_performLogged, map_bind, bind_map_left]
      refine bind_congr fun r => ?_
      obtain ⟨log, _ | ⟨answer, s'⟩⟩ := r
      · rfl
      · simp only [← ih, map_bind, bind_map_left]
        refine bind_congr fun r => ?_
        obtain ⟨log', _ | ⟨answers, s''⟩⟩ := r <;> rfl

/-- Every run can be logged. -/
theorem exists_log {r : Option (List Answer × Session)}
    (h : Ends (performAll cfg limit ops s) t r) :
    ∃ log, Ends (performAllLogged cfg limit ops s) t (log, r) := by
  rw [← snd_performAllLogged, ends_map] at h
  obtain ⟨⟨log, r'⟩, hends, rfl⟩ := h
  exact ⟨log, hends⟩

theorem exists_log_run {σ : Type} {board : Board σ} {x x' : σ} {r : Option (List Answer × Session)}
    (h : (performAll cfg limit ops s).run board x = (r, x')) :
    ∃ log, (performAllLogged cfg limit ops s).run board x = ((log, r), x') := by
  rw [← snd_performAllLogged, run_map] at h
  obtain ⟨rfl, rfl⟩ := Prod.mk.inj h
  exact ⟨_, rfl⟩

/-- An operation is logged with the steps that drain the buffer, or with its own event. -/
theorem ends_performLogged {r : Option (Answer × Session)} :
    Ends (s.performLogged cfg limit op) t (log, r) ↔
      (op.Drains cfg s ∧ ∃ ticks d,
          Ends ({ s with state := .idle }.drainLogged cfg limit) t (ticks, d) ∧
          log = ticks.map .stepped ∧ r = d.map (drainedReply cfg)) ∨
        ¬op.Drains cfg s ∧ Ends (s.perform cfg limit op) t r ∧
          log = r.elim [] fun x => op.events s x.1 := by
  rw [performLogged]
  split
  · rename_i hdrains
    rw [ends_map]
    constructor
    · rintro ⟨⟨ticks, d⟩, hends, heq⟩
      cases heq
      exact .inl ⟨hdrains, ticks, d, hends, rfl, rfl⟩
    · rintro (⟨-, ticks, d, hends, rfl, rfl⟩ | ⟨hno, -⟩)
      · exact ⟨(ticks, d), hends, rfl⟩
      · exact absurd hdrains hno
  · rename_i hdrains
    rw [ends_map]
    constructor
    · rintro ⟨r, hends, heq⟩
      cases heq
      exact .inr ⟨hdrains, hends, rfl⟩
    · rintro (⟨hyes, -⟩ | ⟨-, hends, rfl⟩)
      · exact absurd hyes hdrains
      · exact ⟨r, hends, rfl⟩

theorem ends_performAllLogged_cons {r : Option (List Answer × Session)} :
    Ends (performAllLogged cfg limit (op :: ops) s) t (log, r) ↔
      (Ends (s.performLogged cfg limit op) t (log, none) ∧ r = none) ∨
        ∃ t₁ t₂ log₁ log₂ a s₁ r₂, t = t₁ ++ t₂ ∧ log = log₁ ++ log₂ ∧
          Ends (s.performLogged cfg limit op) t₁ (log₁, some (a, s₁)) ∧
          Ends (performAllLogged cfg limit ops s₁) t₂ (log₂, r₂) ∧
          r = r₂.map fun x => (a :: x.1, x.2) := by
  rw [performAllLogged, ends_bind]
  constructor
  · rintro ⟨t₁, t₂, ⟨log₁, _ | ⟨a, s₁⟩⟩, rfl, hop, h⟩
    · obtain ⟨rfl, heq⟩ := ends_done.1 h
      cases heq
      rw [List.append_nil]
      exact .inl ⟨hop, rfl⟩
    · obtain ⟨t₃, t₄, ⟨log₂, r₂⟩, rfl, hops, h⟩ := ends_bind.1 h
      obtain ⟨rfl, heq⟩ := ends_done.1 h
      cases heq
      exact .inr ⟨t₁, t₃, log₁, log₂, a, s₁, r₂, by rw [List.append_nil], rfl, hop, hops, rfl⟩
  · rintro (⟨hop, rfl⟩ | ⟨t₁, t₂, log₁, log₂, a, s₁, r₂, rfl, rfl, hop, hops, rfl⟩)
    · exact ⟨t, [], (log, none), (List.append_nil t).symm, hop, .done _⟩
    · exact ⟨t₁, t₂, _, rfl, hop, ends_bind.2 ⟨t₂, [], _, (List.append_nil t₂).symm, hops, .done _⟩⟩

theorem ends_performAllLogged_of_cons {answers : List Answer}
    (h : Ends (performAllLogged cfg limit (op :: ops) s) t (log, some (answers, s'))) :
    ∃ t₁ t₂ log₁ log₂ a answers₂ s₁, t = t₁ ++ t₂ ∧ log = log₁ ++ log₂ ∧
      answers = a :: answers₂ ∧ Ends (s.performLogged cfg limit op) t₁ (log₁, some (a, s₁)) ∧
      Ends (performAllLogged cfg limit ops s₁) t₂ (log₂, some (answers₂, s')) := by
  obtain ⟨-, hnone⟩ | ⟨t₁, t₂, log₁, log₂, a, s₁, r₂, rfl, rfl, hop, hops, heq⟩ :=
    ends_performAllLogged_cons.1 h
  · cases hnone
  obtain ⟨⟨answers₂, s₂⟩, rfl, heq⟩ := Option.map_eq_some_iff.1 heq.symm
  cases heq
  exact ⟨t₁, t₂, log₁, log₂, a, answers₂, s₁, rfl, rfl, rfl, hop, hops⟩

theorem ends_performAllLogged_append {ops' : List Operation} {answers : List Answer}
    (h : Ends (performAllLogged cfg limit (ops ++ ops') s) t (log, some (answers, s'))) :
    ∃ t₁ t₂ log₁ log₂ answers₁ answers₂ s₁, t = t₁ ++ t₂ ∧ log = log₁ ++ log₂ ∧
      answers = answers₁ ++ answers₂ ∧
      Ends (performAllLogged cfg limit ops s) t₁ (log₁, some (answers₁, s₁)) ∧
      Ends (performAllLogged cfg limit ops' s₁) t₂ (log₂, some (answers₂, s')) := by
  induction ops generalizing s t log answers with
  | nil => exact ⟨[], t, [], log, [], answers, s, rfl, rfl, rfl, .done _, h⟩
  | cons op ops ih =>
      obtain ⟨t₁, t₂, log₁, log₂, a, answers₂, s₁, rfl, rfl, rfl, hop, hops⟩ :=
        ends_performAllLogged_of_cons h
      obtain ⟨t₃, t₄, log₃, log₄, answers₃, answers₄, s₃, rfl, rfl, rfl, hfirst, hsecond⟩ := ih hops
      have hfirst' : Ends (performAllLogged cfg limit (op :: ops) s) (t₁ ++ t₃)
          (log₁ ++ log₃, some (a :: answers₃, s₃)) :=
        ends_performAllLogged_cons.2
          (.inr ⟨t₁, t₃, log₁, log₃, a, s₁, _, rfl, rfl, hop, hfirst, rfl⟩)
      exact ⟨t₁ ++ t₃, t₄, log₁ ++ log₃, log₄, a :: answers₃, answers₄, s₃,
        (List.append_assoc _ _ _).symm, (List.append_assoc _ _ _).symm, rfl, hfirst', hsecond⟩

theorem ends_perform_of_logged {r : Option (Answer × Session)}
    (h : Ends (s.performLogged cfg limit op) t (log, r)) : Ends (s.perform cfg limit op) t r := by
  rw [← snd_performLogged, ends_map]
  exact ⟨(log, r), h, rfl⟩

end Session

end DfuLoader
