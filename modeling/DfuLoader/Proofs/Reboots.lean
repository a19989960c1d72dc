import DfuLoader.Bench.Board
import DfuLoader.Proofs.RunLog

/-!
# Reboots are accounted for

Three things make a loader ask for a reboot: a window that it gives up, a reset of the bus
that ends a session, and a poll after the host has asked for a detach. The last is deferred
and can be cancelled, so which polls count is a matter of the log (`Requested`, `duePolls`).
Every operation books its reboots (`performLogged_books`), and over a run they are as many as
the log has reasons for (`reboots_accounted`).
-/

namespace DfuLoader

def Exchange.isReboot (e : Exchange) : Bool := e.command == .reboot

def reboots (t : List Exchange) : Nat := t.countP Exchange.isReboot

theorem reboots_append (t t' : List Exchange) : reboots (t ++ t') = reboots t + reboots t' :=
  List.countP_append

namespace Pipeline

variable {cfg : Config} {p q : Pipeline} {t : List Exchange} {k : Tick}

theorem Programs.reboots_eq {block : Bytes} (h : Programs p block t k q) : reboots t = 0 := by
  cases h <;> rfl

theorem Writes.reboots_eq (h : Writes cfg p t k q) : reboots t = 0 := by
  cases h with
  | page _ _ _ programs => exact programs.reboots_eq
  | written _ | passed _ _ | starved _ _ _ => rfl

theorem Erases.reboots_eq (h : Erases cfg p t k q) : reboots t = 0 := by
  cases h <;> rfl

theorem Works.reboots_eq (h : Works cfg p t k q) : reboots t = 0 := by
  cases h with
  | stale _ _ _ erases => exact erases.reboots_eq
  | fresh _ _ _ writes => exact writes.reboots_eq
  | resumed _ writes => exact writes.reboots_eq
  | starved _ _ | unread _ _ _ => rfl

/-- A tick asks for a reboot once if it gives its window up, and not otherwise. -/
theorem Ticks.reboots_eq (h : Ticks cfg p t k q) : reboots t = [k].count .abandoned := by
  cases h with
  | worked _ _ _ works =>
      rw [reboots_append, works.reboots_eq, List.count_singleton,
        if_neg (by simpa using works.ne_abandoned)]
      rfl
  | resting _ _ | abandoned _ _ | unanswered _ _ _ | busy _ _ _ => rfl

end Pipeline

namespace Session

open Dialogue

namespace Event

def isStep : Event → Bool
  | stepped _ => true
  | detached | polled | ended => false

end Event

/-- The host has asked for a detach, and there was neither a poll nor the end of a session
since. -/
def Requested (log : List Event) : Prop :=
  (log.filter fun e => !e.isStep).getLast? = some .detached

instance (log : List Event) : Decidable (Requested log) :=
  inferInstanceAs (Decidable (_ = _))

/-- The polls that come when a detach is requested. -/
def duePolls (log : List Event) : Nat :=
  (List.range log.length).countP fun i => log[i]? = some .polled ∧ Requested (log.take i)

def reasons (log : List Event) : Nat :=
  log.count (.stepped .abandoned) + log.count .ended + duePolls log

/-- One poll serves any number of requests, and the end of a session cancels them. -/
example : duePolls [.detached, .detached, .polled, .polled, .detached, .ended, .polled] = 1 := by
  decide

/-- The reboots of an operation that begins with a detach pending or not, its events, and
whether a detach is pending after it. -/
inductive Books (pending : Bool) : List Exchange → List Event → Bool → Prop
  | stepped {t : List Exchange} {ticks : List Tick} (eq : reboots t = ticks.count .abandoned) :
      Books pending t (ticks.map .stepped) pending
  | detached : Books pending [] [.detached] true
  | polled {t : List Exchange} (eq : reboots t = pending.toNat) :
      Books pending t [.polled] false
  | ended {t : List Exchange} (eq : reboots t = 1) : Books pending t [.ended] false

/-- So far every reboot has its reason, and a detach is pending if one is requested. -/
structure Accounted (t : List Exchange) (log : List Event) (pending : Bool) : Prop where
  reboots_eq : reboots t = reasons log
  pending_iff : pending = true ↔ Requested log

variable {cfg : Config} {limit : Nat} {s s' : Session} {t t' : List Exchange} {op : Operation}
  {ops : List Operation} {log log' : List Event} {e : Event} {k : Tick} {pending pending' : Bool}

/-! One event after the others. -/

theorem requested_append_stepped (log : List Event) (k : Tick) :
    Requested (log ++ [.stepped k]) ↔ Requested log := by
  rw [Requested, Requested, List.filter_append]
  exact Iff.of_eq (by simp [Event.isStep])

theorem requested_append_singleton (he : e.isStep = false) :
    Requested (log ++ [e]) ↔ e = .detached := by
  rw [Requested, List.filter_append]
  simp [he]

theorem duePolls_append_singleton (log : List Event) (e : Event) :
    duePolls (log ++ [e]) = duePolls log + if e = .polled ∧ Requested log then 1 else 0 := by
  have hearlier : (List.range log.length).countP
      (fun i => (log ++ [e])[i]? = some .polled ∧ Requested ((log ++ [e]).take i)) =
      duePolls log := by
    refine List.countP_congr fun i hi => ?_
    rw [List.mem_range] at hi
    rw [List.getElem?_append_left hi, List.take_append_of_le_length hi.le]
  rw [duePolls, List.length_append, List.length_singleton, List.range_succ, List.countP_append,
    hearlier, List.countP_singleton, List.getElem?_append_right le_rfl, Nat.sub_self,
    List.take_left]
  simp

theorem reasons_append_singleton (log : List Event) (e : Event) :
    reasons (log ++ [e]) = reasons log +
      ([e].count (.stepped .abandoned) + [e].count .ended +
        if e = .polled ∧ Requested log then 1 else 0) := by
  rw [reasons, reasons, List.count_append, List.count_append, duePolls_append_singleton]
  omega

theorem requested_append_steps (log : List Event) (ticks : List Tick) :
    Requested (log ++ ticks.map .stepped) ↔ Requested log := by
  induction ticks using List.reverseRecOn with
  | nil => rw [List.map_nil, List.append_nil]
  | append_singleton ticks k ih =>
      rw [List.map_append, List.map_singleton, ← List.append_assoc, requested_append_stepped, ih]

theorem reasons_append_steps (log : List Event) (ticks : List Tick) :
    reasons (log ++ ticks.map .stepped) = reasons log + ticks.count .abandoned := by
  induction ticks using List.reverseRecOn with
  | nil => rw [List.map_nil, List.append_nil, List.count_nil, Nat.add_zero]
  | append_singleton ticks k ih =>
      have hone : [Event.stepped k].count (.stepped .abandoned) = [k].count .abandoned := by
        cases k <;> rfl
      rw [List.map_append, List.map_singleton, ← List.append_assoc, reasons_append_singleton, ih,
        hone, List.count_append]
      simp [Nat.add_assoc]

/-! Every booked operation keeps the account. -/

theorem Accounted.books (h : Accounted t log pending) (books : Books pending t' log' pending') :
    Accounted (t ++ t') (log ++ log') pending' := by
  have hreboots := h.reboots_eq
  cases books with
  | @stepped _ ticks eq =>
      refine ⟨?_, h.pending_iff.trans (requested_append_steps log ticks).symm⟩
      rw [reboots_append, hreboots, eq, reasons_append_steps]
  | detached =>
      refine ⟨?_, iff_of_true rfl ((requested_append_singleton rfl).2 rfl)⟩
      rw [List.append_nil, hreboots, reasons_append_singleton]
      rfl
  | polled eq =>
      refine ⟨?_, iff_of_false (by decide) (mt (requested_append_singleton rfl).1 (by decide))⟩
      rw [reboots_append, hreboots, eq, reasons_append_singleton]
      cases pending with
      | true => rw [if_pos ⟨rfl, h.pending_iff.1 rfl⟩]; rfl
      | false =>
          rw [if_neg fun hdue => absurd (h.pending_iff.2 hdue.2) (by decide)]
          rfl
  | ended eq =>
      refine ⟨?_, iff_of_false (by decide) (mt (requested_append_singleton rfl).1 (by decide))⟩
      rw [reboots_append, hreboots, eq, reasons_append_singleton]
      rfl

/-! Every operation is booked. -/

theorem Downloads.detachPending_eq {bytes : Bytes} {x : Except SessionError Unit}
    (h : Downloads cfg s bytes x s') : s'.detachPending = s.detachPending := by
  rw [h.frame]

theorem Steps.detachPending_eq (h : Steps cfg s t k s') : s'.detachPending = s.detachPending := by
  rw [h.frame]
  rfl

theorem Steps.reboots_eq (h : Steps cfg s t k s') : reboots t = [k].count .abandoned := by
  cases h with
  | step ticks => exact ticks.reboots_eq

/-- Draining asks for a reboot once for every step that gives a window up. -/
theorem drainLogged_reboots {ticks : List Tick} {d : Option Session}
    (h : Ends (s.drainLogged cfg limit) t (ticks, d)) :
    reboots t = ticks.count .abandoned ∧
      ∀ s', d = some s' → s'.detachPending = s.detachPending := by
  induction limit generalizing s t ticks with
  | zero =>
      obtain ⟨rfl, heq⟩ := ends_done.1 h
      cases heq
      refine ⟨rfl, fun s' hs' => ?_⟩
      split at hs' <;> cases hs'
      rfl
  | succ limit ih =>
      rw [drainLogged] at h
      split at h
      · obtain ⟨rfl, heq⟩ := ends_done.1 h
        cases heq
        exact ⟨rfl, fun s' hs' => by cases hs'; rfl⟩
      · obtain ⟨t₁, t₂, ⟨k, s₁⟩, rfl, hstep, h⟩ := ends_bind.1 h
        obtain ⟨t₃, t₄, ⟨ticks, d⟩, rfl, hrest, h⟩ := ends_bind.1 h
        obtain ⟨rfl, heq⟩ := ends_done.1 h
        cases heq
        have hsteps := steps_of_ends hstep
        obtain ⟨hreboots, hpending⟩ := ih hrest
        refine ⟨?_, fun s' hs' => (hpending s' hs').trans hsteps.detachPending_eq⟩
        rw [List.append_nil, reboots_append, hsteps.reboots_eq, hreboots, ← List.count_append]
        rfl

theorem Reports.quiet {r : Option (StatusReport × Session)} (h : Reports cfg limit s t r)
    (hdrains : ¬Operation.getStatus.Drains cfg s) :
    t = [] ∧ ∃ report s', r = some (report, s') ∧ s'.detachPending = s.detachPending := by
  have htail : s.commitImageTail.detachPending = s.detachPending := by
    rw [s.commitImageTail_frame]
    rfl
  cases h with
  | drained state policy _ | waiting state policy _ => exact absurd ⟨rfl, state, policy⟩ hdrains
  | finished _ _ _ | manifesting _ _ _ => exact ⟨rfl, _, _, rfl, htail⟩
  | ready _ _ | crowded _ _ | other _ _ => exact ⟨rfl, _, _, rfl, rfl⟩

/-- The reboots of an operation, and what it leaves pending, as far as it is over. -/
def Booked (s : Session) (t : List Exchange) (log : List Event) (r : Option (Answer × Session)) :
    Prop :=
  ∃ pending, Books s.detachPending t log pending ∧
    ∀ a s', r = some (a, s') → s'.detachPending = pending

theorem Books.booked (h : Books s.detachPending t log pending) {a : Answer}
    (hs' : s'.detachPending = pending) : Booked s t log (some (a, s')) :=
  ⟨pending, h, by rintro _ _ ⟨⟩; exact hs'⟩

theorem booked_quiet (a : Answer) (ht : reboots t = 0) (hs' : s'.detachPending = s.detachPending) :
    Booked s t [] (some (a, s')) :=
  Books.booked (@Books.stepped _ _ [] ht) hs'

/-- Outside draining an operation has one event at most. -/
theorem Performs.booked {r : Option (Answer × Session)} (h : Performs cfg limit s op t r)
    (hdrains : ¬op.Drains cfg s) :
    Booked s t (r.elim [] fun x => op.events s x.1) r := by
  cases h with
  | detach => exact Books.booked .detached rfl
  | upload uploads =>
      cases uploads with
      | finished _ | unread _ _ | read _ _ => exact booked_quiet _ rfl rfl
  | download downloads => exact booked_quiet _ rfl downloads.detachPending_eq
  | reported reports =>
      obtain ⟨rfl, report, s', heq, hs'⟩ := reports.quiet hdrains
      cases heq
      exact booked_quiet _ rfl hs'
  | unreported reports =>
      obtain ⟨-, _, _, heq, -⟩ := reports.quiet hdrains
      cases heq
  | unreset state =>
      rw [Option.elim_some, Operation.events, if_pos state]
      exact booked_quiet _ rfl rfl
  | reset state =>
      rw [Option.elim_some, Operation.events, if_neg state]
      exact Books.booked (.ended rfl) rfl
  | polled pending =>
      refine Books.booked (.polled ?_) pending
      rw [pending]
      rfl
  | detached pending =>
      refine Books.booked (.polled ?_) rfl
      rw [pending]
      rfl
  | @ticked _ _ k _ steps =>
      rw [Option.elim_some, steps.events s]
      exact Books.booked (@Books.stepped _ _ [k] steps.reboots_eq) steps.detachPending_eq
  | configured _ _ | unconfigured | selected _ | unselected _ | allowed _ _ | refused _ | fail _
  | clearStatus | getState | abort | throttled _ => exact booked_quiet _ rfl rfl

theorem performLogged_booked {r : Option (Answer × Session)}
    (h : Ends (s.performLogged cfg limit op) t (log, r)) : Booked s t log r := by
  obtain ⟨-, ticks, d, hdrain, rfl, rfl⟩ | ⟨hdrains, hends, rfl⟩ := ends_performLogged.1 h
  · obtain ⟨hreboots, hpending⟩ := drainLogged_reboots hdrain
    refine ⟨_, .stepped hreboots, fun a s' hs' => ?_⟩
    obtain ⟨s₁, rfl, heq⟩ := Option.map_eq_some_iff.1 hs'
    cases heq
    exact hpending s₁ rfl
  · exact (performs_of_ends hends).booked hdrains

theorem Accounted.run {r : Option (List Answer × Session)} (h : Accounted t log s.detachPending)
    (hends : Ends (performAllLogged cfg limit ops s) t' (log', r)) :
    ∃ pending, Accounted (t ++ t') (log ++ log') pending := by
  induction ops generalizing s t t' log log' r with
  | nil =>
      obtain ⟨rfl, heq⟩ := ends_done.1 hends
      cases heq
      rw [List.append_nil, List.append_nil]
      exact ⟨_, h⟩
  | cons op ops ih =>
      obtain ⟨hop, rfl⟩ | ⟨t₁, t₂, log₁, log₂, a, s₁, r₂, rfl, rfl, hop, hops, rfl⟩ :=
        ends_performAllLogged_cons.1 hends
      · obtain ⟨pending, hbooks, -⟩ := performLogged_booked hop
        exact ⟨pending, h.books hbooks⟩
      · obtain ⟨pending, hbooks, hpending⟩ := performLogged_booked hop
        have hnext := h.books hbooks
        rw [← hpending a s₁ rfl] at hnext
        rw [← List.append_assoc, ← List.append_assoc]
        exact ih hnext hops

/-- An operation that asks for a reboot is a step of the engine, a poll or a reset of the bus.
The requests of the host are none of these, but for the status request that drains the
buffer. -/
theorem eq_of_reboots_pos {r : Option (Answer × Session)}
    (h : Ends (s.perform cfg limit op) t r) (hpos : 0 < reboots t) :
    op = .tick ∨ op = .poll ∨ op = .busReset ∨ op.Drains cfg s := by
  by_cases hdrains : op.Drains cfg s
  · exact .inr (.inr (.inr hdrains))
  cases performs_of_ends h with
  | ticked _ _ => exact .inl rfl
  | detached _ => exact .inr (.inl rfl)
  | reset _ => exact .inr (.inr (.inl rfl))
  | upload uploads => cases uploads <;> exact absurd hpos (Nat.lt_irrefl 0)
  | reported reports | unreported reports =>
      obtain ⟨rfl, -⟩ := reports.quiet hdrains
      exact absurd hpos (Nat.lt_irrefl 0)
  | configured _ _ | unconfigured | selected _ | unselected _ | allowed _ _ | refused _ | fail _
  | detach | download _ | clearStatus | getState | abort | unreset _ | polled _ | throttled _ =>
      exact absurd hpos (Nat.lt_irrefl 0)

/-- From power-on, and on any board that comes back from a reboot, a run asks for a reboot as
often as its log has reasons: a window given up, by a tick or in draining, the end of a session
by a reset of the bus, and a poll that comes when a detach is requested. No request of the host
asks for one itself, but for the status request that drains the buffer. -/
theorem reboots_accounted {r : Option (List Answer × Session)}
    (h : Ends (performAll cfg limit ops (.initial cfg)) t r) :
    (∃ log, Ends (performAllLogged cfg limit ops (.initial cfg)) t (log, r) ∧
      reboots t = log.count (.stepped .abandoned) + log.count .ended + duePolls log) ∧
    ∀ (s : Session) op t r, Ends (s.perform cfg limit op) t r → 0 < reboots t →
      op = .tick ∨ op = .poll ∨ op = .busReset ∨ op.Drains cfg s := by
  refine ⟨?_, fun s op t r hends => eq_of_reboots_pos hends⟩
  obtain ⟨log, hlog⟩ := exists_log h
  have hstart : Accounted [] [] (initial cfg).detachPending :=
    ⟨rfl, iff_of_false Bool.false_ne_true (by decide)⟩
  obtain ⟨pending, haccounted⟩ := hstart.run hlog
  exact ⟨log, hlog, haccounted.reboots_eq⟩

/-- A reset swallows one request, and a poll serves two. -/
theorem reboots_accounted_swallowed :
    ∃ (t : List Exchange) (log : List Event) (r : Option (List Answer × Session)),
      let cfg : Config := {}
      let ops : List Operation :=
        [.selectAlt 0, .detach, .busReset, .poll, .detach, .detach, .poll, .poll]
      Ends (performAll cfg 0 ops (.initial cfg)) t r ∧ r.isSome = true ∧
        Ends (performAllLogged cfg 0 ops (.initial cfg)) t (log, r) ∧
        reboots t = log.count (.stepped .abandoned) + log.count .ended + duePolls log ∧
        reboots t = 2 := by
  let cfg : Config := {}
  let ops : List Operation :=
    [.selectAlt 0, .detach, .busReset, .poll, .detach, .detach, .poll, .poll]
  have hends := ends_run (TimedFlash.chips 0) (performAll cfg 0 ops (.initial cfg))
    ⟨⟨.internal, fun _ _ => 0xff⟩, 0, false⟩
  obtain ⟨⟨log, hlog, hreboots⟩, -⟩ := reboots_accounted hends
  exact ⟨_, log, _, hends, by decide +kernel, hlog, hreboots, by decide +kernel⟩

end Session

end DfuLoader
