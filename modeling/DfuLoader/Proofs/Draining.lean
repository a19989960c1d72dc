import DfuLoader.Proofs.Effort
import DfuLoader.Proofs.FlowControl
import DfuLoader.Proofs.HealthyBoard

/-!
# Draining ends

Draining steps the engine until the buffer is empty. What has to leave the buffer is known
when it begins: the committed blocks in their order, and behind them the block under way,
which the first step pads (`Empties.finished_eq`). The effort on each of them is bounded, and
so are the steps that count (`Empties.counted_le`). The steps that find the chip at work do
not count, and draining ends on every board that shows them only so many times in a row
(`Board.Settles`, `exists_empties`).
-/

namespace DfuLoader

namespace Board

variable {σ : Type} {board : Board σ} {view : View σ} {stop : Address}

def poll (board : Board σ) (chip : Chip) (x : σ) : Except Fault UInt8 × σ :=
  (Dialogue.select chip >>= fun _ => Dialogue.readStatus).run board x

def FindsWorking (board : Board σ) (chip : Chip) (x : σ) : Prop :=
  ∃ status, (board.poll chip x).1 = .ok status ∧ (status &&& busyBit != 0) = true

/-- Of the status reads in a row, some does not find the chip at work. -/
def Settles (board : Board σ) : Prop :=
  ∀ chip x, ∃ n, ¬board.FindsWorking chip ((fun x => (board.poll chip x).2)^[n] x)

/-- What holds of a board's state whenever it holds of the next one, as long as the chip is
found at work, holds of all of them. -/
theorem Settles.induction (h : board.Settles) (chip : Chip) {P : σ → Prop}
    (poll : ∀ x, (board.FindsWorking chip x → P (board.poll chip x).2) → P x) (x : σ) : P x := by
  obtain ⟨n, hn⟩ := h chip x
  induction n generalizing x with
  | zero => exact poll x fun hworking => absurd hworking hn
  | succ n ih =>
      rw [Function.iterate_succ_apply] at hn
      exact poll x fun _ => ih _ hn

theorem plays_run {α : Type} (board : Board σ) (d : Dialogue α) (x : σ) :
    board.Plays x (d.trace board x) (d.run board x).2 := by
  induction d generalizing x with
  | done a => exact .nil x
  | ask c next ih => exact .cons rfl (ih _ _)

/-- A board that can be read is found at work only so many times. -/
theorem Legible.settles (legible : board.Legible view stop) : board.Settles := by
  intro chip x
  generalize hpolls : view.polls x = n
  induction n using Nat.strong_induction_on generalizing x with
  | _ n ih =>
      by_cases hbusy : board.FindsWorking chip x
      swap
      · exact ⟨0, hbusy⟩
      obtain ⟨x₁, hselect, -, hle⟩ := legible.select x chip
      obtain ⟨status, x₂, hstatus, -, hthen⟩ := legible.readStatus x₁
      have hpoll : board.poll chip x = (.ok status, x₂) := by
        change board.answer .readStatus (board.answer (.select chip) x).2 = _
        rw [hselect, hstatus]
      obtain ⟨_, heq, hworking⟩ := hbusy
      rw [hpoll] at heq
      cases heq
      rw [if_pos hworking] at hthen
      obtain ⟨m, hm⟩ := ih (view.polls x₂) (by omega) x₂ rfl
      refine ⟨m + 1, ?_⟩
      rw [Function.iterate_succ_apply, hpoll]
      exact hm

theorem Healthy.settles (healthy : board.Healthy view stop) : board.Settles :=
  healthy.toLegible.settles

theorem Settles.withReadback (h : board.Settles) : board.withReadback.Settles := h

end Board

namespace Pipeline

def finished (p : Pipeline) (k : Tick) : List (Bytes × Tick) :=
  if k.released = 1 then p.buffer.head?.toList.map fun block => (block, k) else []

variable {cfg : Config} {p q : Pipeline} {t : List Exchange} {k : Tick}

theorem finished_kind (p : Pipeline) (k : Tick) :
    ∀ e ∈ p.finished k, e.2 = .committed ∨ e.2 = .abandoned := by
  intro e he
  rw [finished] at he
  split at he
  · obtain ⟨block, -, rfl⟩ := List.mem_map.1 he
    cases k <;> simp_all [Tick.released]
  · cases he

theorem chip_opened (p : Pipeline) : p.opened.engine.chip = p.engine.chip := by
  rw [opened]
  split <;> rfl

/-! Work counts. -/

theorem Writes.counted (h : Writes cfg p t k q) : k.counted = 1 := by
  cases h with
  | page _ _ _ programs => cases programs <;> rfl
  | written _ | passed _ _ | starved _ _ _ => rfl

theorem Works.counted (h : Works cfg p t k q) : k.counted = 1 := by
  cases h with
  | stale _ _ _ erases => cases erases <;> rfl
  | fresh _ _ _ writes => exact writes.counted
  | resumed _ writes => exact writes.counted
  | starved _ _ | unread _ _ _ => rfl

/-- A tick that does not count finds the chip at work. -/
theorem Ticks.greeting_of_not_counted (h : Ticks cfg p t k q) (hk : k.counted ≠ 1) :
    q = p.opened ∧ ∃ status, t = p.opened.greeting (.ok status) ∧
      (status &&& busyBit != 0) = true := by
  cases h with
  | busy _ _ working => exact ⟨rfl, _, rfl, working⟩
  | worked _ _ _ works => exact absurd works.counted hk
  | resting _ _ | abandoned _ _ | unanswered _ _ _ => exact absurd rfl hk

end Pipeline

namespace Session

open Dialogue Engine Pipeline

/-- Steps that empty the buffer: how many of them count, their exchanges, and the blocks that
leave the buffer, each with the tick that it left with. -/
inductive Empties (cfg : Config) :
    Session → Nat → List Exchange → List (Bytes × Tick) → Session → Prop
  | done {s : Session} (empty : s.buffer.isEmpty = true) : Empties cfg s 0 [] [] s
  | step {s s' s'' : Session} {n : Nat} {t t' : List Exchange} {k : Tick} {w : List (Bytes × Tick)}
      (queued : s.buffer.isEmpty = false) (ends : Ends (s.step cfg) t (k, s'))
      (rest : Empties cfg s' n t' w s'') :
      Empties cfg s (k.counted + n) (t ++ t') (s.commitImageTail.finished k ++ w) s''

/-- A session that works on its zone, with no block under way. -/
structure Sealed (cfg : Config) (s : Session) : Prop where
  located : Located cfg s
  fill_eq : s.buffer.fill = 0

/-- The steps that the blocks in the buffer can be worth. -/
def budget (cfg : Config) (s : Session) : Nat :=
  if s.buffer.committed = 0 then 0
  else s.engine.effort + 1 + (s.buffer.committed - 1) * (18 * cfg.maxAttempts.toNat + 1)

variable {cfg : Config} {limit n : Nat} {s s' : Session} {t : List Exchange} {k : Tick}
  {w : List (Bytes × Tick)} {zone : Zone}

theorem commitImageTail_of_fill_eq_zero (h : s.buffer.fill = 0) : s.commitImageTail = s := by
  rw [commitImageTail, commitTail_of_fill_eq_zero h, ite_self]

theorem Sealed.isEmpty_iff (h : Sealed cfg s) :
    s.buffer.isEmpty = true ↔ s.buffer.committed = 0 := by
  rw [BlockRing.isEmpty_iff, and_iff_left h.fill_eq]

theorem Sealed.ticks (h : Sealed cfg s) (steps : Steps cfg s t k s') :
    ∃ q, Ticks cfg s.toPipeline t k q ∧ s' = s.withPipeline q := by
  cases steps with
  | step ticks =>
      rw [commitImageTail_of_fill_eq_zero h.fill_eq] at ticks ⊢
      exact ⟨_, ticks, rfl⟩

theorem Sealed.steps (h : Sealed cfg s) (steps : Steps cfg s t k s') : Sealed cfg s' where
  located := steps.located h.located
  fill_eq := by
    rcases steps.fill h.located.wellFormed with hfill | hfill
    · rw [hfill, h.fill_eq]
    · exact hfill

/-- A step is paid for by the blocks in the buffer. -/
theorem Sealed.budget (h : Sealed cfg s) (steps : Steps cfg s t k s')
    (hpos : s.buffer.committed ≠ 0) : k.counted + s'.budget cfg ≤ s.budget cfg := by
  obtain ⟨_, _, _, _, -, -, htracks⟩ := h.located
  obtain ⟨q, ticks, rfl⟩ := h.ticks steps
  have hhead := BlockRing.head?_ne_none_iff.2 (Nat.pos_of_ne_zero hpos)
  rw [Session.budget, Session.budget, if_neg hpos]
  change k.counted + (if q.buffer.committed = 0 then 0 else q.engine.effort + 1 +
    (q.buffer.committed - 1) * (18 * cfg.maxAttempts.toNat + 1)) ≤ _
  by_cases hk : k.released = 1
  · -- the next block begins with all attempts, which is what was set aside for it
    have hfinishes := ticks.finishes htracks hk
    have hcounted : k.counted = 1 := by
      rcases hfinishes.outcome with ⟨rfl, -⟩ | ⟨rfl, -⟩ <;> rfl
    have heffort := q.engine.effort_le
    rw [hfinishes.attempts_eq] at heffort
    have hcommitted := hfinishes.committed_eq
    obtain ⟨c, hc⟩ := Nat.exists_eq_succ_of_ne_zero hpos
    have hqc : q.buffer.committed = c := by omega
    rw [hcounted, hqc, hc]
    split
    · omega
    · rename_i hne
      obtain ⟨c', rfl⟩ := Nat.exists_eq_succ_of_ne_zero hne
      simp only [Nat.succ_eq_add_one, Nat.add_sub_cancel, Nat.add_mul]
      omega
  · have hk : k.released = 0 := by cases k <;> simp_all [Tick.released]
    have hspends := (ticks.spends htracks.steady hhead hk).effort_le
    have hbuffer := ticks.leaves.buffer_eq
    rw [hk, if_neg (by decide)] at hbuffer
    rw [hbuffer, if_neg hpos]
    omega

theorem Sealed.finished (h : Sealed cfg s) (steps : Steps cfg s t k s')
    (hpos : s.buffer.committed ≠ 0) :
    (s.finished k).map Prod.fst ++ s'.buffer.queue = s.buffer.queue := by
  obtain ⟨_, _, _, _, -, -, htracks⟩ := h.located
  obtain ⟨q, ticks, rfl⟩ := h.ticks steps
  change (s.finished k).map Prod.fst ++ q.buffer.queue = _
  have hbuffer := ticks.leaves.buffer_eq
  by_cases hk : k.released = 1
  · rw [if_pos hk] at hbuffer
    rw [Pipeline.finished, if_pos hk, hbuffer, htracks.ring.queue_pop, ← BlockRing.head?_queue]
    cases hqueue : s.buffer.queue with
    | nil =>
        have hlength := htracks.ring.length_queue
        rw [hqueue] at hlength
        exact absurd hlength.symm hpos
    | cons block rest => rfl
  · rw [if_neg hk] at hbuffer
    rw [Pipeline.finished, if_neg hk, hbuffer]
    rfl

/-! Whatever the board answers, every block leaves the buffer in its turn, within its budget. -/

theorem Empties.counted_le (h : Empties cfg s n t w s') (hs : Sealed cfg s) :
    n ≤ s.budget cfg := by
  induction h with
  | done empty => exact Nat.zero_le _
  | step queued ends rest ih =>
      have hpos := mt hs.isEmpty_iff.2 (by simp [queued])
      have hsteps := steps_of_ends ends
      have hbudget := hs.budget hsteps hpos
      have hrest := ih (hs.steps hsteps)
      omega

theorem Empties.finished_eq (h : Empties cfg s n t w s') (hs : Sealed cfg s) :
    w.map Prod.fst = s.buffer.queue := by
  induction h with
  | done empty =>
      have hlength := hs.located.wellFormed.length_queue
      rw [hs.isEmpty_iff.1 empty] at hlength
      rw [List.eq_nil_of_length_eq_zero hlength, List.map_nil]
  | step queued ends rest ih =>
      have hpos := mt hs.isEmpty_iff.2 (by simp [queued])
      have hsteps := steps_of_ends ends
      rw [List.map_append, ih (hs.steps hsteps), commitImageTail_of_fill_eq_zero hs.fill_eq]
      exact hs.finished hsteps hpos

theorem Empties.finished_kind (h : Empties cfg s n t w s') :
    ∀ e ∈ w, e.2 = .committed ∨ e.2 = .abandoned := by
  induction h with
  | done empty => exact List.forall_mem_nil _
  | step queued ends rest ih => exact List.forall_mem_append.2 ⟨Pipeline.finished_kind _ _, ih⟩

theorem Empties.isEmpty (h : Empties cfg s n t w s') : s'.buffer.isEmpty = true := by
  induction h with
  | done empty => exact empty
  | step queued ends rest ih => exact ih

/-! Draining changes the pipeline only. -/

theorem Empties.frame (h : Empties cfg s n t w s') : s' = s.withPipeline s'.toPipeline := by
  induction h with
  | done empty => rfl
  | step queued ends rest ih =>
      rw [ih, (steps_of_ends ends).frame]
      rfl

/-! The block under way is padded first of all. -/

theorem commitImageTail_commitImageTail (h : s.buffer.WellFormed) :
    s.commitImageTail.commitImageTail = s.commitImageTail := by
  by_cases hend : s.endOfImage = true
  · refine commitImageTail_of_fill_eq_zero ?_
    rw [commitImageTail, if_pos hend]
    exact fill_commitTail h
  · have hsame : s.commitImageTail = s := if_neg hend
    rw [hsame, hsame]

theorem step_commitImageTail (h : s.buffer.WellFormed) :
    s.commitImageTail.step cfg = s.step cfg := by
  rw [step, step, commitImageTail_commitImageTail h]

theorem isEmpty_commitImageTail (s : Session) :
    s.commitImageTail.buffer.isEmpty = s.buffer.isEmpty := by
  rw [commitImageTail, commitTail]
  split
  · split
    · rfl
    · rename_i hfill
      split
      · rfl
      · rename_i buffer hcommit
        obtain ⟨-, rfl⟩ := BlockRing.commit_eq_some_iff.1 hcommit
        have hclosed : s.buffer.close.isEmpty = false := rfl
        have hqueued : s.buffer.isEmpty = false := by
          rw [← Bool.not_eq_true, BlockRing.isEmpty_iff]
          exact fun h => hfill h.2
        rw [hqueued]
        exact hclosed
  · rfl

theorem commitImageTail_of_isEmpty (h : s.buffer.isEmpty = true) : s.commitImageTail = s :=
  commitImageTail_of_fill_eq_zero (BlockRing.isEmpty_iff.1 h).2

theorem drain_of_isEmpty (h : s.buffer.isEmpty = true) (limit : Nat) :
    s.drain cfg limit = .done (some s) := by
  cases limit <;> rw [drain, if_pos h] <;> rfl

theorem drain_commitImageTail (h : s.buffer.WellFormed) (limit : Nat) :
    s.commitImageTail.drain cfg limit = s.drain cfg limit := by
  cases hempty : s.buffer.isEmpty with
  | true => rw [commitImageTail_of_isEmpty hempty]
  | false =>
      have hqueued := s.isEmpty_commitImageTail.trans hempty
      cases limit with
      | zero =>
          rw [drain, drain, hempty, hqueued]
          rfl
      | succ limit =>
          rw [drain, drain, hempty, hqueued, step_commitImageTail h]
          rfl

theorem Empties.of_commitImageTail (h : Empties cfg s.commitImageTail n t w s')
    (hs : s.buffer.WellFormed) : Empties cfg s n t w s' := by
  cases hempty : s.buffer.isEmpty with
  | true => rwa [commitImageTail_of_isEmpty hempty] at h
  | false =>
      cases h with
      | done empty =>
          rw [isEmpty_commitImageTail, hempty] at empty
          cases empty
      | step queued ends rest =>
          rw [step_commitImageTail hs] at ends
          rw [commitImageTail_commitImageTail hs]
          exact .step hempty ends rest

theorem sealed_commitImageTail (hs : Located cfg s) (hend : s.endOfImage = true) :
    Sealed cfg s.commitImageTail where
  located := hs.commitImageTail
  fill_eq := by
    rw [commitImageTail, if_pos hend]
    exact fill_commitTail hs.wellFormed

/-- The block under way goes behind the others, padded. -/
theorem queue_commitImageTail (h : s.buffer.WellFormed) (hend : s.endOfImage = true) :
    s.commitImageTail.buffer.queue = s.buffer.queue ++ s.buffer.padded := by
  rw [commitImageTail, if_pos hend, BlockRing.padded]
  by_cases hfill : s.buffer.fill = 0
  · rw [commitTail_of_fill_eq_zero hfill, if_pos hfill, List.append_nil]
  · rw [commitTail_of_fill_ne_zero h hfill, if_neg hfill]
    exact h.queue_close (fill_pos_committed_lt h hfill)

/-! A board on which no chip is at work for ever. -/

section Board

variable {σ : Type} {board : Board σ} {x x' x₁ : σ} {s₁ : Session} {t' : List Exchange}

/-- With enough steps draining ends on the board, with these exchanges and in this session. -/
def DrainsTo (cfg : Config) (board : Board σ) (s : Session) (x : σ) (t : List Exchange)
    (s' : Session) (x' : σ) : Prop :=
  ∃ m, ∀ limit, m ≤ limit →
    (s.drain cfg limit).run board x = (some s', x') ∧ (s.drain cfg limit).trace board x = t

theorem drainsTo_of_isEmpty (h : s.buffer.isEmpty = true) (board : Board σ) (x : σ) :
    DrainsTo cfg board s x [] s x := by
  refine ⟨0, fun limit _ => ?_⟩
  rw [drain_of_isEmpty h limit]
  exact ⟨rfl, rfl⟩

theorem drain_succ (h : s.buffer.isEmpty = false)
    (hstep : (s.step cfg).run board x = ((k, s₁), x₁)) (limit : Nat) :
    (s.drain cfg (limit + 1)).run board x = (s₁.drain cfg limit).run board x₁ ∧
      (s.drain cfg (limit + 1)).trace board x =
        (s.step cfg).trace board x ++ (s₁.drain cfg limit).trace board x₁ := by
  rw [drain, h, if_neg (by simp), run_bind, trace_bind, hstep]
  exact ⟨rfl, rfl⟩

theorem DrainsTo.step (h : DrainsTo cfg board s₁ x₁ t' s' x') (hqueued : s.buffer.isEmpty = false)
    (hstep : (s.step cfg).run board x = ((k, s₁), x₁)) :
    DrainsTo cfg board s x ((s.step cfg).trace board x ++ t') s' x' := by
  obtain ⟨m, hm⟩ := h
  refine ⟨m + 1, fun limit hlimit => ?_⟩
  obtain ⟨limit, rfl⟩ : ∃ l, limit = l + 1 := ⟨limit - 1, by omega⟩
  obtain ⟨hrun, htrace⟩ := drain_succ hqueued hstep limit
  obtain ⟨hrun', htrace'⟩ := hm limit (by omega)
  rw [hrun, htrace, hrun', htrace']
  exact ⟨rfl, rfl⟩

theorem Sealed.findsWorking (h : Sealed cfg s) (hstep : (s.step cfg).run board x = ((k, s₁), x₁))
    (hk : k.counted ≠ 1) :
    board.FindsWorking s.engine.chip x ∧ x₁ = (board.poll s.engine.chip x).2 ∧
      s₁.engine.chip = s.engine.chip := by
  have hplays := board.plays_run (s.step cfg) x
  rw [hstep] at hplays
  obtain ⟨q, ticks, rfl⟩ := h.ticks (steps_of_ends (ends_of_run hstep))
  obtain ⟨rfl, status, htrace, hworking⟩ := ticks.greeting_of_not_counted hk
  rw [htrace, greeting, chip_opened] at hplays
  have hpoll : board.poll s.engine.chip x = (.ok status, x₁) := by
    cases hplays with
    | cons hselect rest =>
        cases rest with
        | cons hstatus rest =>
            cases rest
            change board.answer .readStatus (board.answer (.select s.engine.chip) x).2 = _
            rw [hselect, hstatus]
  exact ⟨⟨status, by rw [hpoll], hworking⟩, by rw [hpoll], chip_opened _⟩

def Drainable (cfg : Config) (board : Board σ) (s : Session) (x : σ) : Prop :=
  ∃ n t w s' x', Empties cfg s n t w s' ∧ DrainsTo cfg board s x t s' x'

theorem Drainable.step (h : Drainable cfg board s₁ x₁) (hqueued : s.buffer.isEmpty = false)
    (hstep : (s.step cfg).run board x = ((k, s₁), x₁)) : Drainable cfg board s x := by
  obtain ⟨n, t, w, s', x', hempties, hdrains⟩ := h
  have hends := ends_of_run hstep
  exact ⟨_, _, _, s', x', .step hqueued hends hempties, hdrains.step hqueued hstep⟩

/-- Every step uses up some of the budget or finds the chip at work once more, and neither
can go on for ever. -/
theorem drainable (hboard : board.Settles) (hs : Sealed cfg s) (x : σ) :
    Drainable cfg board s x := by
  generalize hb : s.budget cfg = b
  replace hb := hb.le
  induction b generalizing s x with
  | zero =>
      have hempty : s.buffer.isEmpty = true := by
        rw [hs.isEmpty_iff]
        by_contra hne
        rw [budget, if_neg hne] at hb
        omega
      exact ⟨_, _, _, _, _, .done hempty, drainsTo_of_isEmpty hempty board x⟩
  | succ b ih =>
      generalize hchip : s.engine.chip = chip
      induction x using hboard.induction chip generalizing s with
      | poll x ihx =>
          cases hempty : s.buffer.isEmpty with
          | true => exact ⟨_, _, _, _, _, .done hempty, drainsTo_of_isEmpty hempty board x⟩
          | false =>
              obtain ⟨⟨⟨k, s₁⟩, x₁⟩, hstep⟩ : ∃ r, (s.step cfg).run board x = r := ⟨_, rfl⟩
              have hsteps := steps_of_ends (ends_of_run hstep)
              have hpos := mt hs.isEmpty_iff.2 (by simp [hempty])
              have hbudget := hs.budget hsteps hpos
              refine Drainable.step ?_ hempty hstep
              by_cases hk : k.counted = 1
              · exact ih (hs.steps hsteps) x₁ (by omega)
              · obtain ⟨hworking, rfl, hchip₁⟩ := hs.findsWorking hstep hk
                rw [hchip] at hworking hchip₁ ⊢
                exact ihx hworking (hs.steps hsteps) (by omega) hchip₁

end Board

/-! The block under way is padded, because the image is complete as long as the host waits for
its manifestation. -/

/-- The host waits for manifestation of a complete image only. -/
def Complete (s : Session) : Prop := s.state = .manifestSync → s.endOfImage = true

theorem Downloads.complete {bytes : Bytes} {x : Except SessionError Unit}
    (h : Downloads cfg s bytes x s') : s'.Complete := by
  cases h with
  | ended _ => exact fun _ => rfl
  | overflowed _ _ | crowded _ _ _ | taken _ _ _ _ => exact fun hstate => by cases hstate

theorem Uploads.complete {room requested : Nat} {x : Except SessionError Bytes}
    (h : Uploads s room requested t x s') : s'.Complete := by
  intro hstate
  cases h with
  | finished _ | unread _ _ => cases hstate
  | read _ _ =>
      change (if _ then State.uploadIdle else State.idle) = _ at hstate
      split at hstate <;> cases hstate

theorem Reports.complete {report : StatusReport} (h : Reports cfg limit s t (some (report, s')))
    (hs : s.Complete) : s'.Complete := by
  cases h with
  | drained state policy drains =>
      obtain ⟨hidle, -⟩ := drains.preserves (P := fun s => s.state = .idle)
        (fun steps hstate => steps.fields.2.1.trans hstate) rfl rfl
      exact fun hstate => absurd (hidle.symm.trans hstate) (by decide)
  | manifesting state policy queued =>
      obtain ⟨-, hstate, hend⟩ := s.commitImageTail_fields
      rw [Complete, hstate, hend]
      exact hs
  | ready _ _ | finished _ _ _ => exact fun hstate => by cases hstate
  | crowded _ _ | other _ _ => exact hs

theorem Performs.complete {op : Operation} {a : Answer}
    (h : Performs cfg limit s op t (some (a, s'))) (hs : s.Complete) : s'.Complete := by
  cases h with
  | download downloads => exact downloads.complete
  | upload uploads => exact uploads.complete
  | reported reports => exact reports.complete hs
  | ticked due steps =>
      obtain ⟨-, hstate, hend⟩ := steps.fields
      rw [Complete, hstate, hend]
      exact hs
  | configured _ _ | selected _ | refused _ | fail _ | clearStatus | abort | reset _ =>
      exact fun hstate => by cases hstate
  | unconfigured | unselected _ | allowed _ _ | detach | getState | unreset _ | polled _
  | detached _ | throttled _ => exact hs

theorem Reachable.complete (h : Reachable cfg s) : s.Complete := by
  induction h with
  | initial => exact fun hstate => by cases hstate
  | perform _ ends ih => exact (performs_of_ends ends).complete ih

theorem budget_le (hs : Sealed cfg s) (hle : s.engine.attempts.toNat ≤ cfg.maxAttempts.toNat) :
    s.budget cfg ≤ 2 * (18 * cfg.maxAttempts.toNat + 1) := by
  have heffort := s.engine.effort_le
  have hcommitted := hs.located.wellFormed.committed_le
  have hcases : s.buffer.committed = 0 ∨ s.buffer.committed = 1 ∨ s.buffer.committed = 2 := by
    omega
  rw [budget]
  rcases hcases with hc | hc | hc <;> rw [hc] <;> simp <;> omega

/-- A status request that ends an image drains the buffer and goes back to the start of the
zone. -/
theorem getStatus_of_manifestSync (hstate : s.state = .manifestSync) (limit : Nat) :
    s.getStatus cfg limit = s.manifest cfg limit := by
  rw [getStatus, hstate]

theorem getStatus_of_drain (hstate : s.state = .manifestSync) (hpolicy : cfg.manifest = .drain)
    (limit : Nat) :
    s.getStatus cfg limit = { s with state := .idle }.drain cfg limit >>= fun drained =>
      .done (drained.map fun s => ((s.rewind cfg).report cfg .idle, s.rewind cfg)) := by
  rw [getStatus_of_manifestSync hstate, manifest, hpolicy]
  exact bind_congr fun drained => by cases drained <;> rfl

theorem getStatus_of_report (hstate : s.state = .manifestSync) (hpolicy : cfg.manifest = .report)
    (limit : Nat) :
    s.getStatus cfg limit =
      if s.commitImageTail.buffer.isEmpty then
        .done (some (({ s.commitImageTail with state := .idle }.rewind cfg).report cfg .idle,
          { s.commitImageTail with state := .idle }.rewind cfg))
      else .done (some (s.commitImageTail.report cfg .manifest, s.commitImageTail)) := by
  rw [getStatus_of_manifestSync hstate, manifest, hpolicy]
  rfl

/-- A status request that ends an image is answered, on every board that does not find a chip
at work for ever. At most `2 * (18 * maxAttempts + 1)` steps count until then. The blocks leave
the buffer in their order, each of them committed or given up, the last one padded if it was
under way. The buffer is empty then, the engine is at the start of its zone, and the session
is idle with the status that it had. -/
theorem getStatus_drains {σ : Type} {board : Board σ} (hboard : board.Settles)
    (hs : Reachable cfg s) (hstate : s.state = .manifestSync) (hpolicy : cfg.manifest = .drain)
    (x : σ) :
    ∃ (zone : Zone) (n m : Nat) (t : List Exchange) (w : List (Bytes × Tick)) (s₁ : Session)
        (x' : σ),
      cfg.zones.get? s.alt = some zone ∧
      (∀ limit, m ≤ limit →
        (s.getStatus cfg limit).run board x =
            (some (⟨s.status, cfg.pollTimeout, .idle⟩,
              { s with
                buffer := s₁.buffer
                engine := .loaded zone cfg.maxAttempts
                endOfImage := false
                state := .idle }), x') ∧
          (s.getStatus cfg limit).trace board x = t) ∧
      Empties cfg { s with state := .idle } n t w s₁ ∧
      s₁.buffer.isEmpty = true ∧
      n ≤ 2 * (18 * cfg.maxAttempts.toNat + 1) ∧
      w.map Prod.fst = s.buffer.queue ++ s.buffer.padded ∧
      ∀ e ∈ w, e.2 = .committed ∨ e.2 = .abandoned := by
  have hlocated : Located cfg { s with state := .idle } := hs.located
  have hring := hlocated.wellFormed
  have hend : { s with state := .idle }.endOfImage = true := hs.complete hstate
  have hsealed := sealed_commitImageTail hlocated hend
  have hattempts : { s with state := .idle }.commitImageTail.engine.attempts.toNat ≤
      cfg.maxAttempts.toNat := by
    rw [(keeps_commitImageTail _).attempts_eq]
    exact hs.attempts_le
  obtain ⟨zone, _, _, _, hzone, -, -⟩ := hs.located
  obtain ⟨n, t, w, s₁, x', hempties, m, hm⟩ := drainable hboard hsealed x
  have hqueue := hempties.finished_eq hsealed
  rw [queue_commitImageTail hring hend] at hqueue
  refine ⟨zone, n, m, t, w, s₁, x', hzone, ?_, hempties.of_commitImageTail hring,
    hempties.isEmpty, (hempties.counted_le hsealed).trans (budget_le hsealed hattempts),
    hqueue, hempties.finished_kind⟩
  have hframe := (hempties.of_commitImageTail hring).frame
  intro limit hlimit
  obtain ⟨hrun, htrace⟩ := hm limit hlimit
  rw [drain_commitImageTail hring] at hrun htrace
  have hrewind : s₁.rewind cfg =
      { s with
        buffer := s₁.buffer
        engine := .loaded zone cfg.maxAttempts
        endOfImage := false
        state := .idle } := by
    rw [hframe]
    simp only [rewind, withPipeline, hzone]
  rw [getStatus_of_drain hstate hpolicy, run_bind, trace_bind, hrun, htrace, Option.map_some,
    run_done, trace_done, List.append_nil, report, hrewind]
  exact ⟨rfl, rfl⟩

/-- Half of the smallest zone of the reference board, on chips that take their time. -/
theorem getStatus_drains_half :
    ∃ (s : Session) (limit : Nat) (r : StatusReport × Session) (x : TimedFlash),
      Reachable {} s ∧ s.buffer.fill = 128 ∧
      (s.getStatus {} limit).run (TimedFlash.chips 3).withReadback
        ⟨⟨.internal, fun _ _ => 0⟩, 0, false⟩ = (some r, x) ∧
      r.1.state = .idle ∧ r.2.buffer.isEmpty = true := by
  have hreachable : Reachable {} (halfImage {}) := reachable_halfImage rfl
  have hfill : (halfImage {}).buffer.fill = 128 := by decide +kernel
  have hsettles := (TimedFlash.healthy_chips 3 0).settles.withReadback
  obtain ⟨_, _, m, _, _, s', x', -, hrun, -, hempty, -⟩ :=
    getStatus_drains hsettles hreachable rfl rfl ⟨⟨.internal, fun _ _ => 0⟩, 0, false⟩
  exact ⟨_, m, _, x', hreachable, hfill, (hrun m le_rfl).1, rfl, hempty⟩

end Session

end DfuLoader
