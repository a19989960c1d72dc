import DfuLoader.Proofs.RingQueue
import DfuLoader.Proofs.TickCommands
import Mathlib.Logic.Relation

/-!
# Committed windows

Once a tick has committed a window, later page commands keep out of it in every
zone, because the window cursor only moves on. Erase commands do not: the region to
erase is the window rounded down to a sector, so it reaches back into the window
before wherever windows and sectors do not line up. Committed windows are spared
exactly where they do (`sparesCommitted_iff`).
-/

namespace DfuLoader

open Relation

/-- A comparison of no bytes finds nothing to erase. -/
def Exchange.EmptyMatches (e : Exchange) : Prop :=
  ∀ start wanted outcome, e = ⟨.verify start wanted, .ok outcome⟩ → wanted = [] →
    outcome.needsErase = false

namespace Pipeline

/-- What can happen between two loads of a zone: a tick, with some replies of the
board, and anything that is done to the buffer. -/
inductive Next (cfg : Config) (allowed : Exchange → Prop) : Pipeline → Pipeline → Prop
  | tick {p q : Pipeline} {t : List Exchange} {k : Tick}
      (ends : Dialogue.Ends (p.tick cfg) t (k, q)) (replies : ∀ e ∈ t, allowed e) :
      Next cfg allowed p q
  | operate (p : Pipeline) (op : BlockRing.Operation) :
      Next cfg allowed p { p with buffer := (p.buffer.perform op).2 }

def InCommitted (p q : Pipeline) (x : Nat) : Prop :=
  p.engine.windowAt.toNat ≤ x ∧ x < p.engine.windowAt.toNat + q.engine.length

/-- Whatever happens after a zone was loaded, no command changes an address of a
window that was committed before. -/
def SparesCommitted (cfg : Config) (allowed : Exchange → Prop) (z : Zone) : Prop :=
  ∀ {buffer : BlockRing} {p q p' q' : Pipeline} {t t' : List Exchange} {k' : Tick},
    ReflTransGen (Next cfg allowed) ⟨.loaded z cfg.maxAttempts, buffer⟩ p →
    Dialogue.Ends (p.tick cfg) t (.committed, q) → (∀ e ∈ t, allowed e) →
    ReflTransGen (Next cfg allowed) q p' →
    Dialogue.Ends (p'.tick cfg) t' (k', q') → (∀ e ∈ t', allowed e) →
    ∀ e ∈ t', ∀ x, p.InCommitted q x → ¬e.command.Changes x

variable {cfg : Config} {allowed : Exchange → Prop} {z : Zone} {m n : Nat}
  {p q : Pipeline} {t : List Exchange} {k : Tick} {x : Nat}

/-! The window cursor never goes back. -/

theorem Next.steady (h : Next cfg allowed p q) (hp : p.engine.Steady z m) :
    ∃ n, m ≤ n ∧ q.engine.Steady z n := by
  cases h with
  | tick ends _ => exact ⟨_, Nat.le_add_right _ _, (ends_tick.1 ends).steady hp⟩
  | operate op => exact ⟨m, le_refl m, hp⟩

theorem steady_of_run (h : ReflTransGen (Next cfg allowed) p q) (hp : p.engine.Steady z m) :
    ∃ n, m ≤ n ∧ q.engine.Steady z n := by
  induction h with
  | refl => exact ⟨m, le_refl m, hp⟩
  | tail _ hstep ih =>
      obtain ⟨n, hmn, hn⟩ := ih
      obtain ⟨n', hnn', hn'⟩ := hstep.steady hn
      exact ⟨n', hmn.trans hnn', hn'⟩

/-! An engine without attempts gives every window up. -/

theorem Next.attempts_eq_zero (h : Next cfg allowed p q) (hmax : cfg.maxAttempts = 0)
    (hp : p.engine.attempts = 0) : q.engine.attempts = 0 := by
  have hopened := (attempts_opened p).trans hp
  cases h with
  | operate op => exact hp
  | tick ends _ =>
      cases ends_tick.1 ends with
      | resting stage empty => exact hp
      | abandoned _ spent => exact hmax
      | unanswered _ left fault => exact absurd hopened left
      | busy _ left working => exact absurd hopened left
      | worked _ left ready works => exact absurd hopened left

theorem attempts_of_run (h : ReflTransGen (Next cfg allowed) p q) (hmax : cfg.maxAttempts = 0)
    (hp : p.engine.attempts = 0) : q.engine.attempts = 0 := by
  induction h with
  | refl => exact hp
  | tail _ hstep ih => exact hstep.attempts_eq_zero hmax ih

theorem Ticks.attempts_of_committed (h : Ticks cfg p t .committed q) : p.engine.attempts ≠ 0 := by
  rw [← attempts_opened]
  cases h with
  | worked _ left ready works => exact left

/-! The window that a tick commits is the one that it works on. -/

theorem Writes.length_of_committed (h : Writes cfg p t .committed q) :
    q.engine.length = p.engine.length := by
  cases h with
  | written done => rfl
  | page due part head programs => cases programs

theorem Works.length_of_committed (h : Works cfg p t .committed q) :
    q.engine.length = p.engine.length := by
  cases h with
  | stale _ head needed erases => cases erases
  | fresh _ head spared writes => exact writes.length_of_committed.trans (length_cleared _)
  | resumed _ writes => exact writes.length_of_committed

theorem Ticks.inCommitted_iff (h : Ticks cfg p t .committed q) (hp : p.engine.Steady z m) :
    p.InCommitted q x ↔ z.windowStart m ≤ x ∧ x < z.windowStart (m + 1) := by
  obtain ⟨hopened, hstage⟩ := steady_opened hp
  have hend := hopened.windowAt_add_length hstage
  have hlength : q.engine.length = p.opened.engine.length := by
    cases h with
    | worked _ left ready works => exact works.length_of_committed
  rw [InCommitted, hlength, hp.windowAt_eq, ← hopened.windowAt_eq, hend]

/-! An erase command follows a comparison of the window that asks for it. -/

theorem Writes.ne_erase (h : Writes cfg p t k q) {e : Exchange} (he : e ∈ t) (start : Address)
    (unit : EraseUnit) : e.command ≠ .erase start unit := by
  cases h with
  | written done => simp at he
  | passed due all => simp at he
  | starved due part empty => simp at he
  | page due part head programs =>
      cases programs <;> simp only [List.mem_cons, List.not_mem_nil, or_false] at he
      · simp [he]
      · rcases he with rfl | rfl <;> simp
      · rcases he with rfl | rfl <;> simp

theorem Works.compared_of_erase (h : Works cfg p t k q) {e : Exchange} (he : e ∈ t)
    {start : Address} {unit : EraseUnit} (hc : e.command = .erase start unit) :
    ∃ (block : Bytes) (outcome : Outcome), outcome.needsErase = true ∧
      ⟨.verify p.engine.windowAt (block.take p.engine.length), .ok outcome⟩ ∈ t := by
  cases h with
  | starved _ empty => simp at he
  | unread _ head fault =>
      rw [List.mem_singleton] at he
      subst he
      cases hc
  | @stale _ block head outcome needed _ _ _ erases =>
      exact ⟨block, outcome, needed, List.mem_cons_self⟩
  | fresh _ head spared writes =>
      rcases List.mem_cons.1 he with rfl | he
      · cases hc
      · exact absurd hc (writes.ne_erase he _ _)
  | resumed _ writes => exact absurd hc (writes.ne_erase he _ _)

/-- On a board that finds nothing to erase in an empty window, an erase command
concerns a window that is not empty. -/
theorem Ticks.window_of_erase (h : Ticks cfg p t k q) (hp : p.engine.Steady z m)
    (hempty : ∀ e ∈ t, e.EmptyMatches) {e : Exchange} (he : e ∈ t) {start : Address}
    {unit : EraseUnit} (hc : e.command = .erase start unit) :
    z.windowStart m < z.windowStart (m + 1) := by
  obtain ⟨hopened, hstage⟩ := steady_opened hp
  have hend := hopened.windowAt_add_length hstage
  rw [hopened.windowAt_eq] at hend
  cases h with
  | resting stage empty => simp at he
  | abandoned _ spent =>
      rw [List.mem_singleton] at he
      subst he
      cases hc
  | unanswered _ left fault =>
      simp only [greeting, List.mem_cons, List.not_mem_nil, or_false] at he
      rcases he with rfl | rfl <;> cases hc
  | busy _ left working =>
      simp only [greeting, List.mem_cons, List.not_mem_nil, or_false] at he
      rcases he with rfl | rfl <;> cases hc
  | worked _ left ready works =>
      simp only [greeting, List.cons_append, List.nil_append, List.mem_cons] at he
      rcases he with rfl | rfl | he
      · cases hc
      · cases hc
      obtain ⟨block, outcome, needed, hmem⟩ := works.compared_of_erase he hc
      by_contra hle
      have hzero : p.opened.engine.length = 0 := by omega
      rw [hzero, List.take_zero] at hmem
      have hspared := hempty _ (List.mem_append_right _ hmem) _ _ _ rfl rfl
      rw [needed] at hspared
      cases hspared

/-- Committed windows are spared if every window that may be erased begins, rounded
down to a sector, behind them. -/
theorem sparesCommitted_of (Erased : Nat → Prop)
    (herased : ∀ {m : Nat} {p q : Pipeline} {t : List Exchange} {k : Tick}, Ticks cfg p t k q →
      p.engine.Steady z m → (∀ e ∈ t, allowed e) →
      ∀ e ∈ t, ∀ start unit, e.command = .erase start unit → Erased m)
    (hapart : ∀ m n, m < n → z.windowStart m < z.windowStart (m + 1) → Erased n →
      z.windowStart (m + 1) ≤ z.windowStart n - z.windowStart n % 4096) :
    SparesCommitted cfg allowed z := by
  intro buffer p q p' q' t t' k' hp htick _ hp' htick' hallowed e he x hx hchanges
  rw [ends_tick] at htick htick'
  obtain ⟨m, -, hm⟩ := steady_of_run hp (Engine.steady_loaded z cfg.maxAttempts)
  obtain ⟨n, hmn, hn⟩ := steady_of_run hp' (htick.steady hm)
  rw [htick.inCommitted_iff hm] at hx
  have hmono := z.windowStart_mono hmn
  rcases htick'.le_of_changes hn he hchanges with hle | ⟨hle, start, unit, hc⟩
  · have hnext : z.windowStart (m + Tick.committed.passed) = z.windowStart (m + 1) := rfl
    omega
  · have hspared := hapart m n hmn (by omega) (herased htick' hn hallowed e he start unit hc)
    omega

/-- No page command reaches into a window that was committed before, in any zone. -/
theorem program_spares_committed {buffer : BlockRing} {p' q' : Pipeline} {t' : List Exchange}
    {k' : Tick} (hp : ReflTransGen (Next cfg allowed) ⟨.loaded z cfg.maxAttempts, buffer⟩ p)
    (htick : Dialogue.Ends (p.tick cfg) t (.committed, q))
    (hp' : ReflTransGen (Next cfg allowed) q p')
    (htick' : Dialogue.Ends (p'.tick cfg) t' (k', q')) {e : Exchange} (he : e ∈ t')
    {start : Address} {bytes : Bytes} (hc : e.command = .program start bytes)
    (hx : p.InCommitted q x) : ¬e.command.Changes x := by
  intro hchanges
  rw [ends_tick] at htick htick'
  obtain ⟨m, -, hm⟩ := steady_of_run hp (Engine.steady_loaded z cfg.maxAttempts)
  obtain ⟨n, hmn, hn⟩ := steady_of_run hp' (htick.steady hm)
  rw [htick.inCommitted_iff hm] at hx
  have hmono := z.windowStart_mono hmn
  rcases htick'.le_of_changes hn he hchanges with hle | ⟨-, _, _, herase⟩
  · have hnext : z.windowStart (m + Tick.committed.passed) = z.windowStart (m + 1) := rfl
    omega
  · rw [hc] at herase
    cases herase

theorem sparesCommitted_of_maxAttempts (hmax : cfg.maxAttempts = 0) :
    SparesCommitted cfg allowed z := by
  intro buffer p q p' q' t t' k' hp htick
  have hzero := attempts_of_run hp hmax hmax
  exact absurd hzero (ends_tick.1 htick).attempts_of_committed

end Pipeline

/-- Windows that are not empty begin with a sector if the first one does. -/
theorem Zone.windowStart_apart {z : Zone}
    (hz : z.start.toNat % 4096 = 0 ∨ z.stop.toNat - z.start.toNat ≤ 4096) {m n : Nat}
    (hmn : m < n) (hn : z.windowStart n < z.windowStart (n + 1)) :
    z.windowStart (m + 1) ≤ z.windowStart n - z.windowStart n % 4096 := by
  have hmono := z.windowStart_mono (Nat.succ_le_of_lt hmn)
  have hstart := windowStart_eq (windowStart_lt_succ_iff.1 hn)
  rw [windowStart, windowStart, limit] at hn
  have haligned : z.windowStart n % 4096 = 0 := by omega
  rw [haligned]
  omega

/-- All windows behind the first begin with a sector if the zone ends with one, too. -/
theorem Zone.windowStart_apart_of_stop {z : Zone}
    (hz : z.start.toNat % 4096 = 0 ∨ z.stop.toNat - z.start.toNat ≤ 4096)
    (hstop : z.stop.toNat % 4096 = 0) {m n : Nat} (hmn : m < n)
    (hm : z.windowStart m < z.windowStart (m + 1)) :
    z.windowStart (m + 1) ≤ z.windowStart n - z.windowStart n % 4096 := by
  have hmono := z.windowStart_mono (Nat.succ_le_of_lt hmn)
  have haligned : z.windowStart n % 4096 = 0 := by
    rw [windowStart, windowStart, limit] at hm
    rw [windowStart, limit]
    omega
  rw [haligned]
  omega

namespace Pipeline

variable {cfg : Config} {allowed : Exchange → Prop} {z : Zone} {m n : Nat} {p q : Pipeline}
  {t : List Exchange} {k : Tick}

/-- The engine waits for the window with a number, with all attempts and an empty
buffer. -/
structure Ready (cfg : Config) (z : Zone) (n : Nat) (p : Pipeline) : Prop where
  steady : p.engine.Steady z n
  stage_eq : p.engine.stage = .idle
  attempts_eq : p.engine.attempts = cfg.maxAttempts
  ring : p.buffer.WellFormed
  committed_eq : p.buffer.committed = 0
  fill_eq : p.buffer.fill = 0

theorem ready_loaded (cfg : Config) (z : Zone) :
    Ready cfg z 0 ⟨.loaded z cfg.maxAttempts, .empty⟩ where
  steady := Engine.steady_loaded z cfg.maxAttempts
  stage_eq := rfl
  attempts_eq := rfl
  ring := BlockRing.wellFormed_empty
  committed_eq := rfl
  fill_eq := rfl

def fed (p : Pipeline) : Pipeline := { p with buffer := p.buffer.close }

theorem Ready.next_fed (h : Ready cfg z n p) : Next cfg allowed p p.fed := by
  have hpush : p.buffer.pushBlock [] = some p.buffer.close :=
    BlockRing.pushBlock_nil (by rw [h.committed_eq]; decide) h.fill_eq
  have hnext : Next cfg allowed p { p with buffer := (p.buffer.perform (.pushBlock [])).2 } :=
    .operate p (.pushBlock [])
  rwa [BlockRing.perform, hpush] at hnext

theorem Ready.head_fed (h : Ready cfg z n p) :
    ∃ block, p.fed.buffer.head? = some block ∧ block.length = blockSize := by
  have hclosed := h.ring.toLaid.close (by rw [h.committed_eq]; decide)
  exact ⟨_, rfl, hclosed.toLaid.slot_length _⟩

theorem Ready.stage_fed (h : Ready cfg z n p) : p.fed.opened.engine.stage = .erasing :=
  stage_opened_of_idle h.stage_eq

theorem Ready.tick_fed (h : Ready cfg z n p) (hmax : cfg.maxAttempts ≠ 0) {t : List Exchange}
    {k : Tick} {q : Pipeline} (works : Works cfg p.fed.opened t k q) :
    Dialogue.Ends (p.fed.tick cfg) (p.fed.opened.greeting (.ok 0) ++ t) (k, q) := by
  obtain ⟨block, hhead, -⟩ := h.head_fed
  have hattended : p.fed.Attended := .inr (by simp [hhead])
  have hleft : p.fed.engine.attempts ≠ 0 := h.attempts_eq ▸ hmax
  exact ends_tick.2 (ticks_of_works hattended hleft works)

theorem emptyMatches_greeting (p : Pipeline) (status : Except Fault UInt8) :
    ∀ e ∈ p.greeting status, e.EmptyMatches := by
  intro e he start wanted outcome heq
  simp only [greeting, List.mem_cons, List.not_mem_nil, or_false] at he
  rcases he with rfl | rfl <;> cases heq

theorem Ready.commits (h : Ready cfg z n p) (hmax : cfg.maxAttempts ≠ 0) :
    ∃ t q, Dialogue.Ends (p.fed.tick cfg) t (.committed, q) ∧ (∀ e ∈ t, e.EmptyMatches) ∧
      Ready cfg z (n + 1) q := by
  obtain ⟨block, hhead, -⟩ := h.head_fed
  rw [← buffer_opened] at hhead
  have hdone : (p.fed.opened.compared .same).cleared.engine.last.needsProgram = false := by
    rw [last_cleared]
    rfl
  have hends := h.tick_fed hmax (.fresh h.stage_fed hhead rfl (.written hdone))
  have hleaves := (ends_tick.1 hends).leaves
  refine ⟨_, _, hends, ?_, (ends_tick.1 hends).steady h.steady, hleaves.rests rfl, rfl, ?_, ?_, ?_⟩
  · intro e he
    rcases List.mem_append.1 he with he | he
    · exact emptyMatches_greeting _ _ e he
    · rw [List.mem_singleton] at he
      rintro start wanted outcome heq -
      rw [he] at heq
      cases heq
      rfl
  all_goals rw [hleaves.buffer_eq, if_pos (show Tick.released .committed = 1 from rfl)]
  · exact (h.ring.toLaid.close (by rw [h.committed_eq]; decide)).pop
  · rw [fed, BlockRing.committed_pop, BlockRing.committed_close, h.committed_eq]
  · rw [fed, BlockRing.fill_pop, BlockRing.fill_close]

/-- A window that needs an erase gets it at once, from the window rounded down to a
sector. -/
theorem Ready.erases (h : Ready cfg z n p) (hmax : cfg.maxAttempts ≠ 0) :
    ∃ t q, Dialogue.Ends (p.fed.tick cfg) t (.progress, q) ∧
      (z.windowStart n < z.windowStart (n + 1) → ∀ e ∈ t, e.EmptyMatches) ∧
      ∃ e ∈ t, ∃ start unit, e.command = .erase start unit ∧
        start.toNat = z.windowStart n - z.windowStart n % 4096 := by
  obtain ⟨block, hhead, hblock⟩ := h.head_fed
  obtain ⟨hopened, hstage⟩ := steady_opened (p := p.fed) h.steady
  rw [← buffer_opened] at hhead
  have hends := h.tick_fed hmax
    (.stale h.stage_fed hhead (show Outcome.eraseProgram.needsErase = true from rfl) .started)
  refine ⟨_, _, hends, ?_, ?_⟩
  · intro hlt e he
    rcases List.mem_append.1 he with he | he
    · exact emptyMatches_greeting _ _ e he
    rintro start wanted outcome heq hwanted
    rw [heq] at he
    simp only [List.mem_cons, List.not_mem_nil, or_false, Exchange.mk.injEq] at he
    rcases he with ⟨hverify, -⟩ | ⟨hwe, -⟩ | ⟨herase, -⟩
    · have hend := hopened.windowAt_add_length hstage
      rw [hopened.windowAt_eq] at hend
      have hlength := congrArg List.length (Command.verify.inj hverify).2
      rw [hwanted, List.length_nil, List.length_take, hblock, blockSize] at hlength
      omega
    · cases hwe
    · cases herase
  · have herase : ((p.fed.opened.compared .eraseProgram).eraseBase cfg).toNat =
        z.windowStart n - z.windowStart n % 4096 := by
      rw [eraseBase, Engine.toNat_baseOf_eraseUnit]
      exact congrArg (fun w => w - w % 4096) hopened.windowAt_eq
    have hlast {a b c : Exchange} : c ∈ [a, b, c] := by simp
    exact ⟨_, List.mem_append_right _ hlast, _, _, rfl, herase⟩

/-- The engine can get to every window with nothing left to do. -/
theorem ready_run (hmax : cfg.maxAttempts ≠ 0)
    (hallowed : ∀ e : Exchange, e.EmptyMatches → allowed e) (z : Zone) (n : Nat) :
    ∃ p, ReflTransGen (Next cfg allowed) ⟨.loaded z cfg.maxAttempts, .empty⟩ p ∧
      Ready cfg z n p := by
  induction n with
  | zero => exact ⟨_, .refl, ready_loaded cfg z⟩
  | succ n ih =>
      obtain ⟨p, hrun, hready⟩ := ih
      obtain ⟨t, q, hends, hempty, hnext⟩ := hready.commits hmax
      refine ⟨q, (hrun.tail hready.next_fed).tail (.tick hends ?_), hnext⟩
      exact fun e he => hallowed e (hempty e he)

/-- Where a window does not begin with a sector, its erase command reaches back into
the window before. -/
theorem not_sparesCommitted (hmax : cfg.maxAttempts ≠ 0)
    (hallowed : ∀ e : Exchange, e.EmptyMatches → allowed e)
    (hn : z.windowStart n < z.windowStart (n + 1)) (hunaligned : z.windowStart (n + 1) % 4096 ≠ 0)
    (hnext : z.windowStart (n + 1) < z.windowStart (n + 2) ∨ ∀ e, allowed e) :
    ¬SparesCommitted cfg allowed z := by
  intro hspares
  obtain ⟨p, hrun, hready⟩ := ready_run hmax hallowed z n
  obtain ⟨t, q, hcommit, hempty, hready'⟩ := hready.commits hmax
  obtain ⟨t', q', herase, hempty', e, he, start, unit, hc, hstart⟩ := hready'.erases hmax
  have hreplies : ∀ e ∈ t', allowed e := by
    intro e he
    rcases hnext with hlt | hall
    · exact hallowed e (hempty' hlt e he)
    · exact hall e
  refine hspares (hrun.tail hready.next_fed) hcommit (fun e he => hallowed e (hempty e he))
    (.single hready'.next_fed) herase hreplies e he (z.windowStart (n + 1) - 1) ?_ ?_
  · rw [(ends_tick.1 hcommit).inCommitted_iff hready.steady]
    omega
  · rw [hc]
    rcases unit.size_eq with hs | hs | hs <;> refine ⟨?_, ?_⟩ <;> omega

/-- A zone of more than a window that does not begin with a sector has a second window
that does not. -/
theorem Zone.second_window {z : Zone} (hstart : z.start.toNat % 4096 ≠ 0)
    (hlong : 4096 < z.stop.toNat - z.start.toNat) :
    z.windowStart 0 < z.windowStart 1 ∧ z.windowStart 1 % 4096 ≠ 0 ∧
      z.windowStart 1 < z.windowStart 2 := by
  simp only [Zone.windowStart, Zone.limit]
  omega

/-- The last window of a zone is followed by an empty one at the end of the zone. -/
theorem Zone.last_window {z : Zone} (hne : z.start.toNat < z.stop.toNat) :
    ∃ n, z.windowStart n < z.windowStart (n + 1) ∧ z.windowStart (n + 1) = z.stop.toNat := by
  refine ⟨(z.stop.toNat - z.start.toNat - 1) / 4096, ?_⟩
  simp only [Zone.windowStart, Zone.limit]
  omega

theorem sparesCommitted_iff_of_all :
    SparesCommitted cfg (fun _ => True) z ↔
      cfg.maxAttempts = 0 ∨ z.stop.toNat ≤ z.start.toNat ∨
        z.stop.toNat % 4096 = 0 ∧
          (z.start.toNat % 4096 = 0 ∨ z.stop.toNat - z.start.toNat ≤ 4096) := by
  constructor
  · intro hspares
    by_contra hcond
    push Not at hcond
    obtain ⟨hmax, hne, hstop⟩ := hcond
    by_cases hend : z.stop.toNat % 4096 = 0
    · obtain ⟨hstart, hlong⟩ := hstop hend
      obtain ⟨hn, hunaligned, hnext⟩ := Zone.second_window hstart hlong
      exact not_sparesCommitted hmax (fun _ _ => trivial) hn hunaligned (.inl hnext) hspares
    · obtain ⟨n, hn, hlast⟩ := Zone.last_window hne
      rw [← hlast] at hend
      exact not_sparesCommitted hmax (fun _ _ => trivial) hn hend (.inr fun _ => trivial) hspares
  · rintro (hmax | hinverted | ⟨hstop, hz⟩)
    · exact sparesCommitted_of_maxAttempts hmax
    · refine sparesCommitted_of (fun _ => True) (fun _ _ _ _ _ _ _ _ => trivial) ?_
      intro m n _ hm
      simp only [Zone.windowStart, Zone.limit] at hm
      omega
    · refine sparesCommitted_of (fun _ => True) (fun _ _ _ _ _ _ _ _ => trivial) ?_
      intro m n hmn hm _
      exact Zone.windowStart_apart_of_stop hz hstop hmn hm

theorem sparesCommitted_iff_of_emptyMatches :
    SparesCommitted cfg Exchange.EmptyMatches z ↔
      cfg.maxAttempts = 0 ∨ z.start.toNat % 4096 = 0 ∨ z.stop.toNat - z.start.toNat ≤ 4096 := by
  constructor
  · intro hspares
    by_contra hcond
    push Not at hcond
    obtain ⟨hmax, hstart, hlong⟩ := hcond
    obtain ⟨hn, hunaligned, hnext⟩ := Zone.second_window hstart hlong
    exact not_sparesCommitted hmax (fun _ h => h) hn hunaligned (.inl hnext) hspares
  · rintro (hmax | hz)
    · exact sparesCommitted_of_maxAttempts hmax
    refine sparesCommitted_of (fun n => z.windowStart n < z.windowStart (n + 1)) ?_ ?_
    · intro m p q t k htick hp hempty e he start unit hc
      exact htick.window_of_erase hp hempty he hc
    · intro m n hmn _ hn
      exact Zone.windowStart_apart hz hmn hn

/-- The zones whose committed windows are spared: by every board, and by those that
find nothing to erase in an empty window. -/
theorem sparesCommitted_iff (cfg : Config) (z : Zone) :
    (SparesCommitted cfg (fun _ => True) z ↔
      cfg.maxAttempts = 0 ∨ z.stop.toNat ≤ z.start.toNat ∨
        z.stop.toNat % 4096 = 0 ∧
          (z.start.toNat % 4096 = 0 ∨ z.stop.toNat - z.start.toNat ≤ 4096)) ∧
      (SparesCommitted cfg Exchange.EmptyMatches z ↔
        cfg.maxAttempts = 0 ∨ z.start.toNat % 4096 = 0 ∨
          z.stop.toNat - z.start.toNat ≤ 4096) :=
  ⟨sparesCommitted_iff_of_all, sparesCommitted_iff_of_emptyMatches⟩

/-- The second window of a zone at `0x180` begins at `0x1180`, and erasing its sector
takes the end of the first one with it. -/
theorem not_sparesCommitted_unaligned :
    ¬SparesCommitted {} Exchange.EmptyMatches ⟨.internal, 0x180, 0x3480, "unaligned"⟩ := by
  obtain ⟨hn, hunaligned, hnext⟩ := Zone.second_window
    (z := ⟨.internal, 0x180, 0x3480, "unaligned"⟩) (by decide) (by decide)
  exact not_sparesCommitted (by decide) (fun _ h => h) hn hunaligned (.inl hnext)

end Pipeline

end DfuLoader
