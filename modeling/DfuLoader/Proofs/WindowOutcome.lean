import DfuLoader.Host.Ticks
import DfuLoader.Proofs.WindowTurns

/-!
# The outcome of a window

On a healthy board it is known beforehand what becomes of a window that starts with all
attempts: the comparison with what is stored says whether it takes an erase and a
program pass, each costs one attempt, and one attempt has to be left to find the window
written (`window_outcome`). The flash is not worn more than that: the erase and page
commands of the whole run are listed.
-/

namespace DfuLoader

namespace Outcome

def cost (o : Outcome) : Nat := o.needsErase.toNat + o.needsProgram.toNat

theorem cost_le (o : Outcome) : o.cost ≤ 2 := by cases o <;> decide

end Outcome

namespace Pipeline

variable {σ : Type} {cfg : Config} {board : Board σ} {view : Board.View σ} {p q r : Pipeline}
  {block : Bytes} {n cost : Nat} {commands w : List Command} {t : List Exchange} {k : Tick}
  {s s₁ s₂ : σ}

/-- How a window ends that has `n` attempts and needs `cost` of them for these commands. -/
structure Settled (p : Pipeline) (block : Bytes) (n cost : Nat) (commands w : List Command)
    (k : Tick) (f : Flash) : Prop where
  committed : cost < n → k = .committed ∧ p.stored f = p.wanted block ∧ w = commands
  abandoned : n ≤ cost → k = .abandoned ∧ w.count .reboot = 1

def Settles (cfg : Config) (board : Board σ) (view : Board.View σ) (p : Pipeline) (block : Bytes)
    (n cost : Nat) (commands : List Command) (q : Pipeline) (s : σ) : Prop :=
  ∃ w k s', Concludes cfg board q s w k s' ∧
    Settled p block n cost commands w k (view.flash s')

theorem Settles.after {l : List Command}
    (h : Settles cfg board view p block n cost commands r s₁) (leads : Leads cfg board q s l r s₁)
    (hl : l.count .reboot = 0) :
    Settles cfg board view p block (n + 1) (cost + 1) (l ++ commands) q s := by
  obtain ⟨w, k, s', concludes, settled⟩ := h
  refine ⟨l ++ w, k, s', leads.concludes concludes, ?_, ?_⟩
  · intro hlt
    obtain ⟨hk, hstored, hw⟩ := settled.committed (by omega)
    exact ⟨hk, hstored, congrArg _ hw⟩
  · intro hle
    obtain ⟨hk, hcount⟩ := settled.abandoned (by omega)
    exact ⟨hk, by rw [List.count_append, hl, hcount]⟩

namespace Compares

theorem settles_spent (h : Compares p 0 q) (waits : p.Waits block) (s : σ) (cost : Nat)
    (commands : List Command) : Settles cfg board view p block 0 cost commands q s := by
  obtain ⟨s', hconcludes⟩ : ∃ s', Concludes cfg board q s [.reboot] .abandoned s' :=
    h.abandons waits s
  exact ⟨_, _, s', hconcludes, fun hlt => absurd hlt (Nat.not_lt_zero _), fun _ => ⟨rfl, rfl⟩⟩

variable (h : Compares p n q) (healthy : board.Healthy view p.engine.zoneEnd)
  (waits : p.Waits block)

include h healthy waits

theorem settles_written (s : σ)
    (hstored : p.stored (view.flash s) = p.wanted block) :
    Settles cfg board.withReadback view p block n 0 [] q s := by
  cases n with
  | zero => exact h.settles_spent waits s 0 []
  | succ n =>
      obtain ⟨s', hconcludes, hkept⟩ := h.commits healthy waits n.succ_ne_zero s hstored
      exact ⟨_, _, s', hconcludes, fun _ => ⟨rfl, hkept, rfl⟩, fun hle => absurd hle (by omega)⟩

theorem settles_spared (s : σ) {o : Outcome}
    (ho : o = classify (p.wanted block) (p.stored (view.flash s)))
    (hspared : o.needsErase = false) :
    Settles cfg board.withReadback view p block n o.needsProgram.toNat
      (if o.needsProgram then Command.pages p.engine.windowAt (p.wanted block) else []) q s := by
  rw [ho] at hspared
  cases hdue : o.needsProgram with
  | false =>
      rw [ho] at hdue
      exact h.settles_written healthy waits s
        (eq_of_classify (waits.length_stored _) hspared hdue).symm
  | true =>
      cases n with
      | zero => exact h.settles_spent waits s _ _
      | succ n =>
          rw [ho] at hdue
          obtain ⟨q', s', hleads, hcompares, hstored⟩ :=
            h.programs healthy waits n.succ_ne_zero s hspared hdue
          have hsettles := (hcompares.settles_written healthy waits s' hstored).after hleads
            (Command.count_reboot_pages _ _)
          rwa [List.append_nil] at hsettles

/-- What the window needs says how it is settled. -/
theorem settles (cfg : Config) (s : σ) {o : Outcome}
    (ho : o = classify (p.wanted block) (p.stored (view.flash s))) :
    Settles cfg board.withReadback view p block n o.cost
      ((if o.needsErase then [.erase p.engine.windowAt (p.engine.eraseUnit cfg.eraseUnit)]
          else []) ++
        if o.needsProgram then Command.pages p.engine.windowAt (p.wanted block) else []) q s := by
  cases hneed : o.needsErase with
  | false =>
      rw [Outcome.cost, hneed, Bool.toNat_false, Nat.zero_add]
      exact h.settles_spared healthy waits s ho hneed
  | true =>
      cases n with
      | zero => exact h.settles_spent waits s _ _
      | succ n =>
          rw [ho] at hneed
          obtain ⟨q', s', hleads, hcompares, hstored⟩ :=
            h.erases healthy waits cfg n.succ_ne_zero s hneed
          obtain ⟨hspared, hsame⟩ := classify_erased hneed (waits.length_stored _)
          rw [waits.length_wanted, ← hstored] at hspared hsame
          have hsettles := (hcompares.settles_spared healthy waits s' rfl hspared).after hleads rfl
          rw [hsame, ← ho] at hsettles
          have hcost : o.cost = o.needsProgram.toNat + 1 := by
            rw [Outcome.cost, ho, hneed, Bool.toNat_true, Nat.add_comm]
          rw [hcost]
          exact hsettles

end Compares

def finishWindow (cfg : Config) (n : Nat) (seen : Array Tick) (p : Pipeline) :
    Dialogue (Array Tick × Pipeline) :=
  Host.ticksUntil (Pipeline.tick cfg) (fun k => k == .committed || k == .abandoned) n seen p

theorem finishes_iff (k : Tick) :
    (k == Tick.committed || k == Tick.abandoned) = true ↔ k.released = 1 := by
  cases k <;> decide

theorem run_finishWindow (ticks : Ticks cfg p t k q) (plays : board.Plays s t s₁) (n : Nat)
    (seen : Array Tick) :
    (finishWindow cfg (n + 1) seen p).run board s =
        (if k.released = 1 then ((seen.push k, q), s₁)
        else (finishWindow cfg n (seen.push k) q).run board s₁) ∧
      (finishWindow cfg (n + 1) seen p).trace board s =
        t ++ if k.released = 1 then []
          else (finishWindow cfg n (seen.push k) q).trace board s₁ := by
  obtain ⟨hrun, htrace⟩ := plays.run_eq (ends_tick.2 ticks)
  rw [finishWindow, Host.ticksUntil, Dialogue.run_bind, Dialogue.trace_bind, hrun, htrace]
  dsimp only
  by_cases hfinished : k.released = 1
  · rw [if_pos ((finishes_iff k).2 hfinished), if_pos hfinished, if_pos hfinished]
    exact ⟨rfl, rfl⟩
  · rw [if_neg (hfinished ∘ (finishes_iff k).1), if_neg hfinished, if_neg hfinished]
    exact ⟨rfl, rfl⟩

theorem Leads.finishWindow (h : Leads cfg board p s w q s₁) (ticks : Ticks cfg q t k r)
    (plays : board.Plays s₁ t s₂) (finished : k.released = 1) (seen : Array Tick) :
    ∃ (n : Nat) (seen' : Array Tick),
      (finishWindow cfg n seen p).run board s = ((seen'.push k, r), s₂) ∧
      lasting ((finishWindow cfg n seen p).trace board s) = w ++ lasting t := by
  induction h generalizing seen with
  | refl q s =>
      obtain ⟨hrun, htrace⟩ := run_finishWindow ticks plays 0 seen
      rw [if_pos finished] at hrun htrace
      rw [List.append_nil] at htrace
      exact ⟨1, seen, hrun, congrArg lasting htrace⟩
  | @tick _ _ _ _ _ _ t₁ k₁ _ first firstPlays unfinished rest ih =>
      obtain ⟨n, seen', hrest, hlasting⟩ := ih ticks plays (seen.push k₁)
      obtain ⟨hrun, htrace⟩ := run_finishWindow first firstPlays n seen
      rw [if_neg (by omega)] at hrun htrace
      refine ⟨n + 1, seen', hrun.trans hrest, ?_⟩
      rw [htrace, lasting_append, hlasting, List.append_assoc]

/-- On a healthy board the window of a block, begun with all attempts, is committed if it
needs fewer than there are, after no more than an erase and the page commands that it
needs. Otherwise it is given up with one reboot. Three attempts are always enough. -/
theorem window_outcome (healthy : board.Healthy view p.engine.zoneEnd)
    (idle : p.engine.stage = .idle) (fresh : p.engine.attempts = cfg.maxAttempts)
    (aligned : p.engine.windowAt.toNat % 4096 = 0) (inside : p.engine.windowAt < p.engine.zoneEnd)
    (ring : p.buffer.WellFormed) (head : p.buffer.head? = some block) (s : σ) :
    ∃ (n : Nat) (seen : Array Tick) (k : Tick) (q : Pipeline) (s' : σ) (t : List Exchange),
      (finishWindow cfg n #[] p).run board.withReadback s = ((seen.push k, q), s') ∧
      (finishWindow cfg n #[] p).trace board.withReadback s = t ∧
      let o := classify (p.wanted block) (p.stored (view.flash s))
      (o.cost < cfg.maxAttempts.toNat → k = .committed ∧
        p.stored (view.flash s') = p.wanted block ∧
        lasting t =
          (if o.needsErase then [.erase p.engine.windowAt (p.engine.eraseUnit cfg.eraseUnit)]
            else []) ++
          if o.needsProgram then Command.pages p.engine.windowAt (p.wanted block) else []) ∧
      (cfg.maxAttempts.toNat ≤ o.cost → k = .abandoned ∧ (lasting t).count .reboot = 1) ∧
      (3 ≤ cfg.maxAttempts.toNat → k = .committed) := by
  have hfull : block.length = blockSize := by
    obtain ⟨hpos, rfl⟩ := ring.head?_eq_some head
    rw [List.length_take, ring.content_length, blockSize]
    omega
  have hcompares : Compares p cfg.maxAttempts.toNat p := by
    have hopened : p.opened = p.mapEngine .openWindow := if_pos idle
    constructor
    all_goals rw [hopened]
    · exact ⟨rfl, rfl, rfl, rfl⟩
    · rw [← fresh]
      rfl
    all_goals rfl
  obtain ⟨w, k, s', ⟨w₁, q', s₁, t, q, leads, ticks, plays, finished, hw⟩, hsettled⟩ :=
    hcompares.settles healthy ⟨head, hfull, aligned, inside⟩ cfg s rfl
  obtain ⟨n, seen, hrun, hlasting⟩ := leads.finishWindow ticks plays finished #[]
  rw [← hw] at hlasting
  refine ⟨n, seen, k, q, s', _, hrun, rfl, ?_, ?_, ?_⟩
  · rw [hlasting]
    exact hsettled.committed
  · rw [hlasting]
    exact hsettled.abandoned
  · intro hmany
    have hcost := (classify (p.wanted block) (p.stored (view.flash s))).cost_le
    exact (hsettled.committed (by omega)).1

/-- One byte for the smallest zone of the reference board, on chips that are found at work
twice after every erase and program command. -/
theorem window_outcome_one_byte :
    ∃ (p : Pipeline) (block : Bytes) (s s' : TimedFlash) (n : Nat) (seen : Array Tick)
      (q : Pipeline),
      (TimedFlash.chips 2).Healthy TimedFlash.view p.engine.zoneEnd ∧ p.engine.stage = .idle ∧
        p.engine.attempts = ({} : Config).maxAttempts ∧ p.engine.windowAt.toNat % 4096 = 0 ∧
        p.engine.windowAt < p.engine.zoneEnd ∧ p.buffer.WellFormed ∧
        p.buffer.head? = some block ∧ p.stored s.flash ≠ p.wanted block ∧
        (finishWindow {} n #[] p).run (TimedFlash.chips 2).withReadback s =
          ((seen.push .committed, q), s') ∧
        p.stored s'.flash = p.wanted block := by
  let block : Bytes := 0x42 :: List.replicate 4095 erasedByte
  let buffer : BlockRing :=
    { BlockRing.empty with left := block, committed := 1, writing := .right }
  let p : Pipeline := ⟨.loaded ⟨.cartridge, 0, 0x100, "RTC"⟩ 4, buffer⟩
  let s : TimedFlash := ⟨⟨.internal, fun _ _ => 0⟩, 0, false⟩
  have healthy := TimedFlash.healthy_chips 2 p.engine.zoneEnd
  have fresh : p.engine.attempts = ({} : Config).maxAttempts := rfl
  have aligned : p.engine.windowAt.toNat % 4096 = 0 := by decide
  have inside : p.engine.windowAt < p.engine.zoneEnd := by decide
  have ring : p.buffer.WellFormed :=
    { left_length := congrArg (· + 1) List.length_replicate
      right_length := List.length_replicate
      fill_le := Nat.zero_le _
      turned := rfl
      fill_lt := by decide
      committed_le := by decide
      fill_eq_zero := fun _ => rfl }
  have head : p.buffer.head? = some block := rfl
  obtain ⟨n, seen, k, q, s', t, hrun, -, hpaid, -, -⟩ :=
    window_outcome healthy rfl fresh aligned inside ring head s
  have hcost : (classify (p.wanted block) (p.stored s.flash)).cost <
      ({} : Config).maxAttempts.toNat := by decide +kernel
  have hdiffers : p.stored s.flash ≠ p.wanted block := by decide +kernel
  obtain ⟨rfl, hstored, -⟩ := hpaid hcost
  exact ⟨p, block, s, s', n, seen, q, healthy, rfl, fresh, aligned, inside, ring, head, hdiffers,
    hrun, hstored⟩

end Pipeline

end DfuLoader
