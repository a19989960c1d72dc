import DfuLoader.Proofs.Completion
import DfuLoader.Proofs.Integrity

/-!
# Downloading an image again

A download that has committed all its windows leaves the padded image on the chip, as far as it
lies in the zone (`Feeds.keeps`). When the same image is downloaded again, however it is cut up
this time, each window is compared with the block that it stores already. So the engine never
gets beyond comparing: nothing is erased or programmed, not even enabled, and each window is
committed at the first comparison (`Feeds.gentle`).
-/

namespace DfuLoader

/-- The commands that wear a chip, and the one that prepares them. -/
def Command.Wears : Command → Prop
  | .writeEnable | .erase _ _ | .program _ _ => True
  | _ => False

def Flash.Keeps (f : Flash) (z : Zone) (bytes : Bytes) : Prop :=
  ∀ i byte, bytes[i]? = some byte → z.start.toNat + i < z.stop.toNat →
    f.cells z.chip (z.start.toNat + i) = byte

theorem Flash.Keeps.stored {f : Flash} {z : Zone} {bytes : Bytes} (h : f.Keeps z bytes)
    (offset length : Nat)
    (inside : z.start.toNat + offset + ((bytes.drop offset).take length).length ≤ z.stop.toNat) :
    f.stored z.chip (z.start.toNat + offset) ((bytes.drop offset).take length).length =
      (bytes.drop offset).take length := by
  apply List.ext_getElem?
  intro j
  by_cases hj : j < ((bytes.drop offset).take length).length
  · have hbyte := List.getElem?_eq_getElem hj
    have hlt : j < length := (List.length_take ▸ hj).trans_le (min_le_left _ _)
    have hplace : bytes[offset + j]? = some ((bytes.drop offset).take length)[j] := by
      rw [← hbyte, List.getElem?_take_of_lt hlt, List.getElem?_drop]
    have hcell := h _ _ hplace (by omega)
    rw [getElem?_stored _ _ _ hj, hbyte, Nat.add_assoc, hcell]
  · rw [List.getElem?_eq_none (by rw [length_stored]; omega), List.getElem?_eq_none (by omega)]

namespace Board

variable {σ : Type} {board : Board σ} {view : View σ} {stop : Address} {x x' : σ} {p : Pipeline}
  {t : List Exchange}

/-- The exchanges at the start of a tick on a board that can be read: the chip is selected, and
its status is told. -/
theorem Legible.of_greeting (legible : board.Legible view stop) {reply : Except Fault UInt8}
    (h : board.withReadback.Plays x (p.greeting reply ++ t) x') :
    ∃ status x₁, reply = .ok status ∧ ((status &&& busyBit != 0) = false → view.idle x₁) ∧
      view.flash x₁ = { view.flash x with selected := p.engine.chip } ∧
      board.withReadback.Plays x₁ t x' := by
  obtain ⟨x₁, hanswer₁, hflash₁, -⟩ := legible.select x p.engine.chip
  obtain ⟨status, x₂, hanswer₂, hflash₂, hidle⟩ := legible.readStatus x₁
  rw [Pipeline.greeting, List.cons_append, List.cons_append, List.nil_append] at h
  cases h with
  | cons hselect h =>
  cases h with
  | cons hstatus h =>
      cases hanswer₁.symm.trans hselect
      cases hanswer₂.symm.trans hstatus
      exact ⟨status, x₂, rfl, fun hready => by rwa [if_neg (by simp [hready])] at hidle,
        hflash₂.trans hflash₁, h⟩

/-- A comparison on a board that can be read finds what is stored. -/
theorem Legible.of_verify (legible : board.Legible view stop) {start : Address} {wanted : Bytes}
    {reply : Except Fault Outcome} (idle : view.idle x)
    (inside : start.toNat + wanted.length ≤ stop.toNat)
    (h : board.withReadback.Plays x (⟨.verify start wanted, reply⟩ :: t) x') :
    reply = .ok (classify wanted
        ((view.flash x).stored (view.flash x).selected start.toNat wanted.length)) ∧
      ∃ x₁, view.flash x₁ = view.flash x ∧ board.withReadback.Plays x₁ t x' := by
  obtain ⟨x₁, hanswer, hflash, -⟩ := legible.verify idle inside
  cases h with
  | cons hverify h =>
      cases hanswer.symm.trans hverify
      exact ⟨rfl, x₁, hflash, h⟩

end Board

namespace Session

open Dialogue

variable {cfg : Config} {z : Zone} {sent sent' image : Bytes} {n : Nat} {p q : Pipeline}
  {t : List Exchange} {k : Tick} {ks : List Tick} {f f' : Flash}

/-! The first download. -/

theorem keeps_tick (h : Pipeline.Ticks cfg p t k q) (hp : p.Conveys z sent n n)
    (hsent : sent <+: image) (hkeeps : f.Keeps z (image.take (4096 * n)))
    (haligned : z.start.toNat % 4096 = 0) (hrun : f.Run t f') :
    f'.Keeps z (image.take (4096 * (n + k.passed))) := by
  -- what is committed lies before the window
  have hearlier : f'.Keeps z (image.take (4096 * n)) := by
    intro i byte hi hstop
    have hlt := (List.getElem?_eq_some_iff.1 hi).1
    rw [List.length_take] at hlt
    have hcell : f'.cells z.chip (z.start.toNat + i) = f.cells z.chip (z.start.toNat + i) := by
      apply h.cells_eq hp.tracks haligned hrun
      rw [Zone.windowStart, Zone.limit]
      omega
    rw [hcell]
    exact hkeeps i byte hi hstop
  by_cases hk : k = .committed
  · subst hk
    obtain ⟨block, hhead, hstored⟩ := h.stored_of_committed hp.tracks.steady hrun
    obtain ⟨hblock, hle⟩ := hp.block_eq hsent hhead
    have hpos := BlockRing.head?_ne_none_iff.1 (by rw [hhead]; exact Option.some_ne_none _)
    have hwindow := Zone.windowStart_eq (hp.tracks.window_lt hpos)
    change f'.Keeps z (image.take (4096 * (n + 1)))
    rw [Nat.mul_add_one, List.take_add, ← hblock]
    refine Pipeline.kept_append ?_ ?_ hwindow hearlier hstored
    · rw [List.length_take]
      omega
    · rw [hblock, List.length_take, List.length_drop]
      omega
  · have hpassed : k.passed = 0 := by cases k <;> simp_all [Tick.passed]
    rw [hpassed]
    exact hearlier

/-- A download that gives no window up stores what it commits. -/
theorem Feeds.keeps (h : Feeds cfg p sent t ks q image) (hp : p.Conveys z sent n n)
    (hkeeps : f.Keeps z (image.take (4096 * n))) (haligned : z.start.toNat % 4096 = 0)
    (hrun : f.Run t f') (hkept : .abandoned ∉ ks) :
    f'.Keeps z (image.take (4096 * (n + ks.count .committed))) := by
  induction h generalizing n f with
  | rest _ _ =>
      cases hrun
      exact hkeeps
  | @move p p₁ q sent sent₁ image t t' ks ks' moves feeds ih =>
      obtain ⟨f₁, hrun₁, hrun₂⟩ := Flash.run_append.1 hrun
      have hkept₁ : ks.count .abandoned = 0 :=
        List.count_eq_zero.2 fun hmem => hkept (List.mem_append_left _ hmem)
      have hconveys := moves.conveys hp
      rw [hkept₁, Nat.add_zero] at hconveys
      have hkeeps₁ : f₁.Keeps z (image.take (4096 * (n + ks.count .committed))) := by
        cases moves with
        | @tick _ _ _ k _ ticks =>
            have hpassed : [k].count .committed = k.passed := by cases k <;> rfl
            rw [hpassed]
            exact keeps_tick ticks hp feeds.isPrefix hkeeps haligned hrun₁
        | receive _ _ _ _ _ | pad _ _ =>
            cases hrun₁
            exact hkeeps
      rw [List.count_append, ← Nat.add_assoc]
      exact ih hconveys hkeeps₁ hrun₂ fun hmem => hkept (List.mem_append_right _ hmem)

/-! The second download. -/

section Board

variable {σ : Type} {board : Board σ} {view : Board.View σ} {x x' : σ}

/-- The engine has found nothing to program yet, and has attempts left. -/
structure Comparing (e : Engine) : Prop where
  stage_ne : e.stage ≠ .programming
  attempts_ne : e.attempts ≠ 0

/-- What a part of a download does that wears nothing: the windows that it works on are
committed, and the flash stores what it did. -/
structure Gentle (view : Board.View σ) (x : σ) (t : List Exchange) (ks : List Tick) (x' : σ) :
    Prop where
  ticks : ∀ k ∈ ks, k = .idle ∨ k = .busy ∨ k = .committed
  commands : ∀ e ∈ t, ¬e.command.Wears
  cells_eq : (view.flash x').cells = (view.flash x).cells

theorem Comparing.opened (h : Comparing p.engine) :
    p.opened.engine.stage = .erasing ∧ Comparing p.opened.engine := by
  have hattempts := p.attempts_opened ▸ h.attempts_ne
  by_cases hstage : p.engine.stage = .idle
  · have hopened := Pipeline.stage_opened_of_idle hstage
    exact ⟨hopened, by simp [hopened], hattempts⟩
  · rw [Pipeline.opened_of_not_idle hstage] at hattempts ⊢
    refine ⟨?_, h⟩
    cases hs : p.engine.stage with
    | idle => exact absurd hs hstage
    | erasing => rfl
    | programming => exact absurd hs h.stage_ne

theorem stored_window {block : Bytes} (hp : p.Conveys z sent n n) (hsent : sent <+: image)
    (hkeeps : f.Keeps z image) (hstage : p.engine.stage ≠ .idle)
    (hhead : p.buffer.head? = some block) :
    p.engine.windowAt.toNat + (block.take p.engine.length).length ≤ z.stop.toNat ∧
      f.stored z.chip p.engine.windowAt.toNat (block.take p.engine.length).length =
        block.take p.engine.length := by
  obtain ⟨hblock, -⟩ := hp.block_eq hsent hhead
  have hpos := BlockRing.head?_ne_none_iff.1 (by rw [hhead]; exact Option.some_ne_none _)
  have hwindow := hp.tracks.window_lt hpos
  have hstart := hp.tracks.steady.windowAt_eq.trans (Zone.windowStart_eq hwindow)
  have hend := hp.tracks.steady.windowAt_add_length hstage
  have hstop := Zone.windowStart_succ_le_stop hwindow
  have hlength : (block.take p.engine.length).length ≤ p.engine.length := List.length_take_le _ _
  have hinside : p.engine.windowAt.toNat + (block.take p.engine.length).length ≤ z.stop.toNat := by
    omega
  refine ⟨hinside, ?_⟩
  rw [hblock, List.take_take] at hinside ⊢
  rw [hstart] at hinside ⊢
  exact hkeeps.stored _ _ hinside

theorem gentle_works (legible : board.Legible view z.stop) (hmax : cfg.maxAttempts ≠ 0)
    (h : Pipeline.Works cfg p t k q) (hp : p.Conveys z sent n n) (hsent : sent <+: image)
    (hkeeps : (view.flash x).Keeps z image) (hidle : view.idle x)
    (hselected : (view.flash x).selected = z.chip) (hstage : p.engine.stage = .erasing)
    (hcomparing : Comparing p.engine) (hplays : board.withReadback.Plays x t x') :
    Gentle view x t [k] x' ∧ Comparing q.engine := by
  have hverify {block : Bytes} (hhead : p.buffer.head? = some block)
      {reply : Except Fault Outcome} {t' : List Exchange}
      (hplays : board.withReadback.Plays x
        (⟨.verify p.engine.windowAt (block.take p.engine.length), reply⟩ :: t') x') :
      reply = .ok (classify (block.take p.engine.length) (block.take p.engine.length)) ∧
        ∃ x₁, view.flash x₁ = view.flash x ∧ board.withReadback.Plays x₁ t' x' := by
    obtain ⟨hinside, hstored⟩ := stored_window hp hsent hkeeps (by simp [hstage]) hhead
    have hfound := legible.of_verify hidle hinside hplays
    rwa [hselected, hstored] at hfound
  cases h with
  | starved _ _ =>
      cases hplays
      exact ⟨⟨by simp, List.forall_mem_nil _, rfl⟩, by simp [Engine.rest], hcomparing.attempts_ne⟩
  | unread _ head fault =>
      obtain ⟨hreply, -⟩ := hverify head hplays
      cases hreply
  | stale _ head needed _ =>
      obtain ⟨hreply, -⟩ := hverify head hplays
      cases hreply
      exact absurd needed (by simp [(classify_self _).1])
  | @fresh _ block head _ _ _ _ _ writes =>
      obtain ⟨hreply, x₁, hflash, hrest⟩ := hverify head hplays
      cases hreply
      have hspared := (classify_self (block.take p.engine.length)).2
      cases writes with
      | written _ =>
          cases hrest
          refine ⟨⟨by simp, List.forall_mem_singleton.2 id, congrArg Flash.cells hflash⟩, ?_, hmax⟩
          exact show Stage.idle ≠ .programming by decide
      | passed due _ | starved due _ _ | page due _ _ _ =>
          exact absurd (hspared.symm.trans due) (by simp)
  | resumed stage_ne _ => exact absurd hstage stage_ne

theorem Gentle.greeted {x₁ : σ} {reply : Except Fault UInt8} (h : Gentle view x₁ t [k] x')
    (hcells : (view.flash x₁).cells = (view.flash x).cells) :
    Gentle view x (p.greeting reply ++ t) [k] x' where
  ticks := h.ticks
  commands e he := by
    rcases List.mem_append.1 he with he | he
    · simp only [Pipeline.greeting, List.mem_cons, List.not_mem_nil, or_false] at he
      rcases he with rfl | rfl <;> exact id
    · exact h.commands e he
  cells_eq := h.cells_eq.trans hcells

theorem gentle_tick (legible : board.Legible view z.stop) (hmax : cfg.maxAttempts ≠ 0)
    (h : Pipeline.Ticks cfg p t k q) (hp : p.Conveys z sent n n) (hsent : sent <+: image)
    (hkeeps : (view.flash x).Keeps z image) (hcomparing : Comparing p.engine)
    (hplays : board.withReadback.Plays x t x') :
    Gentle view x t [k] x' ∧ Comparing q.engine := by
  obtain ⟨hstage, hopened⟩ := hcomparing.opened
  cases h with
  | resting _ _ =>
      cases hplays
      exact ⟨⟨by simp, List.forall_mem_nil _, rfl⟩, hcomparing⟩
  | abandoned _ spent => exact absurd spent hopened.attempts_ne
  | unanswered _ _ fault =>
      rw [← List.append_nil (p.opened.greeting _)] at hplays
      obtain ⟨_, _, hreply, -⟩ := legible.of_greeting hplays
      cases hreply
  | busy _ _ _ =>
      rw [← List.append_nil (p.opened.greeting _)] at hplays ⊢
      obtain ⟨_, x₁, -, -, hflash, hplays⟩ := legible.of_greeting hplays
      cases hplays
      have hbusy : Gentle view x' [] [.busy] x' := ⟨by simp, List.forall_mem_nil _, rfl⟩
      exact ⟨hbusy.greeted (by rw [hflash]), hopened⟩
  | worked attended left ready works =>
      obtain ⟨status, x₁, hreply, hidle, hflash, hplays⟩ := legible.of_greeting hplays
      cases hreply
      have hcells : (view.flash x₁).cells = (view.flash x).cells := by rw [hflash]
      have hkeeps₁ : (view.flash x₁).Keeps z image := by
        intro i byte hi hstop
        rw [hcells]
        exact hkeeps i byte hi hstop
      have hchip : (view.flash x₁).selected = z.chip := by
        rw [hflash]
        exact (Pipeline.chip_opened p).trans hp.tracks.steady.chip_eq
      -- a tick that finds the chip at work has opened the window and done nothing else
      have hbusy : Pipeline.Ticks cfg p (p.opened.greeting (.ok busyBit)) .busy p.opened :=
        .busy attended left (by decide)
      have hconveys : p.opened.Conveys z sent n n := hbusy.conveys hp
      obtain ⟨hgentle, hcomparing'⟩ := gentle_works legible hmax works hconveys hsent hkeeps₁
        (hidle ready) hchip hstage hopened hplays
      exact ⟨hgentle.greeted hcells, hcomparing'⟩

theorem Gentle.append {x₁ x₂ : σ} {t' : List Exchange} {ks' : List Tick}
    (h : Gentle view x t ks x₁) (h' : Gentle view x₁ t' ks' x₂) :
    Gentle view x (t ++ t') (ks ++ ks') x₂ where
  ticks := List.forall_mem_append.2 ⟨h.ticks, h'.ticks⟩
  commands := List.forall_mem_append.2 ⟨h.commands, h'.commands⟩
  cells_eq := h'.cells_eq.trans h.cells_eq

theorem Gentle.keeps (h : Gentle view x t ks x') (hkeeps : (view.flash x).Keeps z image) :
    (view.flash x').Keeps z image := by
  intro i byte hi hstop
  rw [h.cells_eq]
  exact hkeeps i byte hi hstop

theorem Gentle.count_abandoned (h : Gentle view x t ks x') : ks.count .abandoned = 0 := by
  refine List.count_eq_zero.2 fun hmem => ?_
  rcases h.ticks _ hmem with hk | hk | hk <;> cases hk

theorem gentle_move (legible : board.Legible view z.stop) (hmax : cfg.maxAttempts ≠ 0)
    (h : Moves cfg p sent t ks q sent') (hp : p.Conveys z sent n n) (hsent : sent' <+: image)
    (hkeeps : (view.flash x).Keeps z image) (hcomparing : Comparing p.engine)
    (hplays : board.withReadback.Plays x t x') :
    Gentle view x t ks x' ∧ Comparing q.engine := by
  cases h with
  | tick _ ticks => exact gentle_tick legible hmax ticks hp hsent hkeeps hcomparing hplays
  | receive _ _ _ _ _ =>
      cases hplays
      exact ⟨⟨List.forall_mem_nil _, List.forall_mem_nil _, rfl⟩, hcomparing.stage_ne,
        hcomparing.attempts_ne⟩
  | pad s _ =>
      cases hplays
      obtain ⟨receiveAt, hengine⟩ := s.engine_commitTail
      refine ⟨⟨List.forall_mem_nil _, List.forall_mem_nil _, rfl⟩, ?_⟩
      rw [hengine]
      exact ⟨hcomparing.stage_ne, hcomparing.attempts_ne⟩

/-- A download of what the flash stores already wears nothing. -/
theorem Feeds.gentle (legible : board.Legible view z.stop) (hmax : cfg.maxAttempts ≠ 0)
    (h : Feeds cfg p sent t ks q image) (hp : p.Conveys z sent n n)
    (hkeeps : (view.flash x).Keeps z image) (hcomparing : Comparing p.engine)
    (hplays : board.withReadback.Plays x t x') : Gentle view x t ks x' := by
  induction h generalizing n x with
  | rest _ _ =>
      cases hplays
      exact ⟨List.forall_mem_nil _, List.forall_mem_nil _, rfl⟩
  | move moves feeds ih =>
      obtain ⟨x₁, hplays₁, hplays₂⟩ := hplays.of_append
      obtain ⟨hgentle, hcomparing₁⟩ :=
        gentle_move legible hmax moves hp feeds.isPrefix hkeeps hcomparing hplays₁
      have hconveys := moves.conveys hp
      rw [hgentle.count_abandoned, Nat.add_zero] at hconveys
      exact hgentle.append (ih hconveys (hgentle.keeps hkeeps) hcomparing₁ hplays₂)

variable {limit : Nat} {s s' : Session} {log : List Event} {answers : List Answer}
  {alt alt' : UInt8} {zone : Zone}

/-- The log of a download counts its ticks, but for those after the image was written. -/
theorem count_stepped {js : List Tick} (hjs : ∀ j ∈ js, j = .idle) (hk : k ≠ .idle) :
    ((ks ++ js).map Event.stepped).count (.stepped k) = ks.count k := by
  have hinjective : Function.Injective Event.stepped := fun _ _ h => by cases h; rfl
  have hzero : js.count k = 0 := List.count_eq_zero.2 fun hmem => hk (hjs k hmem)
  rw [List.count_map_of_injective _ _ hinjective, List.count_append, hzero, Nat.add_zero]

/-- A download that has committed all windows of its image leaves the padded image on the
flash. -/
theorem Transfer.keeps (first : Transfer cfg image) (hs : Located cfg s)
    (hzone : cfg.zones.get? alt = some zone) (haligned : zone.start.toNat % 4096 = 0)
    (hends : Ends (performAllLogged cfg limit (first.operations alt) s) t (log, some (answers, s')))
    (hcompleted : Completed answers s') (hrun : f.Run t f')
    (hall : log.count (.stepped .committed) = windows image) : f'.Keeps zone image.padToBlock := by
  obtain ⟨ks, js, q, rfl, hjs, hfeeds, hempty, hcount⟩ := first.feeds hs hzone hends hcompleted
  rw [count_stepped hjs (by decide)] at hall
  have hkept : .abandoned ∉ ks := List.count_eq_zero.1 (by omega)
  have hconveys := Pipeline.conveys_loaded zone cfg.maxAttempts hs.wellFormed
  have hkeeps : f.Keeps zone (image.padToBlock.take (4096 * 0)) := fun i byte hi => by cases hi
  have hwhole := hfeeds.keeps hconveys hkeeps haligned hrun hkept
  rw [Nat.zero_add, hall] at hwhole
  have hlength : image.padToBlock.length ≤ 4096 * windows image := by
    rw [Bytes.length_padToBlock, ← windows, blockSize]
    omega
  rwa [List.take_of_length_le hlength] at hwhole

/-- A download of an image that wore nothing: all its windows were committed, nothing was
enabled, erased or programmed, and the chips store what they did. -/
structure Harmless (view : Board.View σ) (image : Bytes) (x : σ) (t : List Exchange)
    (log : List Event) (x' : σ) : Prop where
  commands : ∀ e ∈ t, ¬e.command.Wears
  committed : log.count (.stepped .committed) = windows image
  cells_eq : (view.flash x').cells = (view.flash x).cells

theorem Transfer.harmless (second : Transfer cfg image) (legible : board.Legible view zone.stop)
    (hmax : cfg.maxAttempts ≠ 0) (hs : Located cfg s) (hzone : cfg.zones.get? alt = some zone)
    (hkeeps : (view.flash x).Keeps zone image.padToBlock)
    (hrun : (performAllLogged cfg limit (second.operations alt) s).run board.withReadback x =
      ((log, some (answers, s')), x'))
    (hcompleted : Completed answers s') :
    Harmless view image x
      ((performAllLogged cfg limit (second.operations alt) s).trace board.withReadback x)
      log x' := by
  have hplays := board.withReadback.plays_run
    (performAllLogged cfg limit (second.operations alt) s) x
  rw [hrun] at hplays
  obtain ⟨ks, js, q, rfl, hjs, hfeeds, -, hcount⟩ :=
    second.feeds hs hzone (ends_of_run hrun) hcompleted
  have hconveys := Pipeline.conveys_loaded zone cfg.maxAttempts hs.wellFormed
  have hcomparing : Comparing (s.loaded cfg alt zone).engine :=
    ⟨show Stage.idle ≠ .programming by decide, hmax⟩
  have hgentle := hfeeds.gentle legible hmax hconveys hkeeps hcomparing hplays
  have hkept := hgentle.count_abandoned
  refine ⟨hgentle.commands, ?_, hgentle.cells_eq⟩
  rw [count_stepped hjs (by decide)]
  omega

/-- When a download has committed all the windows of its image, and the chips store the same
since, then downloading the image once more wears nothing, however it is cut up and whatever
ticks and status requests there are in between. It comes to its end if the host waits for
enough ticks. -/
theorem repeated_download (haligned : zone.start.toNat % 4096 = 0) (hmax : cfg.maxAttempts ≠ 0)
    {s s₁ s₂ : Session} (hs : Reachable cfg s) (hzone : cfg.zones.get? alt = some zone)
    (first : Transfer cfg image)
    (hfirst : Ends (performAllLogged cfg limit (first.operations alt) s) t
      (log, some (answers, s₁)))
    (hcompleted : Completed answers s₁) (hrun : f.Run t f')
    (hall : log.count (.stepped .committed) = windows image)
    (hs₂ : Reachable cfg s₂) (hzone' : cfg.zones.get? alt' = some zone)
    (legible : board.Legible view zone.stop) (hsame : (view.flash x).cells = f'.cells)
    (second : Transfer cfg image) :
    (∀ limit log answers s₃ x₃,
      (performAllLogged cfg limit (second.operations alt') s₂).run board.withReadback x =
        ((log, some (answers, s₃)), x₃) → Completed answers s₃ →
      Harmless view image x
        ((performAllLogged cfg limit (second.operations alt') s₂).trace board.withReadback x)
        log x₃) ∧
    ∃ ticks steps, ∀ other : Transfer cfg image, other.sending = second.sending →
      AsksAfter ticks other.waiting → ∀ limit, steps ≤ limit → ∃ log answers s₃ x₃,
        (performAllLogged cfg limit (other.operations alt') s₂).run board.withReadback x =
          ((log, some (answers, s₃)), x₃) ∧ s₃.state = .idle := by
  have hkeeps : (view.flash x).Keeps zone image.padToBlock := by
    intro i byte hi hstop
    rw [hsame]
    exact first.keeps hs.located hzone haligned hfirst hcompleted hrun hall i byte hi hstop
  constructor
  · intro limit log answers s₃ x₃ hsecond hended
    exact second.harmless legible hmax hs₂.located hzone' hkeeps hsecond hended
  · obtain ⟨ticks, steps, hends⟩ :=
      second.reachesIdle legible.settles.withReadback hs₂.located hzone' x
    refine ⟨ticks, steps, fun other hsending hasks limit hlimit => ?_⟩
    obtain ⟨answers, s₃, x₃, hsecond, hidle⟩ := hends other hsending hasks limit hlimit
    obtain ⟨log, hlogged⟩ := exists_log_run hsecond
    exact ⟨log, answers, s₃, x₃, hlogged, hidle⟩

end Board

/-- 130 bytes for the smallest zone of the reference board, over cells that have to be erased
first, and then once more in other blocks, on chips that are found at work at first. -/
theorem repeated_download_smallestZone :
    ∃ (image : Bytes) (first second : Transfer {} image) (f f' : Flash) (t : List Exchange)
        (log log' : List Event) (answers answers' : List Answer) (s s' : Session)
        (x x' : TimedFlash),
      image.length = 130 ∧ chunks first.sending ≠ chunks second.sending ∧
        f.cells .cartridge 0 = 0 ∧ f'.cells .cartridge 0 = 0x42 ∧ x.flash.cells = f'.cells ∧
        Ends (performAllLogged {} 4 (first.operations 6) (initial {})) t (log, some (answers, s)) ∧
        Completed answers s ∧ f.Run t f' ∧ log.count (.stepped .committed) = windows image ∧
        (performAllLogged {} 4 (second.operations 6) (initial {})).run
          (TimedFlash.chips 1).withReadback x = ((log', some (answers', s')), x') ∧
        Completed answers' s' ∧
        Harmless TimedFlash.view image x
          ((performAllLogged {} 4 (second.operations 6) (initial {})).trace
            (TimedFlash.chips 1).withReadback x) log' x' := by
  let zone : Zone := ⟨.cartridge, 0, 0x100, "RTC"⟩
  let image : Bytes := List.replicate 130 0x42
  let first : Transfer {} image :=
    { sending := [.download (List.replicate 128 0x42), .tick, .getStatus, .download [0x42, 0x42]]
      waiting := [.tick, .getStatus]
      sends := by simp [Operation.Sends]
      waits := by simp [Operation.Waits]
      full := by simp [chunks]
      flatten_eq := rfl }
  let second : Transfer {} image :=
    { sending := [.download (List.replicate 129 0x42), .getStatus, .download [0x42], .tick]
      waiting := [.getStatus]
      sends := by simp [Operation.Sends]
      waits := by simp [Operation.Waits]
      full := by simp [chunks]
      flatten_eq := rfl }
  let f : Flash := ⟨.internal, fun _ _ => 0⟩
  let d := performAllLogged {} 4 (first.operations 6) (initial {})
  let d' := performAllLogged {} 4 (second.operations 6) (initial {})
  have hfirst : (d.run Flash.chips.withReadback f).1.1.count (.stepped .committed) =
        windows image ∧
      (d.run Flash.chips.withReadback f).2.cells .cartridge 0 = 0x42 ∧
      ∃ r ∈ (d.run Flash.chips.withReadback f).1.2, Completed r.1 r.2 := by decide +kernel
  have hsecond : ∃ r ∈ (d'.run (TimedFlash.chips 1).withReadback
      ⟨(d.run Flash.chips.withReadback f).2, 2, false⟩).1.2, Completed r.1 r.2 := by
    decide +kernel
  have hends := ends_run Flash.chips.withReadback d f
  have hrun := Flash.run_chips d f
  generalize d.run Flash.chips.withReadback f = r at hfirst hsecond hends hrun
  obtain ⟨⟨log, _⟩, f'⟩ := r
  obtain ⟨hall, hstored, ⟨answers, s⟩, rfl, hcompleted⟩ := hfirst
  dsimp only at hsecond
  generalize hlogged : d'.run (TimedFlash.chips 1).withReadback ⟨f', 2, false⟩ = r' at hsecond
  obtain ⟨⟨log', _⟩, x'⟩ := r'
  obtain ⟨⟨answers', s'⟩, rfl, hcompleted'⟩ := hsecond
  have haligned : zone.start.toNat % 4096 = 0 := rfl
  have hmax : ({} : Config).maxAttempts ≠ 0 := by decide
  have hzone : ({} : Config).zones.get? 6 = some zone := rfl
  have legible := (TimedFlash.healthy_chips 1 zone.stop).toLegible
  obtain ⟨hharmless, -⟩ := repeated_download haligned hmax .initial hzone first hends hcompleted
    hrun hall .initial hzone legible (x := ⟨f', 2, false⟩) rfl second
  exact ⟨image, first, second, f, f', _, log, log', answers, answers', s, s', _, x',
    List.length_replicate, by decide +kernel, rfl, hstored, rfl, hends, hcompleted, hrun, hall,
    hlogged, hcompleted', hharmless _ _ _ _ _ hlogged hcompleted'⟩

end Session

end DfuLoader
