import DfuLoader.Proofs.Address
import DfuLoader.Proofs.TickCases

/-!
# The window cursor

Windows are laid out from the start of the zone in steps of a block, and the last
one is cut off at the end of the zone (`Zone.windowStart`). The engine is always at
the start of one of them: a tick that commits moves it to the next, and every other
tick leaves it (`Steady.ticks`). An erase region begins at the window rounded down
to a sector, whichever region was chosen, and a page command stays inside the
window.
-/

namespace DfuLoader

namespace Zone

/-- Where the windows of a zone end. An inverted zone has only empty ones. -/
def limit (z : Zone) : Nat := max z.start.toNat z.stop.toNat

/-- Where the window with a number starts. Behind the last one they are empty. -/
def windowStart (z : Zone) (n : Nat) : Nat := min (z.start.toNat + 4096 * n) z.limit

theorem limit_lt (z : Zone) : z.limit < 2 ^ 32 := by
  have hstart := Address.toNat_lt z.start
  have hstop := Address.toNat_lt z.stop
  rw [limit]
  omega

theorem windowStart_zero (z : Zone) : z.windowStart 0 = z.start.toNat := by
  rw [windowStart, limit]
  omega

theorem windowStart_le_limit (z : Zone) (n : Nat) : z.windowStart n ≤ z.limit := by
  rw [windowStart]
  omega

/-- A window that starts in the zone follows the full windows before it. -/
theorem windowStart_eq {z : Zone} {n : Nat} (h : z.start.toNat + 4096 * n < z.stop.toNat) :
    z.windowStart n = z.start.toNat + 4096 * n := by
  rw [windowStart, limit]
  omega

theorem windowStart_succ_le_stop {z : Zone} {n : Nat}
    (h : z.start.toNat + 4096 * n < z.stop.toNat) : z.windowStart (n + 1) ≤ z.stop.toNat := by
  rw [windowStart, limit]
  omega

theorem windowStart_lt_succ_iff {z : Zone} {n : Nat} :
    z.windowStart n < z.windowStart (n + 1) ↔ z.start.toNat + 4096 * n < z.stop.toNat := by
  rw [windowStart, windowStart, limit]
  omega

theorem windowStart_mono (z : Zone) {m n : Nat} (h : m ≤ n) :
    z.windowStart m ≤ z.windowStart n := by
  rw [windowStart, windowStart]
  omega

/-- A window is a block long, or what is left of the zone. -/
theorem windowStart_succ (z : Zone) (n : Nat) :
    z.windowStart (n + 1) = z.windowStart n + min 4096 (z.stop.toNat - z.windowStart n) := by
  rw [windowStart, windowStart, limit]
  omega

end Zone

namespace Engine

/-- The engine works on a zone, at the start of the window with a number. -/
structure Placed (z : Zone) (m : Nat) (e : Engine) : Prop where
  zoneStart_eq : e.zoneStart = z.start
  zoneEnd_eq : e.zoneEnd = z.stop
  chip_eq : e.chip = z.chip
  windowAt_eq : e.windowAt.toNat = z.windowStart m
  length_eq : e.stage ≠ .idle → e.length = e.windowLength
  offset_le : e.stage ≠ .idle → e.offset ≤ e.length

/-- The engine between two ticks: a window that is being programmed needs
programming and no erasing. -/
structure Steady (z : Zone) (m : Nat) (e : Engine) : Prop extends Placed z m e where
  last_eq : e.stage = .programming → e.last = .program

variable {z : Zone} {m : Nat} {e : Engine}

theorem steady_loaded (z : Zone) (maxAttempts : UInt8) : (loaded z maxAttempts).Steady z 0 where
  zoneStart_eq := rfl
  zoneEnd_eq := rfl
  chip_eq := rfl
  windowAt_eq := z.windowStart_zero.symm
  length_eq h := absurd rfl h
  offset_le h := absurd rfl h
  last_eq h := by cases h

theorem windowLength_congr {f : Engine} (hend : e.zoneEnd = f.zoneEnd)
    (hwindow : e.windowAt = f.windowAt) : e.windowLength = f.windowLength := by
  rw [windowLength, windowLength, hend, hwindow]

theorem Placed.windowLength_eq (h : e.Placed z m) :
    e.windowAt.toNat + e.windowLength = z.windowStart (m + 1) := by
  rw [z.windowStart_succ, windowLength, Address.toNat_subSat, h.windowAt_eq, h.zoneEnd_eq]
  rfl

theorem Placed.windowAt_add_length (h : e.Placed z m) (hstage : e.stage ≠ .idle) :
    e.windowAt.toNat + e.length = z.windowStart (m + 1) := by
  rw [h.length_eq hstage, h.windowLength_eq]

theorem attempts_pos (h : e.attempts ≠ 0) : 0 < e.attempts.toNat :=
  Nat.pos_of_ne_zero fun hzero => h (UInt8.toNat_inj.1 hzero)

theorem toNat_attempts_spendAttempt (e : Engine) :
    e.spendAttempt.attempts.toNat = e.attempts.toNat - 1 := by
  change (if e.attempts = 0 then 0 else e.attempts - 1).toNat = _
  split
  · rename_i h
    rw [h]
    rfl
  · rename_i h
    have hle : (1 : UInt8) ≤ e.attempts := UInt8.le_iff_toNat_le.2 (attempts_pos h)
    exact UInt8.toNat_sub_of_le _ _ hle

theorem toNat_attempts_spendAttempt_le (e : Engine) :
    e.spendAttempt.attempts.toNat ≤ e.attempts.toNat :=
  e.toNat_attempts_spendAttempt.trans_le (Nat.sub_le _ _)

theorem pageLength_pos (h : e.offset < e.length) : 0 < e.pageLength := by
  rw [pageLength, pageSize]
  omega

theorem Placed.pageAt_eq (h : e.Placed z m) (hstage : e.stage ≠ .idle) :
    e.pageAt.toNat = e.windowAt.toNat + e.offset := by
  have hlength := h.windowAt_add_length hstage
  have hoffset := h.offset_le hstage
  have hnext := z.windowStart_le_limit (m + 1)
  have hlimit := z.limit_lt
  rw [pageAt, Address.toNat_add_ofNat (by omega)]

theorem Placed.rest (h : e.Placed z m) : e.rest.Steady z m where
  zoneStart_eq := h.zoneStart_eq
  zoneEnd_eq := h.zoneEnd_eq
  chip_eq := h.chip_eq
  windowAt_eq := h.windowAt_eq
  length_eq hn := absurd rfl hn
  offset_le hn := absurd rfl hn
  last_eq hn := by cases hn

theorem Placed.endAttempt (h : e.Placed z m) : e.endAttempt.Steady z m where
  zoneStart_eq := h.zoneStart_eq
  zoneEnd_eq := h.zoneEnd_eq
  chip_eq := h.chip_eq
  windowAt_eq := h.windowAt_eq
  length_eq hn := absurd rfl hn
  offset_le hn := absurd rfl hn
  last_eq hn := by cases hn

theorem Placed.giveUp (h : e.Placed z m) (maxAttempts : UInt8) :
    (e.giveUp maxAttempts).Steady z m where
  zoneStart_eq := h.zoneStart_eq
  zoneEnd_eq := h.zoneEnd_eq
  chip_eq := h.chip_eq
  windowAt_eq := h.windowAt_eq
  length_eq hn := absurd rfl hn
  offset_le hn := absurd rfl hn
  last_eq hn := by cases hn

theorem Placed.advance (h : e.Placed z m) (hstage : e.stage ≠ .idle) (maxAttempts : UInt8) :
    (e.advance maxAttempts).Steady z (m + 1) where
  zoneStart_eq := h.zoneStart_eq
  zoneEnd_eq := h.zoneEnd_eq
  chip_eq := h.chip_eq
  windowAt_eq := by
    have hlength := h.windowAt_add_length hstage
    have hnext := z.windowStart_le_limit (m + 1)
    have hlimit := z.limit_lt
    rw [← hlength]
    exact Address.toNat_add_ofNat (by omega)
  length_eq hn := absurd rfl hn
  offset_le hn := absurd rfl hn
  last_eq hn := by cases hn

theorem Placed.openWindow (h : e.Placed z m) : e.openWindow.Steady z m where
  zoneStart_eq := h.zoneStart_eq
  zoneEnd_eq := h.zoneEnd_eq
  chip_eq := h.chip_eq
  windowAt_eq := h.windowAt_eq
  length_eq _ := rfl
  offset_le _ := Nat.zero_le _
  last_eq hn := by cases hn

/-! The host's cursors do not matter to the committing side. -/

theorem Steady.withReceiveAt (h : e.Steady z m) (receiveAt : Address) :
    { e with receiveAt := receiveAt }.Steady z m :=
  ⟨⟨h.zoneStart_eq, h.zoneEnd_eq, h.chip_eq, h.windowAt_eq, h.length_eq, h.offset_le⟩, h.last_eq⟩

theorem Steady.withReadAt (h : e.Steady z m) (readAt : Address) :
    { e with readAt := readAt }.Steady z m :=
  ⟨⟨h.zoneStart_eq, h.zoneEnd_eq, h.chip_eq, h.windowAt_eq, h.length_eq, h.offset_le⟩, h.last_eq⟩

theorem Steady.skipPadding (h : e.Steady z m) : e.skipPadding.Steady z m := by
  rw [Engine.skipPadding]
  exact h.withReceiveAt _

/-- The region to erase begins at the window rounded down to a sector: a larger
region is only taken where it begins at the window itself. -/
theorem toNat_baseOf_eraseUnit (e : Engine) (preferred : EraseUnit) :
    ((e.eraseUnit preferred).baseOf e.windowAt).toNat =
      e.windowAt.toNat - e.windowAt.toNat % 4096 := by
  rw [eraseUnit]
  split
  · rename_i h
    have hbase := congrArg UInt32.toNat h.1
    rw [EraseUnit.toNat_baseOf] at hbase
    rw [h.1]
    rcases preferred.size_eq with hs | hs | hs <;> rw [hs] at hbase <;> omega
  · rw [EraseUnit.toNat_baseOf, EraseUnit.size_sector4K]

/-- A larger region is only taken where it begins with the window and the sum of its start
and its size does not come out behind the zone. -/
theorem eraseUnit_of_large (h : e.eraseUnit preferred ≠ .sector4K) :
    e.eraseUnit preferred = preferred ∧ e.windowAt.toNat % preferred.size.toNat = 0 ∧
      min (e.windowAt.toNat + preferred.size.toNat) (2 ^ 32 - 1) ≤ e.zoneEnd.toNat := by
  rw [eraseUnit] at h ⊢
  split
  · rename_i hcond
    obtain ⟨hbase, hend⟩ := hcond
    have hnat := congrArg UInt32.toNat hbase
    rw [EraseUnit.toNat_baseOf] at hnat
    rw [hbase, UInt32.le_iff_toNat_le, Address.toNat_addSat] at hend
    refine ⟨rfl, ?_, hend⟩
    have hle := Nat.mod_le e.windowAt.toNat preferred.size.toNat
    omega
  · rename_i hcond
    exact absurd (if_neg hcond) h

/-- The region to erase is a sector, or begins at the window and ends inside a zone
that leaves the last sector of the address space alone. -/
theorem size_eraseUnit (e : Engine) (preferred : EraseUnit) (hend : e.zoneEnd.toNat ≤ 0xFFFFF000) :
    e.eraseUnit preferred = .sector4K ∨
      e.windowAt.toNat % 4096 = 0 ∧
        e.windowAt.toNat + (e.eraseUnit preferred).size.toNat ≤ e.zoneEnd.toNat := by
  refine or_iff_not_imp_left.2 fun hlarge => ?_
  obtain ⟨hunit, haligned, hfit⟩ := eraseUnit_of_large hlarge
  rw [hunit]
  rcases preferred.size_eq with hs | hs | hs <;> rw [hs] at haligned hfit ⊢ <;> omega

end Engine

/-- The windows that a tick of some kind leaves behind. -/
def Tick.passed : Tick → Nat
  | .committed => 1
  | _ => 0

namespace Pipeline

variable {cfg : Config} {z : Zone} {m : Nat} {p q : Pipeline} {t : List Exchange} {k : Tick}

theorem opened_of_not_idle (h : p.engine.stage ≠ .idle) : p.opened = p := if_neg h

theorem stage_opened_of_idle (h : p.engine.stage = .idle) : p.opened.engine.stage = .erasing := by
  rw [opened, if_pos h]
  rfl

theorem stage_opened (p : Pipeline) : p.opened.engine.stage ≠ .idle := by
  by_cases hstage : p.engine.stage = .idle
  · rw [stage_opened_of_idle hstage]
    exact fun hn => by cases hn
  · rw [opened_of_not_idle hstage]
    exact hstage

theorem steady_opened (h : p.engine.Steady z m) :
    p.opened.engine.Steady z m ∧ p.opened.engine.stage ≠ .idle := by
  refine ⟨?_, p.stage_opened⟩
  by_cases hstage : p.engine.stage = .idle
  · rw [opened, if_pos hstage]
    exact h.openWindow
  · rw [opened_of_not_idle hstage]
    exact h

theorem buffer_opened (p : Pipeline) : p.opened.buffer = p.buffer := by
  rw [opened]
  split <;> rfl

theorem attempts_opened (p : Pipeline) : p.opened.engine.attempts = p.engine.attempts := by
  rw [opened]
  split <;> rfl

/-- With attempts left, any work that there is may be done next. -/
theorem ticks_of_works (hattended : p.Attended) (hleft : p.engine.attempts ≠ 0)
    (works : Works cfg p.opened t k q) : Ticks cfg p (p.opened.greeting (.ok 0) ++ t) k q :=
  .worked hattended (by rwa [attempts_opened]) (by decide) works

/-- The window that an idle engine opens may have to be erased. -/
theorem ticks_erasing (cfg : Config) (hstage : p.engine.stage = .idle)
    (hleft : p.engine.attempts ≠ 0) (hhead : p.buffer.head? ≠ none) :
    ∃ (block : Bytes) (q : Pipeline), Ticks cfg p
      (p.opened.greeting (.ok 0) ++
        [⟨.verify p.opened.engine.windowAt (block.take p.opened.engine.length), .ok .eraseProgram⟩,
          ⟨.writeEnable, .ok ()⟩,
          ⟨.erase (p.opened.eraseBase cfg) (p.opened.engine.eraseUnit cfg.eraseUnit), .ok ()⟩])
      .progress q := by
  obtain ⟨block, hblock⟩ := Option.ne_none_iff_exists'.1 hhead
  rw [← buffer_opened] at hblock
  have needed : Outcome.eraseProgram.needsErase = true := rfl
  have works : Works cfg p.opened _ _ _ :=
    .stale (stage_opened_of_idle hstage) hblock needed .started
  exact ⟨block, _, ticks_of_works (.inr hhead) hleft works⟩

theorem placed_compared (h : p.engine.Placed z m) (outcome : Outcome) :
    (p.compared outcome).engine.Placed z m :=
  ⟨h.zoneStart_eq, h.zoneEnd_eq, h.chip_eq, h.windowAt_eq, h.length_eq, h.offset_le⟩

theorem placed_programming (h : p.engine.Placed z m) (hstage : p.engine.stage ≠ .idle)
    (erasedTo : Address) : (p.programming erasedTo).engine.Placed z m where
  zoneStart_eq := h.zoneStart_eq
  zoneEnd_eq := h.zoneEnd_eq
  chip_eq := h.chip_eq
  windowAt_eq := h.windowAt_eq
  length_eq _ := (h.length_eq hstage).trans (Engine.windowLength_congr rfl rfl)
  offset_le _ := h.offset_le hstage

theorem placed_cleared (h : p.engine.Placed z m) (hstage : p.engine.stage ≠ .idle) :
    p.cleared.engine.Placed z m := by
  rw [cleared]
  exact placed_programming h hstage _

theorem Programs.steady {block : Bytes} (h : Programs p block t k q)
    (hp : p.engine.Steady z m) (hstage : p.engine.stage = .programming) :
    q.engine.Steady z (m + k.passed) := by
  have hne : p.engine.stage ≠ .idle := by simp [hstage]
  cases h with
  | locked fault => exact hp.endAttempt
  | refused fault => exact hp.endAttempt
  | started =>
      have hoffset := hp.offset_le hne
      refine ⟨⟨hp.zoneStart_eq, hp.zoneEnd_eq, hp.chip_eq, hp.windowAt_eq, hp.length_eq, ?_⟩,
        hp.last_eq⟩
      intro _
      have hpage : p.engine.pageLength ≤ p.engine.length - p.engine.offset := by
        rw [Engine.pageLength]
        omega
      change p.engine.offset + p.engine.pageLength ≤ p.engine.length
      omega

theorem Writes.steady (h : Writes cfg p t k q) (hp : p.engine.Placed z m)
    (hstage : p.engine.stage = .programming) (hlast : p.engine.last.needsErase = false) :
    q.engine.Steady z (m + k.passed) := by
  have hne : p.engine.stage ≠ .idle := by simp [hstage]
  cases h with
  | written done => exact hp.advance hne _
  | passed due all => exact hp.endAttempt
  | starved due part empty => exact hp.rest
  | page due part head programs =>
      refine programs.steady ⟨hp, fun _ => ?_⟩ hstage
      cases hl : p.engine.last <;> simp_all [Outcome.needsErase, Outcome.needsProgram]

theorem Erases.steady (h : Erases cfg p t k q) (hp : p.engine.Placed z m)
    (hstage : p.engine.stage = .erasing) : q.engine.Steady z (m + k.passed) := by
  have herasing : (p.erasing (p.eraseBase cfg)).engine.Placed z m :=
    ⟨hp.zoneStart_eq, hp.zoneEnd_eq, hp.chip_eq, hp.windowAt_eq, hp.length_eq, hp.offset_le⟩
  cases h with
  | locked fault => exact herasing.endAttempt
  | refused fault => exact herasing.endAttempt
  | started =>
      refine ⟨⟨hp.zoneStart_eq, hp.zoneEnd_eq, hp.chip_eq, hp.windowAt_eq, hp.length_eq,
        hp.offset_le⟩, ?_⟩
      intro hprogramming
      exact absurd (hstage.symm.trans hprogramming) (by simp)

/-- An open window that is not being compared is being programmed. -/
theorem stage_eq_programming (hidle : p.engine.stage ≠ .idle)
    (herasing : p.engine.stage ≠ .erasing) : p.engine.stage = .programming := by
  cases h : p.engine.stage with
  | idle => exact absurd h hidle
  | erasing => exact absurd h herasing
  | programming => rfl

theorem Works.steady (h : Works cfg p t k q) (hp : p.engine.Steady z m)
    (hstage : p.engine.stage ≠ .idle) : q.engine.Steady z (m + k.passed) := by
  cases h with
  | starved _ empty => exact hp.rest
  | unread _ head fault => exact hp.endAttempt
  | stale herasing head needed erases =>
      exact erases.steady (placed_compared hp.toPlaced _) herasing
  | @fresh _ _ _ outcome spared _ _ _ writes =>
      have hplaced := placed_cleared (placed_compared hp.toPlaced outcome) hstage
      exact writes.steady hplaced rfl spared
  | resumed hnot writes =>
      have hprogramming := stage_eq_programming hstage hnot
      refine writes.steady hp.toPlaced hprogramming ?_
      rw [hp.last_eq hprogramming]
      rfl

/-- A tick that commits moves the engine to the next window, and no other moves it. -/
theorem Ticks.steady (h : Ticks cfg p t k q) (hp : p.engine.Steady z m) :
    q.engine.Steady z (m + k.passed) := by
  obtain ⟨hopened, hstage⟩ := steady_opened hp
  cases h with
  | resting stage empty => exact hp
  | abandoned _ spent => exact hopened.giveUp _
  | unanswered _ left fault => exact hopened.endAttempt
  | busy _ left working => exact hopened
  | worked _ left ready works => exact works.steady hopened hstage

end Pipeline

end DfuLoader
