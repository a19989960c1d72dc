import DfuLoader.Flash.Readback
import DfuLoader.Proofs.CheckedRing
import DfuLoader.Proofs.Tracking

/-!
# The engine in arithmetic that traps

A tick and the comparison by reading back, written out with every sum, difference and index
checked. They never trap where the window that is worked on is at most a block long and
begins before `0xFFFFF000` (`Pipeline.Bounded`), so that a block behind it still has an
address. The cursors of every reachable session keep to that as long as the zones end there.
-/

namespace DfuLoader

open Trap Guarded

namespace EraseUnit

def checkedBaseOf (unit : EraseUnit) (a : Address) : Except Trap Address := do
  let mask ← distance unit.size 1
  return a &&& ~~~mask

theorem checkedBaseOf_eq (unit : EraseUnit) (a : Address) :
    unit.checkedBaseOf a = .ok (unit.baseOf a) := by
  have hsize : (1 : Address).toNat ≤ unit.size.toNat := by cases unit <;> decide
  rw [checkedBaseOf, distance_eq_ok hsize, ok_bind, pure_eq_ok, baseOf]

end EraseUnit

namespace Engine

def checkedEraseUnit (e : Engine) (preferred : EraseUnit) : Except Trap EraseUnit := do
  let base ← preferred.checkedBaseOf e.windowAt
  return if base = e.windowAt ∧ Address.addSat base preferred.size ≤ e.zoneEnd then preferred
    else .sector4K

def checkedSkipPadding (e : Engine) : Except Trap Engine := do
  let received ← distance e.receiveAt e.zoneStart
  let block := UInt32.ofNat blockSize
  let blocks := Address.divCeil received block
  return { e with
    receiveAt := min (Address.addSat e.zoneStart (Address.mulSat blocks block)) e.zoneEnd }

theorem checkedEraseUnit_eq (e : Engine) (preferred : EraseUnit) :
    e.checkedEraseUnit preferred = .ok (e.eraseUnit preferred) := by
  rw [checkedEraseUnit, EraseUnit.checkedBaseOf_eq, ok_bind, pure_eq_ok, eraseUnit]

theorem checkedSkipPadding_eq {e : Engine} (h : e.zoneStart.toNat ≤ e.receiveAt.toNat) :
    e.checkedSkipPadding = .ok e.skipPadding := by
  rw [checkedSkipPadding, distance_eq_ok h, ok_bind, pure_eq_ok, skipPadding, paddedReceive]

end Engine

namespace Pipeline

def checkedCommit (cfg : Config) (p : Pipeline) : Guarded (Tick × Pipeline) := do
  let windowAt ← check (advance p.engine.windowAt p.engine.length)
  let buffer ← check p.buffer.checkedPop
  ask (.done (.committed,
    { engine := { p.engine.rest with windowAt := windowAt, attempts := cfg.maxAttempts }
      buffer := buffer }))

def checkedAbandon (cfg : Config) (p : Pipeline) : Guarded (Tick × Pipeline) := do
  let buffer ← check p.buffer.checkedPop
  ask Dialogue.reboot
  ask (.done (.abandoned, { engine := p.engine.giveUp cfg.maxAttempts, buffer := buffer }))

def checkedProgramPage (p : Pipeline) (block : Bytes) : Guarded (Tick × Pipeline) := do
  let start ← check (advance p.engine.windowAt p.engine.offset)
  let page ← check (sub pageSize (start.toNat % pageSize))
  let left ← check (sub p.engine.length p.engine.offset)
  let length := min left page
  orFail p.failed Dialogue.writeEnable fun _ => do
    let stop ← check (add 32 p.engine.offset length)
    let bytes ← check (slice block p.engine.offset stop)
    orFail p.failed (Dialogue.program start bytes) fun _ => do
      let offset ← check (add 32 p.engine.offset length)
      ask (.done (.progress, p.mapEngine fun e => { e with offset := offset }))

def checkedWrite (cfg : Config) (p : Pipeline) : Guarded (Tick × Pipeline) :=
  if p.engine.last.needsProgram = false then p.checkedCommit cfg
  else if p.engine.offset = p.engine.length then
    ask (.done (.progress, p.mapEngine .endAttempt))
  else do
    match ← check p.buffer.checkedHead? with
    | none => ask (.done p.starved)
    | some block => p.checkedProgramPage block

def checkedErase (cfg : Config) (p : Pipeline) : Guarded (Tick × Pipeline) := do
  let unit ← check (p.engine.checkedEraseUnit cfg.eraseUnit)
  let base ← check (unit.checkedBaseOf p.engine.windowAt)
  let p := p.mapEngine fun e => { e with erasedTo := base }
  orFail p.failed Dialogue.writeEnable fun _ =>
    orFail p.failed (Dialogue.erase base unit) fun _ => do
      let erasedTo ← check (advance base unit.size.toNat)
      ask (.done (.progress, p.mapEngine fun e => { e.spendAttempt with erasedTo := erasedTo }))

def checkedResolve (cfg : Config) (p : Pipeline) : Guarded (Tick × Pipeline) :=
  if p.engine.last.needsErase then p.checkedErase cfg
  else do
    let erasedTo ← check (advance p.engine.windowAt blockSize)
    (p.mapEngine fun e => { e with erasedTo := erasedTo, stage := .programming }).checkedWrite cfg

def checkedExamine (cfg : Config) (p : Pipeline) : Guarded (Tick × Pipeline) := do
  match ← check p.buffer.checkedHead? with
  | none => ask (.done p.starved)
  | some block =>
      let wanted ← check (slice block 0 p.engine.length)
      orFail p.failed (Dialogue.verify p.engine.windowAt wanted) fun outcome =>
        (p.mapEngine fun e => { e with last := outcome }).checkedResolve cfg

def checkedWork (cfg : Config) (p : Pipeline) : Guarded (Tick × Pipeline) :=
  if p.engine.stage = .erasing then p.checkedExamine cfg else p.checkedWrite cfg

def checkedProceed (cfg : Config) (p : Pipeline) : Guarded (Tick × Pipeline) :=
  if p.engine.attempts = 0 then p.checkedAbandon cfg
  else do
    ask (Dialogue.select p.engine.chip)
    orFail p.failed Dialogue.readStatus fun status =>
      if status &&& busyBit != 0 then ask (.done (.busy, p)) else p.checkedWork cfg

def checkedTick (cfg : Config) (p : Pipeline) : Guarded (Tick × Pipeline) :=
  if p.engine.stage ≠ .idle then p.checkedProceed cfg
  else do
    match ← check p.buffer.checkedHead? with
    | none => ask (.done (.idle, p))
    | some _ => (p.mapEngine .openWindow).checkedProceed cfg

/-- The window that is open lies where arithmetic is safe. -/
structure Bounded (p : Pipeline) : Prop where
  ring : p.buffer.WellFormed
  windowAt_lt : p.engine.windowAt.toNat < 0xFFFFF000
  zoneEnd_le : p.engine.zoneEnd.toNat ≤ 0xFFFFF000
  length_le : p.engine.length ≤ blockSize
  offset_le : p.engine.offset ≤ p.engine.length

variable {cfg : Config} {p : Pipeline}

theorem Bounded.compared (h : p.Bounded) (outcome : Outcome) : (p.compared outcome).Bounded :=
  ⟨h.ring, h.windowAt_lt, h.zoneEnd_le, h.length_le, h.offset_le⟩

theorem Bounded.programming (h : p.Bounded) (erasedTo : Address) :
    (p.programming erasedTo).Bounded :=
  ⟨h.ring, h.windowAt_lt, h.zoneEnd_le, h.length_le, h.offset_le⟩

theorem Bounded.length_head (h : p.Bounded) {block : Bytes} (hhead : p.buffer.head? = some block) :
    block.length = blockSize := by
  rw [BlockRing.head?] at hhead
  split at hhead
  · cases hhead
  · cases hhead
    exact h.ring.slot_length _

theorem Bounded.checkedCommit_eq (h : p.Bounded) :
    p.checkedCommit cfg = ask (.done (p.commit cfg)) := by
  have hwindow := h.windowAt_lt
  have hlength := h.length_le
  rw [blockSize] at hlength
  rw [checkedCommit, advance_eq_ok (by omega), check_ok_bind, BlockRing.checkedPop_eq,
    check_ok_bind]
  rfl

theorem checkedAbandon_eq (cfg : Config) (p : Pipeline) :
    p.checkedAbandon cfg = ask (p.abandon cfg) := by
  rw [checkedAbandon, BlockRing.checkedPop_eq, check_ok_bind]
  exact ask_bind fun _ _ _ => rfl

theorem Bounded.checkedProgramPage_eq (h : p.Bounded) {block : Bytes}
    (hhead : p.buffer.head? = some block) :
    p.checkedProgramPage block = ask (p.programPage block) := by
  have hblock := h.length_head hhead
  have hwindow := h.windowAt_lt
  have hlength := h.length_le
  have hoffset := h.offset_le
  have hpage : p.engine.pageAt.toNat % pageSize < pageSize := Nat.mod_lt _ (by decide)
  have hle : p.engine.pageLength ≤ p.engine.length - p.engine.offset := by
    rw [Engine.pageLength]
    omega
  rw [blockSize] at hlength hblock
  rw [checkedProgramPage, advance_eq_ok (by omega), check_ok_bind, ← Engine.pageAt,
    sub_eq_ok hpage.le, check_ok_bind, sub_eq_ok hoffset, check_ok_bind]
  dsimp only
  rw [← Engine.pageLength]
  refine orFail_eq fun _ => ?_
  rw [add_eq_ok (by omega), check_ok_bind, slice_eq_ok (by omega) (by omega), check_ok_bind,
    Nat.add_sub_cancel_left]
  exact orFail_eq fun _ => rfl

theorem Bounded.checkedWrite_eq (h : p.Bounded) : p.checkedWrite cfg = ask (p.write cfg) := by
  rw [checkedWrite, write]
  split
  · exact h.checkedCommit_eq
  split
  · rfl
  rw [BlockRing.checkedHead?_eq, check_ok_bind]
  cases hhead : p.buffer.head? with
  | none => rfl
  | some block => exact h.checkedProgramPage_eq hhead

/-- The region to erase ends before the address space does. -/
theorem Bounded.erase_lt (h : p.Bounded) (preferred : EraseUnit) :
    ((p.engine.eraseUnit preferred).baseOf p.engine.windowAt).toNat +
      (p.engine.eraseUnit preferred).size.toNat < 2 ^ 32 := by
  have hwindow := h.windowAt_lt
  have hend := h.zoneEnd_le
  rw [p.engine.toNat_baseOf_eraseUnit]
  rcases p.engine.size_eraseUnit preferred hend with hunit | ⟨-, hfit⟩
  · rw [hunit, EraseUnit.size_sector4K]
    omega
  · omega

theorem Bounded.checkedErase_eq (h : p.Bounded) : p.checkedErase cfg = ask (p.erase cfg) := by
  have hregion := h.erase_lt cfg.eraseUnit
  rw [checkedErase, Engine.checkedEraseUnit_eq, check_ok_bind, EraseUnit.checkedBaseOf_eq,
    check_ok_bind]
  refine orFail_eq fun _ => orFail_eq fun _ => ?_
  rw [advance_eq_ok hregion, check_ok_bind, UInt32.ofNat_toNat]
  rfl

theorem Bounded.checkedResolve_eq (h : p.Bounded) : p.checkedResolve cfg = ask (p.resolve cfg) := by
  have hbehind : p.engine.windowAt.toNat + blockSize < 2 ^ 32 := by
    have hwindow := h.windowAt_lt
    rw [blockSize]
    omega
  rw [checkedResolve, resolve]
  split
  · exact h.checkedErase_eq
  · have hcleared : (p.mapEngine fun e =>
        { e with erasedTo := e.windowAt + UInt32.ofNat blockSize, stage := .programming }) =
          p.cleared := by simp only [cleared, Pipeline.programming, Pipeline.mapEngine]
    rw [advance_eq_ok hbehind, check_ok_bind, hcleared]
    exact (h.programming _).checkedWrite_eq

theorem Bounded.checkedExamine_eq (h : p.Bounded) : p.checkedExamine cfg = ask (p.examine cfg) := by
  rw [checkedExamine, examine, BlockRing.checkedHead?_eq, check_ok_bind]
  cases hhead : p.buffer.head? with
  | none => rfl
  | some block =>
      have hlength : p.engine.length ≤ block.length := h.length_head hhead ▸ h.length_le
      dsimp only
      rw [slice_eq_ok (Nat.zero_le _) hlength, check_ok_bind, List.drop_zero, Nat.sub_zero]
      exact orFail_eq fun outcome => (h.compared outcome).checkedResolve_eq

theorem Bounded.checkedWork_eq (h : p.Bounded) : p.checkedWork cfg = ask (p.work cfg) := by
  rw [checkedWork, work]
  split
  · exact h.checkedExamine_eq
  · exact h.checkedWrite_eq

theorem Bounded.checkedProceed_eq (h : p.Bounded) : p.checkedProceed cfg = ask (p.proceed cfg) := by
  rw [checkedProceed, proceed]
  split
  · exact checkedAbandon_eq cfg p
  refine ask_bind fun _ _ _ => orFail_eq fun status => ?_
  split
  · rfl
  · exact h.checkedWork_eq

variable {z : Zone} {m n : Nat}

/-- The window that a tick opens, or has open, is bounded if its zone is. -/
theorem Tracks.bounded (h : p.Tracks z m n) (hz : z.stop.toNat ≤ 0xFFFFF000)
    (hattended : p.Attended) : p.opened.Bounded := by
  obtain ⟨hsteady, hstage⟩ := steady_opened h.steady
  have hwindow := h.window_lt (h.committed_pos hattended)
  refine ⟨?_, ?_, ?_, ?_, hsteady.offset_le hstage⟩
  · rw [buffer_opened]
    exact h.ring
  · rw [hsteady.windowAt_eq, Zone.windowStart_eq hwindow]
    omega
  · rw [hsteady.zoneEnd_eq]
    exact hz
  · rw [hsteady.length_eq hstage, Engine.windowLength]
    exact Nat.min_le_left _ _

theorem Tracks.checkedTick_eq (h : p.Tracks z m n) (hz : z.stop.toNat ≤ 0xFFFFF000) :
    p.checkedTick cfg = ask (p.tick cfg) := by
  by_cases hattended : p.Attended
  · have hbounded := h.bounded hz hattended
    rw [tick_of_attended hattended, ← hbounded.checkedProceed_eq, checkedTick, opened]
    by_cases hstage : p.engine.stage = .idle
    · obtain ⟨block, hhead⟩ :=
        Option.ne_none_iff_exists'.1 (hattended.resolve_left (not_not_intro hstage))
      rw [if_neg (not_not_intro hstage), if_pos hstage, BlockRing.checkedHead?_eq, check_ok_bind,
        hhead]
    · rw [if_pos hstage, if_neg hstage]
  · have hrest : p.engine.stage = .idle ∧ p.buffer.head? = none := by
      simpa only [Attended, not_or, not_not] using hattended
    rw [checkedTick, tick, if_neg (not_not_intro hrest.1), if_neg (not_not_intro hrest.1),
      if_pos hrest.2, BlockRing.checkedHead?_eq, check_ok_bind, hrest.2]
    rfl

end Pipeline

/-! Comparing by reading back. -/

theorem Bytes.length_le_of_mem_pieces {size count : Nat} {bytes piece : Bytes}
    (h : piece ∈ pieces size count bytes) : piece.length ≤ size := by
  induction count generalizing bytes with
  | zero => cases h
  | succ count ih =>
      rw [pieces_succ, List.mem_cons] at h
      rcases h with rfl | h
      · exact List.length_take_le _ _
      · exact ih h

namespace Guarded

/-- The pieces are read at their distance from the start of the window, into a buffer of the
size of a piece. -/
def readPieces (start : Address) :
    List Bytes → Nat → Comparison → Guarded (Except Fault Outcome)
  | [], _, comparison => ask (.done (.ok comparison.outcome))
  | wanted :: rest, offset, comparison => do
      let room ← check (front readbackSize wanted.length)
      let address ← check (advance start offset)
      match ← ask (Dialogue.read address room) with
      | .error fault => ask (.done (.error fault))
      | .ok stored =>
          let offset ← check (add 32 offset wanted.length)
          readPieces start rest offset (comparison.update wanted stored.val)

def readback (start : Address) (wanted : Bytes) : Guarded (Except Fault Outcome) :=
  readPieces start (Bytes.chunks readbackSize wanted) 0 .empty

theorem readPieces_eq {start : Address} {pieces : List Bytes} {offset : Nat}
    (hpieces : ∀ piece ∈ pieces, piece.length ≤ readbackSize)
    (hend : start.toNat + offset + pieces.flatten.length < 2 ^ 32) (comparison : Comparison) :
    readPieces start pieces offset comparison =
      ask (Dialogue.readPieces pieces (start + UInt32.ofNat offset) comparison) := by
  induction pieces generalizing offset comparison with
  | nil => rfl
  | cons wanted rest ih =>
      rw [List.forall_mem_cons] at hpieces
      rw [List.flatten_cons, List.length_append] at hend
      rw [readPieces, Dialogue.readPieces, front_eq_ok hpieces.1, check_ok_bind,
        advance_eq_ok (by omega), check_ok_bind]
      refine ask_bind fun t reply _ => ?_
      cases reply with
      | error fault => rfl
      | ok stored =>
          dsimp only
          rw [add_eq_ok (by omega), check_ok_bind, ih hpieces.2 (by omega), UInt32.ofNat_add,
            UInt32.add_assoc]

theorem readback_eq {start : Address} {wanted : Bytes}
    (hend : start.toNat + wanted.length < 2 ^ 32) :
    readback start wanted = ask (Dialogue.readback start wanted) := by
  have hflat : (Bytes.chunks readbackSize wanted).flatten = wanted :=
    Bytes.flatten_chunks (by decide) wanted
  have hfit : start.toNat + 0 + (Bytes.chunks readbackSize wanted).flatten.length < 2 ^ 32 := by
    rw [hflat]
    exact hend
  have hpieces : ∀ piece ∈ Bytes.chunks readbackSize wanted, piece.length ≤ readbackSize :=
    fun _ => Bytes.length_le_of_mem_pieces
  have hstart : start + UInt32.ofNat 0 = start := UInt32.add_zero start
  rw [readback, readPieces_eq hpieces hfit, hstart, Dialogue.readback]

end Guarded

end DfuLoader
