import DfuLoader.Proofs.CheckedEngine
import Mathlib.Algebra.Order.Floor.Div

/-!
# Rounding to windows

A block that is committed before it is full leaves the rest of its window unused, and the
receiving cursor moves on to the next boundary between windows. Windows are counted from the
start of the zone, wherever that is, and the end of the zone is a boundary too
(`Engine.boundary`). The engine rounds up with a product and a sum that stop at the last address,
which makes no difference, as the end of the zone comes no later. What comes out is the least
boundary that the cursor has not passed (`receiveAt_le_boundary`, `boundary_le`), so rounding is
a closure: it never goes back, it keeps the order of cursors, and there is nothing left to round
the second time (`skipPadding_rounds`).
-/

namespace DfuLoader

namespace Engine

/-- Where a number of windows from the start of the zone end. -/
def boundary (e : Engine) (n : Nat) : Nat :=
  min (e.zoneStart.toNat + 4096 * n) e.zoneEnd.toNat

/-- The windows that hold the bytes received so far, the last of them perhaps in part. -/
def windowsReceived (e : Engine) : Nat := (e.receiveAt.toNat - e.zoneStart.toNat) ⌈/⌉ 4096

variable {e : Engine} {n : Nat} {r : Address}

@[simp] theorem receiveAt_skipPadding (e : Engine) : e.skipPadding.receiveAt = e.paddedReceive :=
  rfl

@[simp] theorem boundary_skipPadding (e : Engine) (n : Nat) :
    e.skipPadding.boundary n = e.boundary n := rfl

theorem boundary_mono (e : Engine) {m n : Nat} (h : m ≤ n) : e.boundary m ≤ e.boundary n := by
  rw [boundary, boundary]
  omega

/-- The windows that hold the bytes reach as far as the bytes do. -/
theorem receiveAt_le_boundary (hend : e.receiveAt ≤ e.zoneEnd) :
    e.receiveAt.toNat ≤ e.boundary e.windowsReceived := by
  have hcover : e.receiveAt.toNat - e.zoneStart.toNat ≤ 4096 * e.windowsReceived :=
    le_smul_ceilDiv (show 0 < 4096 by decide)
  rw [UInt32.le_iff_toNat_le] at hend
  rw [boundary]
  omega

/-- Fewer windows do not. -/
theorem boundary_le (h : e.receiveAt.toNat ≤ e.boundary n) :
    e.boundary e.windowsReceived ≤ e.boundary n := by
  refine e.boundary_mono ((ceilDiv_le_iff_le_mul (by decide)).2 ?_)
  rw [boundary] at h
  omega

/-- The padded cursor is the boundary in unbounded numbers. -/
theorem toNat_paddedReceive_eq_boundary (hstart : e.zoneStart ≤ e.receiveAt)
    (hend : e.receiveAt ≤ e.zoneEnd) :
    e.paddedReceive.toNat = e.boundary e.windowsReceived := by
  rw [toNat_paddedReceive (UInt32.le_iff_toNat_le.1 hstart) (UInt32.le_iff_toNat_le.1 hend),
    boundary, windowsReceived, Nat.ceilDiv_eq_add_pred_div, Nat.mul_comm 4096]
  rfl

theorem receiveAt_le_paddedReceive (hstart : e.zoneStart ≤ e.receiveAt)
    (hend : e.receiveAt ≤ e.zoneEnd) : e.receiveAt ≤ e.paddedReceive := by
  rw [UInt32.le_iff_toNat_le, toNat_paddedReceive_eq_boundary hstart hend]
  exact receiveAt_le_boundary hend

theorem paddedReceive_le_zoneEnd (hstart : e.zoneStart ≤ e.receiveAt)
    (hend : e.receiveAt ≤ e.zoneEnd) : e.paddedReceive ≤ e.zoneEnd := by
  rw [UInt32.le_iff_toNat_le, toNat_paddedReceive_eq_boundary hstart hend]
  exact Nat.min_le_right _ _

/-- A cursor that has not passed another is not ahead of it when both are rounded: where the other
comes to lie is a boundary, and not before the first. -/
theorem paddedReceive_mono (hstart : e.zoneStart ≤ e.receiveAt) (hr : e.receiveAt ≤ r)
    (hend : r ≤ e.zoneEnd) : e.paddedReceive ≤ { e with receiveAt := r }.paddedReceive := by
  have hahead : r.toNat ≤ e.boundary (windowsReceived { e with receiveAt := r }) :=
    receiveAt_le_boundary (e := { e with receiveAt := r }) hend
  rw [UInt32.le_iff_toNat_le, toNat_paddedReceive_eq_boundary hstart (UInt32.le_trans hr hend),
    toNat_paddedReceive_eq_boundary (e := { e with receiveAt := r }) (UInt32.le_trans hstart hr)
      hend]
  exact boundary_le ((UInt32.le_iff_toNat_le.1 hr).trans hahead)

/-- A rounded cursor is at a boundary, and that is the least one from there on. -/
theorem paddedReceive_skipPadding (hstart : e.zoneStart ≤ e.receiveAt)
    (hend : e.receiveAt ≤ e.zoneEnd) : e.skipPadding.paddedReceive = e.paddedReceive := by
  have hon := toNat_paddedReceive_eq_boundary hstart hend
  have hstart' : e.skipPadding.zoneStart ≤ e.skipPadding.receiveAt :=
    UInt32.le_trans hstart (receiveAt_le_paddedReceive hstart hend)
  have hend' : e.skipPadding.receiveAt ≤ e.skipPadding.zoneEnd :=
    paddedReceive_le_zoneEnd hstart hend
  have hback : e.skipPadding.paddedReceive.toNat ≤ e.paddedReceive.toNat := by
    have hleast : e.skipPadding.receiveAt.toNat ≤ e.skipPadding.boundary e.windowsReceived := by
      rw [receiveAt_skipPadding, boundary_skipPadding, hon]
    rw [toNat_paddedReceive_eq_boundary hstart' hend', hon, ← e.boundary_skipPadding]
    exact boundary_le hleast
  have hforth := receiveAt_le_paddedReceive hstart' hend'
  rw [receiveAt_skipPadding] at hforth
  exact UInt32.le_antisymm (UInt32.le_iff_toNat_le.2 hback) hforth

/-- Rounding the receiving cursor up to a window only moves that cursor, and to where it comes to
lie in unbounded numbers, for zones up to the very top of the address space. It never moves back,
nor any further the second time, and of two cursors in a zone the first stays first. Arithmetic
that traps does the same. -/
theorem skipPadding_rounds (hstart : e.zoneStart ≤ e.receiveAt) (hend : e.receiveAt ≤ e.zoneEnd) :
    e.checkedSkipPadding = .ok e.skipPadding ∧
      e.skipPadding = { e with receiveAt := e.skipPadding.receiveAt } ∧
      e.skipPadding.receiveAt.toNat =
        min (e.zoneStart.toNat + 4096 * ((e.receiveAt.toNat - e.zoneStart.toNat) ⌈/⌉ 4096))
          e.zoneEnd.toNat ∧
      e.receiveAt ≤ e.skipPadding.receiveAt ∧ e.skipPadding.skipPadding = e.skipPadding ∧
      ∀ r, e.receiveAt ≤ r → r ≤ e.zoneEnd →
        e.skipPadding.receiveAt ≤ { e with receiveAt := r }.skipPadding.receiveAt := by
  have hagain : e.skipPadding.skipPadding = e.skipPadding :=
    congrArg (fun r => { e with receiveAt := r }) (paddedReceive_skipPadding hstart hend)
  exact ⟨checkedSkipPadding_eq (UInt32.le_iff_toNat_le.1 hstart), rfl,
    toNat_paddedReceive_eq_boundary hstart hend, receiveAt_le_paddedReceive hstart hend, hagain,
    fun _ hr hrend => paddedReceive_mono hstart hr hrend⟩

/-- Close to the top, where the whole windows are as many bytes as there are addresses. -/
theorem skipPadding_rounds_top :
    let e : Engine := { loaded ⟨.internal, 0x180, 0xffffffff, "top"⟩ 4 with
      receiveAt := 0xfffffe80 }
    e.zoneStart ≤ e.receiveAt ∧ e.receiveAt ≤ e.zoneEnd ∧ 4096 * e.windowsReceived = 2 ^ 32 ∧
      e.skipPadding.receiveAt.toNat =
        min (0x180 + 4096 * ((0xfffffe80 - 0x180) ⌈/⌉ 4096)) 0xffffffff ∧
      e.skipPadding.receiveAt = 0xffffffff ∧
      e.skipPadding.receiveAt ≤ { e with receiveAt := 0xffffff00 }.skipPadding.receiveAt := by
  intro e
  obtain ⟨-, -, hexact, -, -, hmono⟩ := skipPadding_rounds (e := e) (by decide) (by decide)
  exact ⟨by decide, by decide, by decide, hexact, by decide, hmono _ (by decide) (by decide)⟩

end Engine

end DfuLoader
