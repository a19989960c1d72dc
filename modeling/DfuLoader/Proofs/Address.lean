import DfuLoader.Engine.Basic
import Mathlib.Data.UInt
import Mathlib.Tactic.Common

/-!
# Addresses as numbers

Every operation on addresses that the engine uses, read in the natural numbers.
Saturating operations are exact until they meet the last address; clearing the
low bits of an address rounds it down to a multiple of the region's size; and the
padded receiving cursor is the rounded cursor cut off at the end of the zone, for
zones up to the very top of the address space.
-/

namespace DfuLoader

namespace Address

theorem toNat_lt (a : Address) : a.toNat < 2 ^ 32 := UInt32.toNat_lt a

@[simp] theorem toNat_top : top.toNat = 2 ^ 32 - 1 := rfl

theorem toNat_ofNat {n : Nat} (h : n < 2 ^ 32) : (UInt32.ofNat n).toNat = n :=
  UInt32.toNat_ofNat_of_lt' h

@[simp] theorem toNat_addSat (a b : Address) :
    (addSat a b).toNat = min (a.toNat + b.toNat) (2 ^ 32 - 1) := by
  rw [addSat, toNat_top, toNat_ofNat (by omega)]

@[simp] theorem toNat_mulSat (a b : Address) :
    (mulSat a b).toNat = min (a.toNat * b.toNat) (2 ^ 32 - 1) := by
  rw [mulSat, toNat_top, toNat_ofNat (by omega)]

@[simp] theorem toNat_subSat (a b : Address) : (subSat a b).toNat = a.toNat - b.toNat := by
  have ha := toNat_lt a
  rw [subSat, toNat_ofNat (by omega)]

theorem toNat_add_ofNat {a : Address} {n : Nat} (h : a.toNat + n < 2 ^ 32) :
    (a + UInt32.ofNat n).toNat = a.toNat + n := by
  rw [UInt32.toNat_add, toNat_ofNat (by omega), Nat.mod_eq_of_lt h]

theorem add?_eq_some_iff {a b : Address} {n : Nat} :
    a.add? n = some b ↔ b.toNat = a.toNat + n := by
  have hb := toNat_lt b
  rw [add?]
  split
  · rename_i h
    have hsum := toNat_ofNat h
    rw [Option.some.injEq]
    constructor
    · rintro rfl
      exact hsum
    · intro hn
      exact UInt32.toNat.inj (hsum.trans hn.symm)
  · rename_i h
    have hsize : UInt32.size = 2 ^ 32 := rfl
    simp only [reduceCtorEq, false_iff]
    omega

theorem filter_add?_eq_some_iff {a b stop : Address} {n : Nat} :
    (a.add? n).filter (· ≤ stop) = some b ↔ b.toNat = a.toNat + n ∧ b.toNat ≤ stop.toNat := by
  rw [Option.filter_eq_some_iff, add?_eq_some_iff, decide_eq_true_eq, UInt32.le_iff_toNat_le]

theorem filter_add?_eq_none_iff {a stop : Address} {n : Nat} :
    (a.add? n).filter (· ≤ stop) = none ↔ stop.toNat < a.toNat + n := by
  have hstop := toNat_lt stop
  rw [Option.eq_none_iff_forall_ne_some]
  constructor
  · intro h
    by_contra hle
    have hn : (UInt32.ofNat (a.toNat + n)).toNat = a.toNat + n := toNat_ofNat (by omega)
    exact h (UInt32.ofNat (a.toNat + n)) (filter_add?_eq_some_iff.2 (by omega))
  · intro h b hb
    rw [filter_add?_eq_some_iff] at hb
    omega

theorem toNat_divCeil (a unit : Address) (h : 2 ≤ unit.toNat) :
    (divCeil a unit).toNat = (a.toNat + (unit.toNat - 1)) / unit.toNat := by
  have ha := toNat_lt a
  have hle : a.toNat / unit.toNat ≤ a.toNat / 2 := Nat.div_le_div_left h (by omega)
  have hdiv := Nat.div_add_mod a.toNat unit.toNat
  have hmod := Nat.mod_lt a.toNat (show 0 < unit.toNat by omega)
  have hzero : a % unit = 0 ↔ a.toNat % unit.toNat = 0 := by
    rw [← UInt32.toNat_mod, ← UInt32.toNat_inj]
    rfl
  rw [divCeil, UInt32.toNat_add, UInt32.toNat_div]
  by_cases hm : a.toNat % unit.toNat = 0
  · rw [if_pos (hzero.2 hm), UInt32.toNat_zero, Nat.add_zero, Nat.mod_eq_of_lt (by omega)]
    symm
    rw [Nat.div_eq_iff (by omega)]
    rw [Nat.mul_comm] at hdiv
    omega
  · rw [if_neg (fun hz => hm (hzero.1 hz)), UInt32.toNat_one, Nat.mod_eq_of_lt (by omega)]
    symm
    rw [Nat.div_eq_iff (by omega), Nat.add_mul, Nat.one_mul]
    rw [Nat.mul_comm] at hdiv
    omega

/-- The bits inside a mask and those outside it make up an address. -/
theorem toNat_and_not_add_and (a mask : Address) :
    (a &&& ~~~mask).toNat + (a &&& mask).toNat = a.toNat := by
  have apart : (a.toBitVec &&& ~~~mask.toBitVec) &&& (a.toBitVec &&& mask.toBitVec) = 0#32 := by
    rw [BitVec.and_comm a.toBitVec mask.toBitVec, ← BitVec.and_assoc, BitVec.and_assoc a.toBitVec]
    simp
  have all : ~~~mask.toBitVec ||| mask.toBitVec = BitVec.allOnes 32 := by simp
  calc (a &&& ~~~mask).toNat + (a &&& mask).toNat
      = (a.toBitVec &&& ~~~mask.toBitVec).toNat + (a.toBitVec &&& mask.toBitVec).toNat := rfl
    _ = ((a.toBitVec &&& ~~~mask.toBitVec) ||| (a.toBitVec &&& mask.toBitVec)).toNat := by
        rw [← BitVec.add_eq_or_of_and_eq_zero _ _ apart, BitVec.toNat_add_of_and_eq_zero apart]
    _ = a.toNat := by
        rw [← BitVec.and_or_distrib_left, all, BitVec.and_allOnes, UInt32.toNat_toBitVec]

end Address

namespace EraseUnit

theorem size_eq (unit : EraseUnit) :
    unit.size.toNat = 4096 ∨ unit.size.toNat = 32768 ∨ unit.size.toNat = 65536 := by
  cases unit
  · exact .inl rfl
  · exact .inr (.inl rfl)
  · exact .inr (.inr rfl)

@[simp] theorem size_sector4K : sector4K.size.toNat = 4096 := rfl

/-- The base of the region that holds an address is the address rounded down. -/
theorem toNat_baseOf (unit : EraseUnit) (a : Address) :
    (unit.baseOf a).toNat = a.toNat - a.toNat % unit.size.toNat := by
  have hsplit := Address.toNat_and_not_add_and a (unit.size - 1)
  have hlow : (a &&& (unit.size - 1)).toNat = a.toNat % unit.size.toNat := by
    rw [UInt32.toNat_and]
    cases unit
    · exact Nat.and_two_pow_sub_one_eq_mod a.toNat 12
    · exact Nat.and_two_pow_sub_one_eq_mod a.toNat 15
    · exact Nat.and_two_pow_sub_one_eq_mod a.toNat 16
  rw [hlow] at hsplit
  rw [baseOf]
  omega

theorem baseOf_eq {unit : EraseUnit} {a : Address} (h : a.toNat % unit.size.toNat = 0) :
    unit.baseOf a = a := by
  rw [← UInt32.toNat_inj, toNat_baseOf, h, Nat.sub_zero]

end EraseUnit

namespace Engine

/-- The padded cursor is the receiving cursor rounded up to whole blocks from the
start of the zone, and cut off at its end. No zone is too close to the top of the
address space for that. -/
theorem toNat_paddedReceive {e : Engine} (hstart : e.zoneStart.toNat ≤ e.receiveAt.toNat)
    (hend : e.receiveAt.toNat ≤ e.zoneEnd.toNat) :
    e.paddedReceive.toNat =
      min (e.zoneStart.toNat +
          (e.receiveAt.toNat - e.zoneStart.toNat + 4095) / 4096 * 4096) e.zoneEnd.toNat := by
  have hblock : (UInt32.ofNat blockSize).toNat = 4096 := rfl
  have hlast := Address.toNat_lt e.zoneEnd
  have hoffset := UInt32.toNat_sub_of_le e.receiveAt e.zoneStart
    (UInt32.le_iff_toNat_le.2 hstart)
  have hceil := Address.toNat_divCeil (e.receiveAt - e.zoneStart) (UInt32.ofNat blockSize)
    (by rw [hblock]; omega)
  rw [hblock, hoffset] at hceil
  rw [paddedReceive, UInt32.toNat_min, Address.toNat_addSat, Address.toNat_mulSat, hceil, hblock]
  omega

end Engine

end DfuLoader
