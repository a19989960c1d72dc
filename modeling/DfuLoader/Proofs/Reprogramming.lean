import DfuLoader.Proofs.Classification
import DfuLoader.Proofs.Storage
import Mathlib.Logic.Relation

/-!
# What programming can reach

A programming step clears bits and sets none (`Bytes.programmed`), and so do any number of
them: what they can reach from some bytes is what one of them can (`Bytes.reaches_iff`).
Against this the outcome of a comparison is measured. It asks for an erase exactly if the
wanted bytes cannot be reached from the stored ones, and for programming exactly if they are
not what is stored by then; and what it asks for leads to the wanted bytes
(`classify_prescribes`).
-/

namespace DfuLoader

open Relation

namespace Bytes

/-- What is left of stored bytes when others are programmed over them: a bit is set where it
is set in both. -/
def programmed (stored bytes : Bytes) : Bytes := List.zipWith (· &&& ·) stored bytes

/-- One programming step. The bytes that it leaves alone are programmed with blank ones. -/
def Programs (stored stored' : Bytes) : Prop :=
  ∃ bytes : Bytes, bytes.length = stored.length ∧ stored' = stored.programmed bytes

variable {wanted stored : Bytes}

theorem getElem?_programmed (stored bytes : Bytes) {i : Nat} {s b : UInt8}
    (hs : stored[i]? = some s) (hb : bytes[i]? = some b) :
    (stored.programmed bytes)[i]? = some (s &&& b) :=
  List.getElem?_zipWith_eq_some.2 ⟨s, b, hs, hb, rfl⟩

@[simp] theorem programmed_self (stored : Bytes) : stored.programmed stored = stored := by
  rw [programmed, List.zipWith_self]
  simp

theorem programmed_assoc (a b c : Bytes) :
    (a.programmed b).programmed c = a.programmed (b.programmed c) := by
  simp only [programmed, List.zipWith_zipWith_left, List.zipWith_zipWith_right, UInt8.and_assoc]

/-- Programming over what was reached never gets behind it: one step reaches all that any
number of them does. -/
theorem reaches_iff (hlength : wanted.length = stored.length) :
    ReflTransGen Programs stored wanted ↔ stored.programmed wanted = wanted := by
  constructor
  · intro h
    clear hlength
    induction h with
    | refl => exact stored.programmed_self
    | tail _ step ih =>
        obtain ⟨bytes, -, rfl⟩ := step
        rw [← programmed_assoc, ih]
  · intro h
    exact .single ⟨wanted, hlength, h.symm⟩

end Bytes

/-- A program command to a chip is a programming step for every window of it. -/
theorem Flash.programs_stored (f : Flash) (a : Address) (bytes : Bytes) (chip : Chip)
    (start length : Nat) :
    Bytes.Programs (f.stored chip start length)
      ((f.programmed a bytes).stored chip start length) := by
  let taken (x : Nat) : UInt8 :=
    if chip = f.selected ∧ a.toNat ≤ x ∧ x < a.toNat + bytes.length then
      bytes.getD (x - a.toNat) erasedByte
    else erasedByte
  refine ⟨(List.range' start length).map taken, by simp, ?_⟩
  rw [Bytes.programmed, stored, stored, List.zipWith_map, List.zipWith_self]
  refine List.map_congr_left fun x _ => ?_
  change (if _ then _ else _) = _ &&& (if _ then _ else _)
  split
  · rfl
  · exact UInt8.and_neg_one.symm

/-! The outcome of a comparison. -/

def Outcome.base (o : Outcome) (stored : Bytes) : Bytes :=
  if o.needsErase then List.replicate stored.length erasedByte else stored

def Outcome.carriedOut (o : Outcome) (wanted stored : Bytes) : Bytes :=
  if o.needsProgram then (o.base stored).programmed wanted else o.base stored

variable {wanted stored : Bytes}

theorem Outcome.length_base (o : Outcome) (stored : Bytes) :
    (o.base stored).length = stored.length := by
  rw [base]
  split
  · exact List.length_replicate
  · rfl

/-- A comparison asks for no erase if programming reaches the wanted bytes. -/
theorem spared_iff_programmed (hlength : wanted.length = stored.length) :
    (classify wanted stored).needsErase = false ↔ stored.programmed wanted = wanted := by
  rw [spared_iff]
  constructor
  · intro h
    refine List.ext_getElem (by simp [Bytes.programmed, hlength]) fun i _ hi => ?_
    have hw := List.getElem?_eq_getElem hi
    have hs := List.getElem?_eq_getElem (hlength ▸ hi)
    have hbyte := stored.getElem?_programmed wanted hs hw
    rw [UInt8.and_comm, h i _ _ hw hs] at hbyte
    exact (List.getElem?_eq_some_iff.1 hbyte).2
  · intro h i w s hw hs
    have hbyte := stored.getElem?_programmed wanted hs hw
    rw [h, hw] at hbyte
    rw [UInt8.and_comm]
    exact (Option.some.inj hbyte).symm

theorem classify_base (hlength : wanted.length = stored.length) :
    (classify wanted ((classify wanted stored).base stored)).needsErase = false ∧
      (classify wanted ((classify wanted stored).base stored)).needsProgram =
        (classify wanted stored).needsProgram := by
  cases herase : (classify wanted stored).needsErase with
  | true =>
      rw [Outcome.base, if_pos herase, ← hlength]
      exact classify_erased herase hlength
  | false =>
      rw [Outcome.base, if_neg (by rw [herase]; decide)]
      exact ⟨herase, rfl⟩

theorem classify_take (wanted stored : Bytes) :
    classify wanted stored =
      classify (wanted.take (min wanted.length stored.length))
        (stored.take (min wanted.length stored.length)) := by
  have hzip : wanted.zip stored =
      (wanted.take (min wanted.length stored.length)).zip
        (stored.take (min wanted.length stored.length)) := List.zip_eq_zip_take_min
  rw [classify, classify, Comparison.update_eq, Comparison.update_eq, hzip]

/-- For a window that stores some bytes and is to store others, what the comparison asks for
leads there; it asks for an erase exactly if no programming steps lead there, and for
programming exactly if the window does not store the wanted bytes by then. -/
theorem classify_prescribes (wanted stored : Bytes) :
    (wanted.length = stored.length →
      ((classify wanted stored).base stored).programmed wanted = wanted ∧
      (classify wanted stored).carriedOut wanted stored = wanted ∧
      ((classify wanted stored).needsErase = true ↔
        ¬ReflTransGen Bytes.Programs stored wanted) ∧
      ((classify wanted stored).needsProgram = true ↔
        (classify wanted stored).base stored ≠ wanted)) ∧
    classify wanted stored =
      classify (wanted.take (min wanted.length stored.length))
        (stored.take (min wanted.length stored.length)) := by
  refine ⟨fun hlength => ?_, classify_take wanted stored⟩
  have hbase : wanted.length = ((classify wanted stored).base stored).length :=
    hlength.trans ((classify wanted stored).length_base stored).symm
  obtain ⟨hspared, hprogram⟩ := classify_base hlength
  have hreached := (spared_iff_programmed hbase).1 hspared
  have hunneeded := unneeded_iff hspared hbase
  rw [hprogram] at hunneeded
  refine ⟨hreached, ?_, ?_, ?_⟩
  · rw [Outcome.carriedOut]
    split
    · exact hreached
    · rename_i hdone
      exact (hunneeded.1 (Bool.not_eq_true _ ▸ hdone)).symm
  · rw [Bytes.reaches_iff hlength, ← spared_iff_programmed hlength, Bool.not_eq_false]
  · rw [← Bool.not_eq_false, hunneeded, ne_comm, Ne]

/-- Two bytes of which only the first has to be erased, a window that is wanted blank, and
strings of different length. -/
theorem classify_prescribes_mixed :
    ([0xf0, 0x42] : Bytes).length = ([0x0f, 0xff] : Bytes).length ∧
      (classify [0xf0, 0x42] [0x0f, 0xff]).carriedOut [0xf0, 0x42] [0x0f, 0xff] = [0xf0, 0x42] ∧
      ¬ReflTransGen Bytes.Programs [0x0f, 0xff] [0xf0, 0x42] ∧
      ([0xff, 0xff] : Bytes).length = ([0x0f, 0xff] : Bytes).length ∧
      (classify [0xff, 0xff] [0x0f, 0xff]).base [0x0f, 0xff] = [0xff, 0xff] ∧
      classify [0x42, 0x10, 0x10] [0xff] = classify [0x42] [0xff] := by
  obtain ⟨-, hled, herase, -⟩ := (classify_prescribes [0xf0, 0x42] [0x0f, 0xff]).1 rfl
  obtain ⟨-, -, -, hprogram⟩ := (classify_prescribes [0xff, 0xff] [0x0f, 0xff]).1 rfl
  have hblank : (classify [0xff, 0xff] [0x0f, 0xff]).needsProgram ≠ true := by decide
  exact ⟨rfl, hled, herase.1 (by decide), rfl, not_not.1 fun h => hblank (hprogram.2 h),
    (classify_prescribes [0x42, 0x10, 0x10] [0xff]).2⟩

end DfuLoader
