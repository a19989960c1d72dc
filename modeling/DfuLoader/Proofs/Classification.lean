import DfuLoader.Flash.Comparison
import Mathlib.Data.List.Zip

/-!
# What a comparison finds

The outcome of a comparison in terms of the bytes that it was fed: an erase is needed if
some wanted bit is cleared, and programming if some byte differs from what is there then,
which is the erased byte after an erase (`needsErase_classify`, `needsProgram_classify`).
So erasing settles the first and leaves the second as it was (`classify_erased`), and a
window that needs neither stores what is wanted (`eq_of_classify`).
-/

namespace DfuLoader

namespace Comparison

/-- A comparison finds what one of its pairs of bytes shows. -/
theorem update_eq (c : Comparison) (wanted stored : Bytes) :
    c.update wanted stored =
      { raisesBit := c.raisesBit || (wanted.zip stored).any fun x => (x.1 &&& x.2) != x.1
        differs := c.differs || (wanted.zip stored).any fun x => x.1 != x.2
        nonBlank := c.nonBlank || (wanted.zip stored).any fun x => x.1 != erasedByte } := by
  induction wanted generalizing c stored with
  | nil => simp
  | cons w wanted ih =>
      cases stored with
      | nil => simp
      | cons s stored => simp [ih, byte, Bool.or_assoc]

end Comparison

variable {wanted stored : Bytes}

theorem needsErase_classify (wanted stored : Bytes) :
    (classify wanted stored).needsErase =
      (wanted.zip stored).any fun x => (x.1 &&& x.2) != x.1 := by
  rw [classify, Comparison.update_eq, Comparison.outcome]
  simp only [Comparison.empty, Bool.false_or]
  cases (wanted.zip stored).any fun x => (x.1 &&& x.2) != x.1 with
  | true => cases (wanted.zip stored).any fun x => x.1 != erasedByte <;> rfl
  | false => cases (wanted.zip stored).any fun x => x.1 != x.2 <;> rfl

theorem needsProgram_classify (wanted stored : Bytes) :
    (classify wanted stored).needsProgram =
      if (classify wanted stored).needsErase then (wanted.zip stored).any fun x => x.1 != erasedByte
      else (wanted.zip stored).any fun x => x.1 != x.2 := by
  rw [needsErase_classify, classify, Comparison.update_eq, Comparison.outcome]
  simp only [Comparison.empty, Bool.false_or]
  cases (wanted.zip stored).any fun x => (x.1 &&& x.2) != x.1 with
  | true => cases (wanted.zip stored).any fun x => x.1 != erasedByte <;> rfl
  | false => cases (wanted.zip stored).any fun x => x.1 != x.2 <;> rfl

/-- A window can be written without an erase if every bit that it wants is still set. -/
theorem spared_iff :
    (classify wanted stored).needsErase = false ↔
      ∀ (i : Nat) (w s : UInt8), wanted[i]? = some w → stored[i]? = some s → w &&& s = w := by
  rw [needsErase_classify, List.any_eq_false]
  constructor
  · intro h i w s hw hs
    have hmem : (w, s) ∈ wanted.zip stored :=
      List.mem_of_getElem? (List.getElem?_zip_eq_some.2 ⟨hw, hs⟩)
    simpa using h _ hmem
  · intro h x hx
    obtain ⟨i, hi⟩ := List.mem_iff_getElem?.1 hx
    obtain ⟨hw, hs⟩ := List.getElem?_zip_eq_some.1 hi
    simpa using h i x.1 x.2 hw hs

theorem unneeded_iff (hspared : (classify wanted stored).needsErase = false)
    (hlength : wanted.length = stored.length) :
    (classify wanted stored).needsProgram = false ↔ wanted = stored := by
  rw [needsProgram_classify, if_neg (by rw [hspared]; decide), List.any_eq_false]
  constructor
  · intro h
    refine List.ext_getElem hlength fun i hw hs => ?_
    have hmem : (wanted[i], stored[i]) ∈ wanted.zip stored :=
      List.mem_of_getElem? (List.getElem?_zip_eq_some.2
        ⟨List.getElem?_eq_getElem hw, List.getElem?_eq_getElem hs⟩)
    simpa using h _ hmem
  · rintro rfl x hx
    obtain ⟨i, hi⟩ := List.mem_iff_getElem?.1 hx
    obtain ⟨hw, hs⟩ := List.getElem?_zip_eq_some.1 hi
    simpa using Option.some.inj (hw.symm.trans hs)

theorem eq_of_classify (hlength : wanted.length = stored.length)
    (herase : (classify wanted stored).needsErase = false)
    (hprogram : (classify wanted stored).needsProgram = false) : wanted = stored :=
  (unneeded_iff herase hlength).1 hprogram

theorem classify_self (wanted : Bytes) :
    (classify wanted wanted).needsErase = false ∧
      (classify wanted wanted).needsProgram = false := by
  have hspared : (classify wanted wanted).needsErase = false := by
    refine spared_iff.2 fun i w s hw hs => ?_
    cases hw.symm.trans hs
    exact UInt8.and_self
  exact ⟨hspared, (unneeded_iff hspared rfl).2 rfl⟩

theorem classify_erased (herase : (classify wanted stored).needsErase = true)
    (hlength : wanted.length = stored.length) :
    (classify wanted (List.replicate wanted.length erasedByte)).needsErase = false ∧
      (classify wanted (List.replicate wanted.length erasedByte)).needsProgram =
        (classify wanted stored).needsProgram := by
  have hspared :
      (classify wanted (List.replicate wanted.length erasedByte)).needsErase = false := by
    refine spared_iff.2 fun i w s _ hs => ?_
    rw [(List.mem_replicate.1 (List.mem_of_getElem? hs)).2]
    exact UInt8.and_neg_one
  refine ⟨hspared, ?_⟩
  -- both ask whether some wanted byte is not blank
  have hnonBlank (l : Bytes) (hl : wanted.length = l.length) :
      ((wanted.zip l).any fun x => x.1 != erasedByte) = wanted.any (· != erasedByte) := by
    conv_rhs => rw [← List.map_fst_zip (Nat.le_of_eq hl)]
    rw [List.any_map]
    rfl
  rw [needsProgram_classify, needsProgram_classify, if_neg (by rw [hspared]; decide), if_pos herase,
    hnonBlank stored hlength, ← hnonBlank _ List.length_replicate.symm, Bool.eq_iff_iff,
    List.any_eq_true, List.any_eq_true]
  refine exists_congr fun x => and_congr_right fun hx => ?_
  rw [(List.mem_replicate.1 (List.of_mem_zip hx).2).2]

end DfuLoader
