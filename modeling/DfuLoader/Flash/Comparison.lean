import DfuLoader.Bytes
import DfuLoader.Flash.Geometry

/-!
# What a window needs

Programming flash only clears bits; a cleared bit comes back by erasing the
whole region around it. Comparing the wanted bytes with the stored ones tells
which of the two commands a window needs, its `Outcome`. A `Comparison` is the
running form: it is fed the window piece by piece and asked at the end, and
`classify` feeds it the window at once. How a window is cut makes no difference,
because feeding two pieces is feeding their concatenation (`update_append`).
-/

namespace DfuLoader

inductive Outcome where
  /-- Nothing, it holds them. -/
  | same
  /-- Erasing is enough, the wanted bytes are all blank. -/
  | erase
  /-- Programming is enough, no bit has to be set. -/
  | program
  /-- Erasing, then programming. -/
  | eraseProgram
  deriving DecidableEq, Repr

namespace Outcome

/-- The two-bit code of an outcome: bit 0 asks for an erase, bit 1 for a
program pass. -/
def bits : Outcome → UInt8
  | same => 0
  | erase => 1
  | program => 2
  | eraseProgram => 3

def ofBits (bits : UInt8) : Outcome :=
  match bits &&& 3 with
  | 0 => same
  | 1 => erase
  | 2 => program
  | _ => eraseProgram

def needsErase : Outcome → Bool
  | erase | eraseProgram => true
  | same | program => false

def needsProgram : Outcome → Bool
  | program | eraseProgram => true
  | same | erase => false

@[simp] theorem ofBits_bits (o : Outcome) : ofBits o.bits = o := by cases o <;> rfl

end Outcome

/-- The three facts about the bytes compared so far that decide the outcome. -/
structure Comparison where
  /-- A set bit is wanted where a cleared one is stored. -/
  raisesBit : Bool
  /-- A wanted byte differs from the stored one. -/
  differs : Bool
  /-- A wanted byte is not blank. -/
  nonBlank : Bool
  deriving DecidableEq, Repr

namespace Comparison

def empty : Comparison := ⟨false, false, false⟩

def byte (c : Comparison) (wanted stored : UInt8) : Comparison where
  raisesBit := c.raisesBit || (wanted &&& stored) != wanted
  differs := c.differs || wanted != stored
  nonBlank := c.nonBlank || wanted != erasedByte

/-- Takes in a run of bytes; what the longer of the two has more is ignored. -/
def update (c : Comparison) : Bytes → Bytes → Comparison
  | wanted :: moreWanted, stored :: moreStored =>
      (c.byte wanted stored).update moreWanted moreStored
  | _, _ => c

def outcome (c : Comparison) : Outcome :=
  if c.raisesBit then
    if c.nonBlank then .eraseProgram else .erase
  else if c.differs then .program
  else .same

@[simp] theorem update_nil_left (c : Comparison) (stored : Bytes) :
    c.update [] stored = c := by simp [update]

@[simp] theorem update_nil_right (c : Comparison) (wanted : Bytes) :
    c.update wanted [] = c := by cases wanted <;> simp [update]

@[simp] theorem update_cons (c : Comparison) (w s : UInt8) (wanted stored : Bytes) :
    c.update (w :: wanted) (s :: stored) = (c.byte w s).update wanted stored := rfl

/-- Pieces of equal length may be taken in one after the other. -/
theorem update_append (c : Comparison) {wanted stored : Bytes}
    (same : wanted.length = stored.length) (moreWanted moreStored : Bytes) :
    c.update (wanted ++ moreWanted) (stored ++ moreStored) =
      (c.update wanted stored).update moreWanted moreStored := by
  induction wanted generalizing c stored with
  | nil =>
      cases stored with
      | nil => simp
      | cons s stored => simp at same
  | cons w wanted ih =>
      cases stored with
      | nil => simp at same
      | cons s stored =>
          simp only [List.cons_append, update_cons]
          exact ih _ (by simpa using same)

end Comparison

/-- What a window that stores `stored` needs to hold `wanted`. -/
def classify (wanted stored : Bytes) : Outcome := (Comparison.empty.update wanted stored).outcome

end DfuLoader
