import DfuLoader.Bytes
import DfuLoader.Flash.Geometry
import Std.Data.TreeMap

/-!
# The memory of a simulated chip

Every address holds a byte, and those never written are blank. Programming keeps
a bit only where it is set both in the memory and in the programmed byte.
-/

namespace DfuLoader

namespace Bench

/-- The bytes of a chip that may differ from blank. -/
structure Memory where
  cells : Std.TreeMap Nat UInt8

namespace Memory

def blank : Memory := ⟨∅⟩

def get (m : Memory) (a : Nat) : UInt8 := m.cells.getD a erasedByte

def set (m : Memory) (a : Nat) (b : UInt8) : Memory := ⟨m.cells.insert a b⟩

def range (m : Memory) (start length : Nat) : Bytes :=
  (List.range length).map fun k => m.get (start + k)

@[simp] theorem length_range (m : Memory) (start length : Nat) :
    (m.range start length).length = length := by simp [range]

def load (m : Memory) : Nat → Bytes → Memory
  | _, [] => m
  | a, b :: rest => (m.set a b).load (a + 1) rest

def program (m : Memory) : Nat → Bytes → Memory
  | _, [] => m
  | a, b :: rest => (m.set a (m.get a &&& b)).program (a + 1) rest

def erase (m : Memory) (start : Nat) : Nat → Memory
  | 0 => m
  | length + 1 => (⟨m.cells.erase (start + length)⟩ : Memory).erase start length

end Memory

end Bench

end DfuLoader
