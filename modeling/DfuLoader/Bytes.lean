/-!
# Byte strings

A byte string is a list of bytes, so every operation on it reduces by the
equations of lists. `chunks` cuts a string into consecutive pieces of one size
and loses nothing; `word16` and `word24` write a number with its lowest byte
first.
-/

namespace DfuLoader

abbrev Bytes := List UInt8

namespace Bytes

abbrev OfLength (n : Nat) := { bytes : Bytes // bytes.length = n }

/-- The first `count` consecutive pieces of `size` bytes; a piece past the end
of the string is short or empty. -/
def pieces (size : Nat) : Nat → Bytes → List Bytes
  | 0, _ => []
  | count + 1, bytes => bytes.take size :: pieces size count (bytes.drop size)

/-- The whole string as consecutive pieces of `size` bytes, the last of which
may be shorter. -/
def chunks (size : Nat) (bytes : Bytes) : List Bytes :=
  pieces size ((bytes.length + (size - 1)) / size) bytes

@[simp] theorem pieces_zero (size : Nat) (bytes : Bytes) : pieces size 0 bytes = [] := rfl

theorem pieces_succ (size count : Nat) (bytes : Bytes) :
    pieces size (count + 1) bytes =
      bytes.take size :: pieces size count (bytes.drop size) := rfl

@[simp] theorem length_pieces (size count : Nat) (bytes : Bytes) :
    (pieces size count bytes).length = count := by
  induction count generalizing bytes with
  | zero => rfl
  | succ count ih => simp [pieces_succ, ih]

theorem flatten_pieces (size count : Nat) (bytes : Bytes) :
    (pieces size count bytes).flatten = bytes.take (count * size) := by
  induction count generalizing bytes with
  | zero => simp
  | succ count ih =>
      rw [pieces_succ, List.flatten_cons, ih, Nat.succ_mul, Nat.add_comm,
        List.take_add]

theorem flatten_chunks {size : Nat} (positive : 0 < size) (bytes : Bytes) :
    (chunks size bytes).flatten = bytes := by
  rw [chunks, flatten_pieces]
  apply List.take_of_length_le
  have bound := Nat.lt_mul_div_succ (bytes.length + (size - 1)) positive
  rw [Nat.mul_add, Nat.mul_one, Nat.mul_comm] at bound
  omega

/-- A 16-bit word, low byte first. -/
def word16 (w : UInt16) : Bytes := [w.toUInt8, (w >>> 8).toUInt8]

def word24 (w : UInt32) : Bytes := [w.toUInt8, (w >>> 8).toUInt8, (w >>> 16).toUInt8]

end Bytes

end DfuLoader
