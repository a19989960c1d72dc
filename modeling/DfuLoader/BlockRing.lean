import DfuLoader.Bytes
import DfuLoader.Flash.Geometry

/-!
# The ring of blocks

Received data waits in a ring of two slots of `blockSize` bytes. The receiving
side fills one slot while the flash side works through the other, and neither
copies: a slot is committed by turning the writing side to the other slot, and
dropped by turning the reading side. So a slot keeps the bytes of an older
block behind the `fill` bytes of the one under way, until `commit` blanks them.

A refused operation has no result (`append`, `commit`, `pushBlock`), so it cannot
have touched the buffer. What the ring stands for is a queue of committed blocks
(`queue`) and the bytes of the block under way (`tail`).
-/

namespace DfuLoader

inductive Side where
  | left
  | right
  deriving DecidableEq, Repr

def Side.other : Side → Side
  | left => right
  | right => left

@[simp] theorem Side.other_other (s : Side) : s.other.other = s := by cases s <;> rfl

structure BlockRing where
  left : Bytes
  right : Bytes
  /-- How many slots are committed. -/
  committed : Nat
  /-- The slot that is being filled. -/
  writing : Side
  /-- The oldest committed slot, if there is one. -/
  reading : Side
  /-- The bytes of the slot being filled that are taken. -/
  fill : Nat
  deriving DecidableEq, Repr

namespace BlockRing

def empty : BlockRing where
  left := List.replicate blockSize erasedByte
  right := List.replicate blockSize erasedByte
  committed := 0
  writing := .left
  reading := .left
  fill := 0

def slot (b : BlockRing) : Side → Bytes
  | .left => b.left
  | .right => b.right

def setWriting (b : BlockRing) (bytes : Bytes) : BlockRing :=
  match b.writing with
  | .left => { b with left := bytes }
  | .right => { b with right := bytes }

def isEmpty (b : BlockRing) : Bool := b.committed == 0 && b.fill == 0

/-- The bytes that fit without overwriting a committed block. -/
def room (b : BlockRing) : Nat :=
  if b.committed < 2 then (2 - b.committed) * blockSize - b.fill else 0

def close (b : BlockRing) : BlockRing :=
  { b.setWriting ((b.slot b.writing).take b.fill ++
      List.replicate (blockSize - b.fill) erasedByte) with
    committed := b.committed + 1
    writing := b.writing.other
    fill := 0 }

/-- Commits the slot under way, blank behind its bytes so that nothing is
programmed there. There must be a slot left to fill. -/
def commit (b : BlockRing) : Option BlockRing := if b.committed < 2 then some b.close else none

def put (b : BlockRing) (bytes : Bytes) : BlockRing :=
  let stored := b.slot b.writing
  let filled :=
    { b.setWriting (stored.take b.fill ++ bytes ++ stored.drop (b.fill + bytes.length)) with
      fill := b.fill + bytes.length }
  if filled.fill = blockSize then filled.close else filled

/-- Takes in bytes if all of them fit. What does not fit the slot under way goes
to the other one, and every slot that gets full is committed. -/
def append (b : BlockRing) (bytes : Bytes) : Option BlockRing :=
  if bytes.length ≤ b.room then
    let room := blockSize - b.fill
    some <| if bytes.isEmpty then b
      else if bytes.length ≤ room then b.put bytes
      else (b.put (bytes.take room)).put (bytes.drop room)
  else none

/-- Takes in one block at once and commits it, blank at the end if it is short.
There must be a free slot with nothing under way in it. -/
def pushBlock (b : BlockRing) (bytes : Bytes) : Option BlockRing :=
  if b.committed < 2 ∧ b.fill = 0 ∧ bytes.length ≤ blockSize then
    (b.append bytes).bind fun filled =>
      if bytes.length < blockSize then filled.commit else some filled
  else none

/-- The oldest committed block. It stays until `pop`. -/
def head? (b : BlockRing) : Option Bytes :=
  if b.committed = 0 then none else some (b.slot b.reading)

def pop (b : BlockRing) : BlockRing :=
  if b.committed = 0 then b else { b with committed := b.committed - 1, reading := b.reading.other }

def clear (b : BlockRing) : BlockRing :=
  { b with committed := 0, fill := 0, writing := .left, reading := .left }

def queue (b : BlockRing) : List Bytes :=
  match b.committed with
  | 0 => []
  | 1 => [b.slot b.reading]
  | _ => [b.slot b.reading, b.slot b.reading.other]

def tail (b : BlockRing) : Bytes := (b.slot b.writing).take b.fill

inductive Operation where
  | pushBlock (bytes : Bytes)
  | append (bytes : Bytes)
  | commit
  | head
  | pop
  | clear
  deriving DecidableEq, Repr

inductive Answer where
  | quiet
  | taken (accepted : Bool)
  | block (bytes? : Option Bytes)
  deriving DecidableEq, Repr

/-- An operation that may be refused leaves the ring as it is when it is. -/
def attempt (b : BlockRing) : Option BlockRing → Answer × BlockRing
  | some next => (.taken true, next)
  | none => (.taken false, b)

def perform (b : BlockRing) : Operation → Answer × BlockRing
  | .pushBlock bytes => b.attempt (b.pushBlock bytes)
  | .append bytes => b.attempt (b.append bytes)
  | .commit => b.attempt b.commit
  | .head => (.block b.head?, b)
  | .pop => (.quiet, b.pop)
  | .clear => (.quiet, b.clear)

end BlockRing

end DfuLoader
