import DfuLoader.Config
import DfuLoader.Flash.Comparison

/-!
# The state of the flash engine

The engine walks through a zone window by window. Four cursors say how far each
side has got: where the next received byte belongs, where the next byte to read
back is, which window is being committed, and where the region erased for it
ends. The receiving side and the committing side meet only in the buffer: a
window is what one buffer slot holds, cut off at the end of the zone
(`windowLength`).
-/

namespace DfuLoader

inductive Stage where
  /-- Waiting for a window. -/
  | idle
  /-- Comparing, and erasing if programming alone cannot reach the wanted bytes. -/
  | erasing
  /-- Programming page by page. -/
  | programming
  deriving DecidableEq, Repr

structure Engine where
  /-- Where the next byte from the host belongs. -/
  receiveAt : Address
  /-- The next byte to read back. -/
  readAt : Address
  /-- The start of the window being committed. -/
  windowAt : Address
  /-- The end of the region erased so far for the window. -/
  erasedTo : Address
  zoneStart : Address
  zoneEnd : Address
  chip : Chip
  stage : Stage
  /-- The bytes of the window that this program pass has written. -/
  offset : Nat
  /-- The bytes of the window. -/
  length : Nat
  /-- The attempts left on the window. -/
  attempts : UInt8
  /-- The outcome of the last comparison. -/
  last : Outcome
  deriving DecidableEq, Repr

namespace Engine

/-- The engine with no zone. Its zone is empty, so nothing can be received. -/
def unloaded (maxAttempts : UInt8) : Engine where
  receiveAt := 0
  readAt := 0
  windowAt := 0
  erasedTo := 0
  zoneStart := 0
  zoneEnd := 0
  chip := .internal
  stage := .idle
  offset := 0
  length := 0
  attempts := maxAttempts
  last := .same

def loaded (zone : Zone) (maxAttempts : UInt8) : Engine :=
  { unloaded maxAttempts with
    receiveAt := zone.start
    readAt := zone.start
    windowAt := zone.start
    erasedTo := zone.start
    zoneStart := zone.start
    zoneEnd := zone.stop
    chip := zone.chip }

/-- The end of the block that holds the receiving cursor, or of the zone if that
comes first. Blocks are counted from the start of the zone. -/
def paddedReceive (e : Engine) : Address :=
  let block := UInt32.ofNat blockSize
  let blocks := Address.divCeil (e.receiveAt - e.zoneStart) block
  min (Address.addSat e.zoneStart (Address.mulSat blocks block)) e.zoneEnd

/-- Moves the receiving cursor past a block that was committed before it was
full. -/
def skipPadding (e : Engine) : Engine := { e with receiveAt := e.paddedReceive }

/-- The bytes of the current window: a block, or what is left of the zone. -/
def windowLength (e : Engine) : Nat :=
  min blockSize (Address.subSat e.zoneEnd e.windowAt).toNat

def openWindow (e : Engine) : Engine :=
  { e with stage := .erasing, length := e.windowLength, offset := 0 }

def rest (e : Engine) : Engine := { e with stage := .idle }

def spendAttempt (e : Engine) : Engine :=
  { e with attempts := if e.attempts = 0 then 0 else e.attempts - 1 }

def endAttempt (e : Engine) : Engine := { e.spendAttempt.rest with offset := 0 }

def giveUp (e : Engine) (maxAttempts : UInt8) : Engine :=
  { e.rest with offset := 0, attempts := maxAttempts }

def advance (e : Engine) (maxAttempts : UInt8) : Engine :=
  { e.rest with
    windowAt := e.windowAt + UInt32.ofNat e.length
    attempts := maxAttempts }

/-- The region to erase for the current window: the large one if it starts at
the window and ends inside the zone, a sector otherwise. A large region anywhere
else would take committed windows or another zone with it. -/
def eraseUnit (e : Engine) (preferred : EraseUnit) : EraseUnit :=
  let base := preferred.baseOf e.windowAt
  if base = e.windowAt ∧ Address.addSat base preferred.size ≤ e.zoneEnd then preferred
  else .sector4K

def pageAt (e : Engine) : Address := e.windowAt + UInt32.ofNat e.offset

/-- The bytes of the next page command: up to the page boundary or the end of
the window. -/
def pageLength (e : Engine) : Nat :=
  min (e.length - e.offset) (pageSize - e.pageAt.toNat % pageSize)

end Engine

end DfuLoader
