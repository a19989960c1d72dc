/-!
# Flash geometry

Two chips share the bus. An address is a 32-bit byte address on the selected
chip. Data is committed in blocks of `blockSize` bytes, programmed in pages of
`pageSize` bytes, and erased in regions of one of three sizes, each aligned to
itself. Address arithmetic that may leave the 32-bit range is named here for
what it does there: it stops at the last address (`addSat`, `mulSat`), stops at
zero (`subSat`), or gives no result (`add?`).
-/

namespace DfuLoader

inductive Chip where
  /-- The configuration flash on the board. -/
  | internal
  /-- The flash on the removable cartridge. -/
  | cartridge
  deriving DecidableEq, Repr

inductive Fault where
  | bus
  /-- The address lies outside the selected chip. -/
  | address
  deriving DecidableEq, Repr

/-- Bytes of a block: what one buffer slot holds and one window commits. -/
def blockSize : Nat := 4096

/-- The most bytes one program command carries, and the boundary it keeps to. -/
def pageSize : Nat := 256

def erasedByte : UInt8 := 0xff

def busyBit : UInt8 := 0x01

abbrev Address := UInt32

namespace Address

def top : Address := 0xffffffff

def addSat (a b : Address) : Address := UInt32.ofNat (min (a.toNat + b.toNat) top.toNat)

def mulSat (a b : Address) : Address := UInt32.ofNat (min (a.toNat * b.toNat) top.toNat)

def subSat (a b : Address) : Address := UInt32.ofNat (a.toNat - b.toNat)

def add? (a : Address) (n : Nat) : Option Address :=
  if a.toNat + n < UInt32.size then some (UInt32.ofNat (a.toNat + n)) else none

def divCeil (a unit : Address) : Address := a / unit + (if a % unit = 0 then 0 else 1)

end Address

inductive EraseUnit where
  | sector4K
  | block32K
  | block64K
  deriving DecidableEq, Repr

namespace EraseUnit

def size : EraseUnit → UInt32
  | sector4K => 4 * 1024
  | block32K => 32 * 1024
  | block64K => 64 * 1024

/-- The start of the region that holds an address. Regions are aligned to
their size, a power of two, so the low bits are cleared. -/
def baseOf (unit : EraseUnit) (a : Address) : Address := a &&& ~~~(unit.size - 1)

end EraseUnit

end DfuLoader
