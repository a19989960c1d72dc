import DfuLoader.Flash.Geometry

/-!
# Zones

A zone is a region of one chip that the host may write or read back. The host
picks it by number, the alternate setting of the interface, from a table of one
to `maxZones` zones. A zone may be empty, and nothing keeps its end from lying
before its start; such a zone is empty too and has no size.
-/

namespace DfuLoader

structure Zone where
  chip : Chip
  start : Address
  /-- One past the last byte of the region. -/
  stop : Address
  /-- What the host shows for the alternate setting. -/
  name : String
  deriving DecidableEq, Repr

namespace Zone

def isEmpty (z : Zone) : Bool := z.stop ≤ z.start

def size? (z : Zone) : Option UInt32 := if z.start ≤ z.stop then some (z.stop - z.start) else none

end Zone

def maxZones : Nat := 8

/-- The zones of a board in the order of their alternate settings. -/
structure ZoneTable where
  zones : List Zone
  nonempty : zones ≠ []
  length_le : zones.length ≤ maxZones

namespace ZoneTable

def ofList? (zones : List Zone) : Option ZoneTable :=
  if h : zones ≠ [] ∧ zones.length ≤ maxZones then some ⟨zones, h.1, h.2⟩ else none

def get? (table : ZoneTable) (alt : UInt8) : Option Zone := table.zones[alt.toNat]?

def size (table : ZoneTable) : Nat := table.zones.length

def isEmpty (table : ZoneTable) : Bool := table.zones.isEmpty

def names (table : ZoneTable) : List String := table.zones.map Zone.name

theorem isEmpty_eq_false (table : ZoneTable) : table.isEmpty = false := by
  simpa [isEmpty] using table.nonempty

/-- The partition of the reference board. Its last zone is smaller than the
least region that can be erased, so erasing it clears the bytes behind it too. -/
def reference : ZoneTable where
  zones := [
    ⟨.internal, 0x00200000, 0x01000000, "user bitstream"⟩,
    ⟨.internal, 0x00340000, 0x00380000, "fw_jump"⟩,
    ⟨.internal, 0x00380000, 0x01000000, "u-boot"⟩,
    ⟨.internal, 0x00400000, 0x01000000, "user data"⟩,
    ⟨.internal, 0x00800000, 0x01000000, "user data (upper)"⟩,
    ⟨.internal, 0x00000000, 0x00200000, "bootloader bitstream"⟩,
    ⟨.cartridge, 0x00000000, 0x00000100, "RTC"⟩]
  nonempty := by simp
  length_le := by simp [maxZones]

end ZoneTable

end DfuLoader
