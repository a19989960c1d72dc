import DfuLoader.Bytes
import DfuLoader.Config

/-!
# Descriptors

A device describes itself to the host in records, and keeps the writing of them to itself: an
interface tells a `Writer` what to put into its own. The loader's are one record for each zone,
all of the same interface in different alternate settings, and the functional record of the class.
-/

namespace DfuLoader

namespace Usb

/-- An alternate setting, as an interface tells its device of it. -/
structure Alternate where
  number : UInt8
  alt : UInt8
  classCode : UInt8
  subclass : UInt8
  protocol : UInt8
  /-- The index of its name. -/
  string : UInt8
  deriving DecidableEq, Repr

/-- The bytes that a device writes for an interface. -/
structure Writer where
  /-- What it writes for an alternate setting. -/
  alternate : Alternate → Bytes
  /-- What it writes for a record of some type. -/
  record : UInt8 → Bytes → Bytes

def applicationClass : UInt8 := 0xfe

def upgradeSubclass : UInt8 := 0x01

def upgradeProtocol : UInt8 := 0x02

/-- The attributes of a loader: it detaches by itself, takes requests after
manifestation, and serves uploads and downloads. -/
def upgradeAttributes : UInt8 := 0x0f

/-- The functional record of the class, for version 1.1 of the protocol. -/
def functionalDescriptor (w : Writer) (cfg : Config) : Bytes :=
  w.record 0x21 <|
    upgradeAttributes :: Bytes.word16 cfg.detachTimeout ++ Bytes.word16 cfg.transferSize ++
      Bytes.word16 0x0110

end Usb

end DfuLoader
