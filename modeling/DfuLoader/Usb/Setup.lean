/-!
# Setup packets

A control transfer begins with a setup packet. Its first byte says which way the
data goes, who defines the request and whom it is for; the rest is the request
code, two arguments and the length of the data.
-/

namespace DfuLoader

namespace Usb

inductive Direction where
  | hostToDevice
  | deviceToHost
  deriving DecidableEq, Repr

inductive Kind where
  | standard
  | classSpecific
  | vendor
  | reserved
  deriving DecidableEq, Repr

inductive Recipient where
  | device
  | interface
  /-- An endpoint, or something that no request names. -/
  | other
  deriving DecidableEq, Repr

structure Setup where
  direction : Direction
  kind : Kind
  recipient : Recipient
  request : UInt8
  value : UInt16
  index : UInt16
  length : UInt16
  deriving DecidableEq, Repr

namespace Setup

/-- The packet with a given first byte: bit 7 is the direction, bits 5 and 6 are
the kind, and the lower bits are the recipient. -/
def ofFields (requestType request : UInt8) (value index length : UInt16) : Setup where
  direction := if requestType &&& 0x80 = 0 then .hostToDevice else .deviceToHost
  kind :=
    match (requestType >>> 5) &&& 3 with
    | 0 => .standard
    | 1 => .classSpecific
    | 2 => .vendor
    | _ => .reserved
  recipient :=
    match requestType &&& 0x1f with
    | 0 => .device
    | 1 => .interface
    | _ => .other
  request := request
  value := value
  index := index
  length := length

end Setup

end Usb

end DfuLoader
