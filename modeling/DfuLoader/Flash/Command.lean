import DfuLoader.Flash.Comparison

/-!
# The commands of a board

All that the loader asks of the board it runs on: the primitives of the flash
chips, the comparison of a window, the requests that a vendor adds to the
interface, and the reboot. Every command acts on the chip that was selected
last. Each has its own type of reply, so a board cannot answer a read with too
few bytes or a vendor request with more than there is room for. An erase or
program command only starts the work; the status register shows when it is done.
-/

namespace DfuLoader

inductive Command where
  /-- Send what follows to this chip. -/
  | select (chip : Chip)
  | readStatus
  | read (start : Address) (length : Nat)
  /-- Allow the next erase or program command. -/
  | writeEnable
  /-- Start to erase the region at an address. -/
  | erase (start : Address) (size : EraseUnit)
  /-- Start to program at most a page of bytes, within one page. -/
  | program (start : Address) (bytes : Bytes)
  /-- Compare wanted bytes with the stored ones. -/
  | verify (start : Address) (wanted : Bytes)
  /-- Serve a vendor's device-to-host request with at most `room` bytes. -/
  | vendorIn (request : UInt8) (value : UInt16) (room : Nat)
  /-- Serve a vendor's host-to-device request. -/
  | vendorOut (request : UInt8) (value : UInt16) (bytes : Bytes)
  /-- Restart the device. A board may come back from it. -/
  | reboot
  deriving DecidableEq, Repr

abbrev Command.Reply : Command → Type
  | .select _ => Unit
  | .readStatus => Except Fault UInt8
  | .read _ length => Except Fault (Bytes.OfLength length)
  | .writeEnable => Except Fault Unit
  | .erase _ _ => Except Fault Unit
  | .program _ _ => Except Fault Unit
  | .verify _ _ => Except Fault Outcome
  | .vendorIn _ _ room => Option { bytes : Bytes // bytes.length ≤ room }
  | .vendorOut _ _ _ => Bool
  | .reboot => Unit

structure Exchange where
  command : Command
  reply : command.Reply

end DfuLoader
