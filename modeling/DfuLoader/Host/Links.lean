import DfuLoader.Host.Transfer
import DfuLoader.Usb.Device

/-!
# Links to a session and to a device

The two ways to reach a loader: straight through a session, whose requests are
checked and then served, and through the control transfers of a device, which
says no more about a refusal than that it stalls.
-/

namespace DfuLoader

/-- The link straight to a session. `limit` bounds the wait for a status. -/
def Session.link (cfg : Config) (limit : Nat) : Host.Link SessionError Session where
  download _ block s :=
    match s.request Request.download.code with
    | (.error e, s) => return (.error e, s)
    | (.ok _, s) => return s.download cfg block
  upload _ length s :=
    match s.request Request.upload.code with
    | (.error e, s) => return (.error e, s)
    | (.ok _, s) => s.upload length length
  status s :=
    match s.request Request.getStatus.code with
    | (.error e, s) => return some (.error e, s)
    | (.ok _, s) => do
        let some (report, s) ← s.getStatus cfg limit | return none
        return some (.ok report.toBytes, s)
  tick s := s.tick cfg

namespace Usb

def Setup.ofRequest (direction : Direction) (request : Request) (interface : UInt16)
    (value length : Nat) : Setup where
  direction := direction
  kind := .classSpecific
  recipient := .interface
  request := request.code
  value := UInt16.ofNat value
  index := interface
  length := UInt16.ofNat length

def ReadResult.toExcept : ReadResult → Except Unit Bytes
  | data bytes => .ok bytes
  | stall => .error ()

def WriteResult.toExcept : WriteResult → Except Unit Unit
  | ack => .ok ()
  | stall => .error ()

def Interface.link (cfg : Config) (limit : Nat) (number : UInt16) : Host.Link Unit Interface where
  download block bytes i := do
    let setup := Setup.ofRequest .hostToDevice .download number block bytes.length
    let (result, i) ← i.controlWrite cfg setup bytes
    return (result.toExcept, i)
  upload block length i := do
    let setup := Setup.ofRequest .deviceToHost .upload number block length
    match ← i.controlRead cfg limit setup with
    | some (result, i) => return (result.toExcept, i)
    | none => return (.error (), i)
  status i := do
    let setup := Setup.ofRequest .deviceToHost .getStatus number 0 6
    let some (result, i) ← i.controlRead cfg limit setup | return none
    return some (result.toExcept, i)
  tick i := i.tick cfg

end Usb

end DfuLoader
