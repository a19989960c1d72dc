import DfuLoader.Flash.Geometry

/-!
# States, requests and errors of the protocol

The states and status codes of the device firmware upgrade protocol, version
1.1, the requests of its class, and which request is served in which state. The
numbers are those that go over the wire.
-/

namespace DfuLoader

inductive State where
  /-- The application runs. -/
  | appIdle
  /-- The application runs, was told to detach and waits for a bus reset. -/
  | appDetach
  /-- The loader waits for a request. -/
  | idle
  /-- A block was received and the host has not asked for the status yet. -/
  | downloadSync
  /-- A block is being written. -/
  | downloadBusy
  /-- The next block may come. -/
  | downloadIdle
  /-- The image is complete and the host has not asked for the status yet. -/
  | manifestSync
  /-- The image is being written. -/
  | manifest
  /-- The image is written and a bus reset has to follow. -/
  | manifestWaitReset
  /-- The next block may be read back. -/
  | uploadIdle
  /-- A request was refused and the host has to clear the status. -/
  | error
  deriving DecidableEq, Repr

def State.code : State → UInt8
  | appIdle => 0
  | appDetach => 1
  | idle => 2
  | downloadSync => 3
  | downloadBusy => 4
  | downloadIdle => 5
  | manifestSync => 6
  | manifest => 7
  | manifestWaitReset => 8
  | uploadIdle => 9
  | error => 10

inductive Status where
  | ok
  | errTarget
  | errFile
  | errWrite
  | errErase
  | errCheckErased
  | errProg
  | errVerify
  | errAddress
  | errNotDone
  | errFirmware
  | errVendor
  /-- The bus was reset unexpectedly. -/
  | errUsbReset
  | errPowerOnReset
  /-- Something went wrong that has no code of its own. -/
  | errUnknown
  | errStalledPacket
  deriving DecidableEq, Repr

def Status.code : Status → UInt8
  | ok => 0x00
  | errTarget => 0x01
  | errFile => 0x02
  | errWrite => 0x03
  | errErase => 0x04
  | errCheckErased => 0x05
  | errProg => 0x06
  | errVerify => 0x07
  | errAddress => 0x08
  | errNotDone => 0x09
  | errFirmware => 0x0a
  | errVendor => 0x0b
  | errUsbReset => 0x0c
  | errPowerOnReset => 0x0d
  | errUnknown => 0x0e
  | errStalledPacket => 0x0f

inductive Request where
  | detach
  | download
  | upload
  | getStatus
  | clearStatus
  | getState
  | abort
  deriving DecidableEq, Repr

namespace Request

def code : Request → UInt8
  | detach => 0
  | download => 1
  | upload => 2
  | getStatus => 3
  | clearStatus => 4
  | getState => 5
  | abort => 6

def ofCode? (code : UInt8) : Option Request :=
  match code with
  | 0 => some detach
  | 1 => some download
  | 2 => some upload
  | 3 => some getStatus
  | 4 => some clearStatus
  | 5 => some getState
  | 6 => some abort
  | _ => none

@[simp] theorem ofCode?_code (r : Request) : ofCode? r.code = some r := by cases r <;> rfl

end Request

/-- The requests that a state serves. A loader that is idle also serves a
detach, so that a host can leave it. -/
def State.served : State → List Request
  | appIdle => [.detach, .getStatus, .getState]
  | appDetach => [.getStatus, .getState]
  | idle => [.detach, .download, .upload, .getStatus, .getState, .abort]
  | downloadSync => [.download, .getStatus, .getState, .abort]
  | downloadBusy => []
  | downloadIdle => [.download, .getStatus, .getState, .abort]
  | manifestSync => [.getStatus, .getState, .abort]
  | manifest => []
  | manifestWaitReset => []
  | uploadIdle => [.upload, .getStatus, .getState, .abort]
  | error => [.getStatus, .clearStatus, .getState]

def State.allows (s : State) (r : Request) : Bool := s.served.contains r

inductive SessionError where
  /-- The request is unknown, malformed, or not served in the current state. -/
  | protocolViolation
  /-- A download goes past the end of the zone. -/
  | rangeOverflow
  /-- A flash primitive failed while a request was served. -/
  | flash (fault : Fault)
  /-- A window was given up. The host is not told, the device reboots. -/
  | attemptsExhausted
  /-- The bus was reset in a session. The host is not told, the device reboots. -/
  | busReset
  deriving DecidableEq, Repr

def SessionError.status : SessionError → Status
  | busReset => .errUsbReset
  | protocolViolation | rangeOverflow | flash _ | attemptsExhausted => .errUnknown

end DfuLoader
