import DfuLoader.Usb.Interface

/-!
# The device around the interface

The device takes the control transfers of the host. It offers each to the
loader's interface, answers the standard requests that the interface passes on,
and stalls everything else. A write that is too long for the control buffer is
stalled before anybody sees it, and an answer is cut to the length that the host
asked for. After every transfer the interface is polled once.

Descriptors are records that begin with their length and their type, and strings
are sent as 16-bit units.
-/

namespace DfuLoader

namespace Usb

/-- Interfaces count from zero. The first four strings describe the device. -/
def Numbering.initial : Numbering := ⟨0, 4⟩

def descriptor (type : UInt8) (payload : Bytes) : Bytes :=
  UInt8.ofNat (payload.length + 2) :: type :: payload

/-- The writer of the device. An alternate setting has no endpoints to begin with. -/
def Writer.standard : Writer where
  alternate a :=
    descriptor 0x04 [a.number, a.alt, 0, a.classCode, a.subclass, a.protocol, a.string]
  record := descriptor

/-- The record of a configuration with one interface, followed by the records
inside it. The device draws at most 100 mA from the bus. -/
def configurationDescriptor (inside : Bytes) : Bytes :=
  descriptor 0x02
    (Bytes.word16 (UInt16.ofNat (inside.length + 9)) ++ [0x01, 0x01, 0x00, 0x80, 0x32]) ++ inside

def unitsOfChar (c : Char) : List UInt16 :=
  if c.toNat < 0x10000 then [UInt16.ofNat c.toNat]
  else
    let rest := c.toNat - 0x10000
    [UInt16.ofNat (0xd800 + rest / 0x400), UInt16.ofNat (0xdc00 + rest % 0x400)]

def stringDescriptor (text : String) : Bytes :=
  descriptor 0x03 ((text.toList.flatMap unitsOfChar).flatMap Bytes.word16)

inductive ReadResult where
  | data (bytes : Bytes)
  | stall
  deriving DecidableEq, Repr

def ReadResult.cut (length : Nat) : ReadResult → ReadResult
  | data bytes => data (bytes.take length)
  | stall => stall

inductive WriteResult where
  | ack
  | stall
  deriving DecidableEq, Repr

def lowByte (w : UInt16) : UInt8 := w.toUInt8

def highByte (w : UInt16) : UInt8 := (w >>> 8).toUInt8

namespace Interface

/-- Answers a descriptor request: the configuration, or a string of the
interface. The first strings belong to the device, which has none. -/
def describe (cfg : Config) (i : Interface) (value language : UInt16) : ReadResult :=
  match highByte value with
  | 2 => .data (configurationDescriptor (i.descriptors .standard cfg))
  | 3 =>
      if lowByte value < Numbering.initial.string then .stall
      else match i.string? cfg (lowByte value) language with
        | some text =>
            if (stringDescriptor text).length ≤ cfg.controlBuffer then
              .data (stringDescriptor text)
            else .stall
        | none => .stall
  | _ => .stall

def standardRead (cfg : Config) (i : Interface) (setup : Setup) : ReadResult :=
  match setup.kind, setup.recipient, setup.request with
  | .standard, .device, 6 => i.describe cfg setup.value setup.index
  | .standard, .interface, 10 =>
      if setup.index > 255 then .stall else .data [(i.alt? (lowByte setup.index)).getD 0]
  | _, _, _ => .stall

/-- Answers a write that the interface passed on. There is one configuration,
and an interface that is not known to have settings has the setting zero. -/
def standardWrite (cfg : Config) (i : Interface) (setup : Setup) : WriteResult × Interface :=
  match setup.kind, setup.recipient, setup.request with
  | .standard, .device, 9 => (if setup.value ≤ 1 then .ack else .stall, i)
  | .standard, .interface, 11 =>
      if setup.index > 255 ∨ setup.value > 255 then (.stall, i)
      else match i.selectAlt cfg (lowByte setup.index) (lowByte setup.value) with
        | (true, i) => (.ack, i)
        | (false, i) => (if setup.value = 0 then .ack else .stall, i)
  | _, _, _ => (.stall, i)

def resultOfRead (cfg : Config) (i : Interface) (setup : Setup) : ReadAnswer → ReadResult
  | .data bytes => .data bytes
  | .refuse => .stall
  | .pass => i.standardRead cfg setup

def resultOfWrite (cfg : Config) (i : Interface) (setup : Setup) :
    WriteAnswer → WriteResult × Interface
  | .accept => (.ack, i)
  | .refuse => (.stall, i)
  | .pass => i.standardWrite cfg setup

def controlRead (cfg : Config) (limit : Nat) (i : Interface) (setup : Setup) :
    Dialogue (Option (ReadResult × Interface)) := do
  let some (answer, i) ← i.read cfg limit setup | return none
  let result := (i.resultOfRead cfg setup answer).cut setup.length.toNat
  return some (result, ← i.poll)

def controlWrite (cfg : Config) (i : Interface) (setup : Setup) (bytes : Bytes) :
    Dialogue (WriteResult × Interface) := do
  if setup.length.toNat > cfg.controlBuffer then
    return (.stall, ← i.poll)
  else
    let (answer, i) ← i.write cfg setup bytes
    let (result, i) := i.resultOfWrite cfg setup answer
    return (result, ← i.poll)

inductive Event where
  | read (setup : Setup)
  | write (setup : Setup) (bytes : Bytes)
  | reset
  | poll
  | configured
  | tick
  deriving DecidableEq, Repr

inductive Response where
  | quiet
  | read (result : ReadResult)
  | written (result : WriteResult)
  | ticked (tick : Tick)
  deriving DecidableEq, Repr

def handle (cfg : Config) (limit : Nat) (i : Interface) :
    Event → Dialogue (Option (Response × Interface))
  | .read setup => do
      let some (result, i) ← i.controlRead cfg limit setup | return none
      return some (.read result, i)
  | .write setup bytes => do
      let (result, i) ← i.controlWrite cfg setup bytes
      return some (.written result, i)
  | .reset => return some (.quiet, ← i.reset cfg)
  | .poll => return some (.quiet, ← i.poll)
  | .configured => return some (.quiet, i.withSession (i.session.configured cfg))
  | .tick => do
      let (tick, i) ← i.tick cfg
      return some (.ticked tick, i)

end Interface

end Usb

end DfuLoader
