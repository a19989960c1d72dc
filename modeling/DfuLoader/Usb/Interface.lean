import DfuLoader.Session.Basic
import DfuLoader.Usb.Descriptor
import DfuLoader.Usb.Setup

/-!
# The loader's interface

The interface is the part of the device that a session stands behind. It is
offered every control transfer first and answers those of its class and of its
vendor that are for it; the others it passes on, and a transfer for another
interface leaves the session as it is. Each alternate setting carries the index
of a string, which reads back as the name of its zone.
-/

namespace DfuLoader

namespace Usb

structure Numbering where
  interface : UInt8
  string : UInt8
  deriving DecidableEq, Repr

def Numbering.skip (n : Numbering) (interfaces strings : UInt8) : Numbering :=
  ⟨n.interface + interfaces, n.string + strings⟩

inductive ReadAnswer where
  /-- The transfer is for somebody else. -/
  | pass
  | data (bytes : Bytes)
  | refuse
  deriving DecidableEq, Repr

inductive WriteAnswer where
  /-- The transfer is for somebody else. -/
  | pass
  | accept
  | refuse
  deriving DecidableEq, Repr

structure Interface where
  number : UInt8
  /-- The index of the name of each zone, in the order of the zones. -/
  strings : List UInt8
  session : Session
  deriving DecidableEq, Repr

namespace Interface

def attach (cfg : Config) (numbering : Numbering) : Interface × Numbering :=
  ({ number := numbering.interface
     strings := (List.range cfg.zones.size).map fun k => numbering.string + UInt8.ofNat k
     session := .initial cfg },
   numbering.skip 1 (UInt8.ofNat cfg.zones.size))

def descriptors (w : Writer) (cfg : Config) (i : Interface) : Bytes :=
  (i.strings.zipIdx.flatMap fun (string, alt) =>
    w.alternate ⟨i.number, UInt8.ofNat alt, applicationClass, upgradeSubclass, upgradeProtocol,
      string⟩) ++ functionalDescriptor w cfg

/-- The languages that names are known in: US English, and none in particular. -/
def knowsLanguage (language : UInt16) : Bool := language == 0x0409 || language == 0

def string? (cfg : Config) (i : Interface) (index : UInt8) (language : UInt16) : Option String :=
  if knowsLanguage language then
    (i.strings.idxOf? index).bind fun alt =>
      (cfg.zones.get? (UInt8.ofNat alt)).map Zone.name
  else none

def alt? (i : Interface) (number : UInt8) : Option UInt8 :=
  if number = i.number then some i.session.alt else none

def addressed (i : Interface) (setup : Setup) : Bool :=
  setup.recipient == .interface && setup.index == i.number.toUInt16

def withSession (i : Interface) (s : Session) : Interface := { i with session := s }

/-- Selects an alternate setting of an interface, and says whether the interface is this one and
has such a setting. -/
def selectAlt (cfg : Config) (i : Interface) (number alt : UInt8) : Bool × Interface :=
  if number = i.number then
    match i.session.selectAlt cfg alt with
    | some s => (true, i.withSession s)
    | none => (false, i)
  else (false, i)

def misdirected (i : Interface) : Interface :=
  i.withSession (i.session.fail .protocolViolation)

/-- Serves an upload with as many bytes as the host asks for, a transfer carries
and the control buffer holds. -/
def upload (cfg : Config) (i : Interface) (length : UInt16) :
    Dialogue (ReadAnswer × Interface) := do
  let room := min (min length cfg.transferSize).toNat cfg.controlBuffer
  let (result, s) ← i.session.upload room length.toNat
  return (match result with
    | .ok bytes => .data bytes
    | .error _ => .refuse, i.withSession s)

def classRead (cfg : Config) (limit : Nat) (i : Interface) (setup : Setup) :
    Dialogue (Option (ReadAnswer × Interface)) :=
  match i.session.request setup.request with
  | (.error _, s) => return some (.refuse, i.withSession s)
  | (.ok .upload, s) => some <$> (i.withSession s).upload cfg setup.length
  | (.ok .getStatus, s) => do
      let some (report, s) ← s.getStatus cfg limit | return none
      return some (.data report.toBytes, i.withSession s)
  | (.ok .getState, s) => return some (.data [s.state.code], i.withSession s)
  | (.ok _, s) => return some (.refuse, (i.withSession s).misdirected)

def classWrite (cfg : Config) (i : Interface) (setup : Setup) (bytes : Bytes) :
    WriteAnswer × Interface :=
  match i.session.request setup.request with
  | (.error _, s) => (.refuse, i.withSession s)
  | (.ok .detach, s) => (.accept, i.withSession s.detach)
  | (.ok .download, s) =>
      match s.download cfg (bytes.take setup.length.toNat) with
      | (.ok _, s) => (.accept, i.withSession s)
      | (.error _, s) => (.refuse, i.withSession s)
  | (.ok .clearStatus, s) => (.accept, i.withSession s.clearStatus)
  | (.ok .abort, s) => (.accept, i.withSession s.abort)
  | (.ok _, s) => (.refuse, (i.withSession s).misdirected)

def read (cfg : Config) (limit : Nat) (i : Interface) (setup : Setup) :
    Dialogue (Option (ReadAnswer × Interface)) :=
  if i.addressed setup then
    match setup.kind with
    | .classSpecific => i.classRead cfg limit setup
    | .vendor => do
        match ← Dialogue.vendorIn setup.request setup.value
            (min setup.length.toNat cfg.controlBuffer) with
        | some bytes => return some (.data bytes.val, i)
        | none => return some (.refuse, i)
    | .standard | .reserved => return some (.pass, i)
  else return some (.pass, i)

def configures (setup : Setup) : Bool :=
  setup.kind == .standard && setup.recipient == .device && setup.request == 9 && setup.value != 0

/-- Answers a transfer that writes to the device. A vendor's request goes to the
board. That the device is being configured is taken note of, but left to the
device to answer. -/
def write (cfg : Config) (i : Interface) (setup : Setup) (bytes : Bytes) :
    Dialogue (WriteAnswer × Interface) :=
  if configures setup then return (.pass, i.withSession (i.session.configured cfg))
  else if i.addressed setup then
    match setup.kind with
    | .classSpecific => return i.classWrite cfg setup bytes
    | .vendor => do
        let accepted ← Dialogue.vendorOut setup.request setup.value bytes
        return (if accepted then .accept else .refuse, i)
    | .standard | .reserved => return (.pass, i)
  else return (.pass, i)

def reset (cfg : Config) (i : Interface) : Dialogue Interface := do
  return i.withSession (← i.session.busReset cfg)

def poll (i : Interface) : Dialogue Interface := do
  return i.withSession (← i.session.poll)

def tick (cfg : Config) (i : Interface) : Dialogue (Tick × Interface) := do
  let (tick, s) ← i.session.tick cfg
  return (tick, i.withSession s)

end Interface

end Usb

end DfuLoader
