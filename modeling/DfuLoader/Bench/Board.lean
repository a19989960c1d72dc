import DfuLoader.Bench.Memory
import DfuLoader.Flash.Readback

/-!
# A simulated board

A board with two simulated chips, on which the loader can be tried out. It keeps
to the rules of real ones: an erase or program command needs the write enable
latch and an idle chip, and makes the chip busy for a number of status reads.
And it can be told to misbehave: primitives can be made to fail, program commands
to have no effect, and bits to be stuck at zero. It keeps a journal of the
commands that reach its chips.

On a fused board the controller compares windows by itself, in one transaction or
by a script of outcomes, and a few vendor requests are served.
-/

namespace DfuLoader

namespace Bench

structure FaultPlan where
  /-- The calls that still succeed. -/
  skip : Nat
  /-- The calls after those that fail. -/
  count : Nat
  fault : Fault
  deriving DecidableEq, Repr

namespace FaultPlan

def none : FaultPlan := ⟨0, 0, .bus⟩

def next (plan : FaultPlan) : Option Fault × FaultPlan :=
  if plan.count = 0 then (Option.none, plan)
  else if plan.skip > 0 then (Option.none, { plan with skip := plan.skip - 1 })
  else (some plan.fault, { plan with count := plan.count - 1 })

end FaultPlan

inductive Primitive where
  | read
  | program
  | erase
  | readStatus
  | writeEnable
  deriving DecidableEq, Repr

structure FaultPlans where
  read : FaultPlan := .none
  program : FaultPlan := .none
  erase : FaultPlan := .none
  readStatus : FaultPlan := .none
  writeEnable : FaultPlan := .none
  deriving DecidableEq, Repr

namespace FaultPlans

def get (plans : FaultPlans) : Primitive → FaultPlan
  | .read => plans.read
  | .program => plans.program
  | .erase => plans.erase
  | .readStatus => plans.readStatus
  | .writeEnable => plans.writeEnable

def set (plans : FaultPlans) (on : Primitive) (plan : FaultPlan) : FaultPlans :=
  match on with
  | .read => { plans with read := plan }
  | .program => { plans with program := plan }
  | .erase => { plans with erase := plan }
  | .readStatus => { plans with readStatus := plan }
  | .writeEnable => { plans with writeEnable := plan }

end FaultPlans

structure Stuck where
  chip : Chip
  address : Nat
  mask : UInt8
  deriving DecidableEq, Repr

structure State where
  internal : Memory := .blank
  cartridge : Memory := .blank
  internalSize : Nat := 0x01000000
  cartridgeSize : Nat := 0x10000
  selected : Chip := .internal
  writeEnabled : Bool := false
  /-- The status reads for which the chip stays busy. -/
  busy : Nat := 0
  /-- The status reads for which an erase or program command makes it busy. -/
  busyPolls : Nat := 0
  /-- The bits of the status register besides the busy bit. -/
  statusBits : UInt8 := 0
  /-- The program commands that still have no effect. -/
  dropPrograms : Nat := 0
  stuck : List Stuck := []
  plans : FaultPlans := {}
  fused : Bool := false
  /-- The codes of the outcomes that the controller of a fused board has coming. -/
  verdicts : List UInt8 := []
  reboots : Nat := 0
  /-- The commands that reached the chips, with their answers, newest first. -/
  journal : List Exchange := []

namespace State

def memory (b : State) : Chip → Memory
  | .internal => b.internal
  | .cartridge => b.cartridge

def setMemory (b : State) (chip : Chip) (m : Memory) : State :=
  match chip with
  | .internal => { b with internal := m }
  | .cartridge => { b with cartridge := m }

def size (b : State) : Chip → Nat
  | .internal => b.internalSize
  | .cartridge => b.cartridgeSize

def applyStuck (b : State) : State :=
  b.stuck.foldl (fun b stuck =>
    if stuck.chip = b.selected then
      let m := b.memory stuck.chip
      b.setMemory stuck.chip (m.set stuck.address (m.get stuck.address &&& ~~~stuck.mask))
    else b) b

def call {α : Type} (b : State) (on : Primitive) (body : State → Except Fault α × State) :
    Except Fault α × State :=
  let (fault?, plan) := (b.plans.get on).next
  let b := { b with plans := b.plans.set on plan }
  match fault? with
  | some fault => (.error fault, b)
  | none => body b

/-- Calls a primitive that changes the memory: it needs the write enable latch
and an idle chip, takes the latch and makes the chip busy. -/
def callWriting (b : State) (on : Primitive) (body : State → Except Fault Unit × State) :
    Except Fault Unit × State :=
  b.call on fun b =>
    if b.writeEnabled = false ∨ b.busy > 0 then (.error .bus, b)
    else body { b with writeEnabled := false, busy := b.busyPolls }

def read (b : State) (start : Address) (length : Nat) :
    Except Fault (Bytes.OfLength length) × State :=
  b.call .read fun b =>
    if start.toNat + length > b.size b.selected then (.error .address, b)
    else (.ok ⟨(b.memory b.selected).range start.toNat length, by simp⟩, b)

def program (b : State) (start : Address) (bytes : Bytes) : Except Fault Unit × State :=
  b.callWriting .program fun b =>
    if start.toNat + bytes.length > b.size b.selected then (.error .address, b)
    else if b.dropPrograms > 0 then (.ok (), { b with dropPrograms := b.dropPrograms - 1 })
    else
      let m := (b.memory b.selected).program start.toNat bytes
      (.ok (), (b.setMemory b.selected m).applyStuck)

def erase (b : State) (start : Address) (size : EraseUnit) : Except Fault Unit × State :=
  b.callWriting .erase fun b =>
    let stop := min (start.toNat + size.size.toNat) (b.size b.selected)
    let m := (b.memory b.selected).erase start.toNat (stop - start.toNat)
    (.ok (), (b.setMemory b.selected m).applyStuck)

def readStatus (b : State) : Except Fault UInt8 × State :=
  b.call .readStatus fun b =>
    if b.busy > 0 then (.ok (busyBit ||| b.statusBits), { b with busy := b.busy - 1 })
    else (.ok b.statusBits, b)

def writeEnable (b : State) : Except Fault Unit × State :=
  b.call .writeEnable fun b => (.ok (), { b with writeEnabled := true })

def nextVerdict (b : State) : Outcome × State :=
  match b.verdicts with
  | [] => (.same, b)
  | bits :: rest => (.ofBits bits, { b with verdicts := rest })

/-- Serves a vendor's device-to-host request: one fills all the room with its
argument and a count, one answers with the room it has, and one with nothing. -/
def vendorIn (b : State) (request : UInt8) (value : UInt16) (room : Nat) :
    Option { bytes : Bytes // bytes.length ≤ room } :=
  if b.fused then
    match request with
    | 0x10 =>
        some ⟨(Bytes.word16 value ++ (List.range (room - 2)).map fun k => UInt8.ofNat (k + 2)).take
          room, List.length_take_le _ _⟩
    | 0x11 => if h : 1 ≤ room then some ⟨[UInt8.ofNat room], by simpa using h⟩ else none
    | 0x12 => some ⟨[], by simp⟩
    | _ => none
  else none

def note (b : State) (exchange : Exchange) : State :=
  { b with journal := exchange :: b.journal }

end State

def chips : Board State where
  answer
    | .select chip, b => ((), { b with selected := chip })
    | .readStatus, b => b.readStatus
    | .read start length, b => b.read start length
    | .writeEnable, b => b.writeEnable
    | .erase start size, b => b.erase start size
    | .program start bytes, b => b.program start bytes
    | .verify _ _, b => let (outcome, b) := b.nextVerdict; (.ok outcome, b)
    | .vendorIn request value room, b => (b.vendorIn request value room, b)
    | .vendorOut request _ _, b => (b.fused && request == 0x20, b)
    | .reboot, b => ((), { b with reboots := b.reboots + 1 })

def recordedChips : Board State where
  answer command b :=
    let (reply, b) := chips.answer command b
    (reply, b.note ⟨command, reply⟩)

/-- The whole board. A comparison that is not scripted reads the window, and a
vendor request that writes reaches nothing unless the board is fused. -/
def board : Board State where
  answer
    | .verify start wanted, b =>
        if b.fused then
          if b.verdicts.isEmpty then (Dialogue.readbackAtOnce start wanted).run recordedChips b
          else recordedChips.answer (.verify start wanted) b
        else (Dialogue.readback start wanted).run recordedChips b
    | .vendorOut request value bytes, b =>
        if b.fused then recordedChips.answer (.vendorOut request value bytes) b else (false, b)
    | command, b => recordedChips.answer command b

end Bench

end DfuLoader
