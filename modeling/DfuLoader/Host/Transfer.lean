import DfuLoader.Host.Ticks

/-!
# Transferring an image

What a host does to write an image or to read one back: it sends block after
block, asking for the status after each, or it asks for blocks until one comes
back short. The device is reached over a `Link`, which says what one request of
each kind does to it; while the host waits between two blocks, the device ticks.
-/

namespace DfuLoader

namespace Host

/-- The requests of a transfer to a device with states in `S`, each with what it
is refused with. The number of the block goes with a request. -/
structure Link (ε S : Type) where
  download : (number : Nat) → Bytes → S → Dialogue (Except ε Unit × S)
  upload : (number length : Nat) → S → Dialogue (Except ε Bytes × S)
  /-- Asks for the status. There is no answer if the device does not finish. -/
  status : S → Dialogue (Option (Except ε Bytes × S))
  tick : S → Dialogue (Tick × S)

structure Sent (ε : Type) where
  /-- The blocks that were taken. -/
  blocks : Nat
  /-- What ended the transfer before the end of the image. -/
  stop : Option ε
  /-- The replies to the status requests, oldest first. -/
  statuses : Array Bytes
  /-- What the ticks in between did, oldest first. -/
  ticks : Array Tick

structure Received (ε : Type) where
  /-- The blocks that came, the short one included. -/
  blocks : Nat
  /-- What ended the transfer other than a short block. -/
  stop : Option ε
  bytes : Bytes

namespace Link

variable {ε S : Type}

/-- Sends blocks one by one, with a status request and `pause` ticks after each.
The first refusal ends the transfer. -/
def sendBlocks (link : Link ε S) (pause : Nat) :
    List Bytes → Sent ε → S → Dialogue (Option (Sent ε × S))
  | [], sent, s => return some (sent, s)
  | block :: rest, sent, s => do
      match ← link.download sent.blocks block s with
      | (.error e, s) => return some ({ sent with stop := some e }, s)
      | (.ok _, s) =>
          let sent := { sent with blocks := sent.blocks + 1 }
          match ← link.status s with
          | none => return none
          | some (.error e, s) => return some ({ sent with stop := some e }, s)
          | some (.ok reply, s) =>
              let (ticks, s) ← ticks link.tick pause sent.ticks s
              link.sendBlocks pause rest
                { sent with statuses := sent.statuses.push reply, ticks := ticks } s

def send (link : Link ε S) (size pause : Nat) (image : Bytes) (s : S) :
    Dialogue (Option (Sent ε × S)) :=
  link.sendBlocks pause (Bytes.chunks size image) ⟨0, none, #[], #[]⟩ s

def receiveBlocks (link : Link ε S) (size : Nat) :
    Nat → Received ε → S → Dialogue (Received ε × S)
  | 0, received, s => return (received, s)
  | count + 1, received, s => do
      match ← link.upload received.blocks size s with
      | (.error e, s) => return ({ received with stop := some e }, s)
      | (.ok bytes, s) =>
          let received := { received with
            blocks := received.blocks + 1
            bytes := received.bytes ++ bytes }
          if bytes.length < size then return (received, s)
          else link.receiveBlocks size count received s

def receive (link : Link ε S) (size count : Nat) (s : S) : Dialogue (Received ε × S) :=
  link.receiveBlocks size count ⟨0, none, []⟩ s

end Link

end Host

end DfuLoader
