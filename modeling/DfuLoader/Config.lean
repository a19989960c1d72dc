import DfuLoader.Zone

/-!
# Tuning of a loader

What a board fixes about its loader once and for all: its zones, how it erases,
how often it tries, and what it tells the host about itself. Every field has the
value that fits a board with nothing special about it.
-/

namespace DfuLoader

inductive Manifestation where
  /-- All queued data is written before the reply, which then says idle. -/
  | drain
  /-- The reply says that manifestation goes on until the queue is empty. -/
  | report
  deriving DecidableEq, Repr

structure Config where
  /-- The zones that the host may select. -/
  zones : ZoneTable := .reference
  /-- The region to erase where it starts at a window and ends inside the zone. -/
  eraseUnit : EraseUnit := .sector4K
  /-- The attempts on a window before it is given up. -/
  maxAttempts : UInt8 := 4
  /-- The milliseconds that the host is told to wait between status requests. -/
  pollTimeout : UInt32 := 5
  manifest : Manifestation := .drain
  /-- The ticks that pass unused between two that do work. -/
  skipTicks : UInt8 := 0
  /-- The milliseconds that the device waits for a reset after a detach. -/
  detachTimeout : UInt16 := 250
  /-- The bytes of a transfer. A shorter download block is the last of its image. -/
  transferSize : UInt16 := 128
  /-- The bytes that the device holds of the data of a control transfer. -/
  controlBuffer : Nat := 128

end DfuLoader
