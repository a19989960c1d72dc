import DfuLoader.Engine.Tick

/-!
# Ticking a machine

The main loop of a device does nothing but tick. `ticks` ticks a machine a given
number of times, and `ticksUntil` stops at the first tick of some kind. Both
collect what the ticks did, oldest first, behind what was collected before.
-/

namespace DfuLoader

namespace Host

variable {S : Type}

def ticks (tick : S → Dialogue (Tick × S)) :
    Nat → Array Tick → S → Dialogue (Array Tick × S)
  | 0, seen, s => return (seen, s)
  | count + 1, seen, s => do
      let (t, s) ← tick s
      ticks tick count (seen.push t) s

def ticksUntil (tick : S → Dialogue (Tick × S)) (stop : Tick → Bool) :
    Nat → Array Tick → S → Dialogue (Array Tick × S)
  | 0, seen, s => return (seen, s)
  | count + 1, seen, s => do
      let (t, s) ← tick s
      if stop t then return (seen.push t, s)
      else ticksUntil tick stop count (seen.push t) s

end Host

end DfuLoader
