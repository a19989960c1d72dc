import DfuLoader.BlockRing
import DfuLoader.Engine.Basic
import DfuLoader.Flash.Dialogue

/-!
# One tick of the flash engine

A `Pipeline` is the engine with the buffer that feeds it. Each `tick` starts at
most one lengthy command and never waits for the chip: a busy chip ends the tick,
and the work is taken up at the next one. A window goes through comparing,
erasing if a bit has to be set, comparing again, programming page by page, and a
last comparison that finds it written. Every erase, every finished program pass
and every fault spends one attempt, and a window without attempts is given up
with a reboot before the bus is touched.
-/

namespace DfuLoader

inductive Tick where
  /-- It was skipped to slow the engine down. -/
  | throttled
  /-- There was no window to work on. -/
  | idle
  /-- The chip was still at work. -/
  | busy
  /-- The window was compared, erased or programmed, and needs more ticks. -/
  | progress
  /-- The window was found written and released. -/
  | committed
  /-- A primitive failed, which spent an attempt. -/
  | failed
  /-- The window was given up and a reboot asked for. -/
  | abandoned
  deriving DecidableEq, Repr

structure Pipeline where
  engine : Engine
  buffer : BlockRing
  deriving DecidableEq, Repr

namespace Pipeline

def mapEngine (p : Pipeline) (f : Engine → Engine) : Pipeline := { p with engine := f p.engine }

def failed (p : Pipeline) : Tick × Pipeline := (.failed, p.mapEngine .endAttempt)

/-- The queue turned out to be empty in the middle of a window. -/
def starved (p : Pipeline) : Tick × Pipeline := (.idle, p.mapEngine .rest)

def commit (cfg : Config) (p : Pipeline) : Tick × Pipeline :=
  (.committed, { engine := p.engine.advance cfg.maxAttempts, buffer := p.buffer.pop })

def abandon (cfg : Config) (p : Pipeline) : Dialogue (Tick × Pipeline) := do
  Dialogue.reboot
  return (.abandoned, { engine := p.engine.giveUp cfg.maxAttempts, buffer := p.buffer.pop })

def programPage (p : Pipeline) (block : Bytes) : Dialogue (Tick × Pipeline) :=
  let start := p.engine.pageAt
  let length := p.engine.pageLength
  Dialogue.writeEnable.orFail p.failed fun _ =>
  (Dialogue.program start ((block.drop p.engine.offset).take length)).orFail p.failed fun _ =>
  return (.progress, p.mapEngine fun e => { e with offset := e.offset + length })

/-- Goes on with a window that needs no erasing: it is committed if it needs
nothing, it gets its next page if there is one, and otherwise it is to be
compared once more. -/
def write (cfg : Config) (p : Pipeline) : Dialogue (Tick × Pipeline) :=
  if p.engine.last.needsProgram = false then return p.commit cfg
  else if p.engine.offset = p.engine.length then return (.progress, p.mapEngine .endAttempt)
  else match p.buffer.head? with
    | none => return p.starved
    | some block => p.programPage block

/-- Starts to erase the region around the window. The window is compared again
when that is done. -/
def erase (cfg : Config) (p : Pipeline) : Dialogue (Tick × Pipeline) :=
  let unit := p.engine.eraseUnit cfg.eraseUnit
  let base := unit.baseOf p.engine.windowAt
  let p := p.mapEngine fun e => { e with erasedTo := base }
  Dialogue.writeEnable.orFail p.failed fun _ =>
  (Dialogue.erase base unit).orFail p.failed fun _ =>
  return (.progress, p.mapEngine fun e => { e.spendAttempt with erasedTo := base + unit.size })

def resolve (cfg : Config) (p : Pipeline) : Dialogue (Tick × Pipeline) :=
  if p.engine.last.needsErase then p.erase cfg
  else
    (p.mapEngine fun e =>
      { e with erasedTo := e.windowAt + UInt32.ofNat blockSize, stage := .programming }).write cfg

def examine (cfg : Config) (p : Pipeline) : Dialogue (Tick × Pipeline) :=
  match p.buffer.head? with
  | none => return p.starved
  | some block =>
      (Dialogue.verify p.engine.windowAt (block.take p.engine.length)).orFail p.failed
        fun outcome => (p.mapEngine fun e => { e with last := outcome }).resolve cfg

def work (cfg : Config) (p : Pipeline) : Dialogue (Tick × Pipeline) :=
  if p.engine.stage = .erasing then p.examine cfg else p.write cfg

/-- Works on the open window if it has attempts left and the chip is ready.
Several chips share the bus, so the chip is selected every time. -/
def proceed (cfg : Config) (p : Pipeline) : Dialogue (Tick × Pipeline) :=
  if p.engine.attempts = 0 then p.abandon cfg
  else do
    Dialogue.select p.engine.chip
    Dialogue.readStatus.orFail p.failed fun status =>
      if status &&& busyBit != 0 then return (.busy, p) else p.work cfg

def tick (cfg : Config) (p : Pipeline) : Dialogue (Tick × Pipeline) :=
  if p.engine.stage ≠ .idle then p.proceed cfg
  else if p.buffer.head? = none then return (.idle, p)
  else (p.mapEngine .openWindow).proceed cfg

end Pipeline

end DfuLoader
