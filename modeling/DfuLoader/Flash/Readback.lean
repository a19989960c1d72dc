import DfuLoader.Flash.Dialogue

/-!
# Comparing a window by reading it

A board whose controller cannot compare while it shifts data in serves `verify`
by reading the window back. `readback` does it in pieces of `readbackSize` bytes
that are fed to one running comparison, so it takes little memory;
`readbackAtOnce` reads the window in one transaction. Either gives up at the
first read that fails.
-/

namespace DfuLoader

def readbackSize : Nat := 64

namespace Dialogue

def readPieces : List Bytes → Address → Comparison → Dialogue (Except Fault Outcome)
  | [], _, comparison => return .ok comparison.outcome
  | wanted :: rest, start, comparison => do
      match ← read start wanted.length with
      | .error fault => return .error fault
      | .ok stored =>
          readPieces rest (start + UInt32.ofNat wanted.length) (comparison.update wanted stored.val)

def readback (start : Address) (wanted : Bytes) : Dialogue (Except Fault Outcome) :=
  readPieces (Bytes.chunks readbackSize wanted) start .empty

def readbackAtOnce (start : Address) (wanted : Bytes) : Dialogue (Except Fault Outcome) := do
  match ← read start wanted.length with
  | .error fault => return .error fault
  | .ok stored => return .ok (classify wanted stored.val)

end Dialogue

namespace Board

variable {σ : Type}

/-- The board with `verify` served by a dialogue with the board itself. -/
def withVerify (board : Board σ) (verify : Address → Bytes → Dialogue (Except Fault Outcome)) :
    Board σ where
  answer
    | .verify start wanted => (verify start wanted).run board
    | command => board.answer command

def withReadback (board : Board σ) : Board σ := board.withVerify Dialogue.readback

end Board

end DfuLoader
