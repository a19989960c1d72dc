import DfuLoader.Flash.Command

/-!
# Dialogues with a board

Code that talks to a board is written as a `Dialogue`: it is finished with a
value, or it asks a command and goes on with the reply, whatever that is. What a
dialogue does on every board at all is the relation `Ends d t a`: for some
replies, the exchanges of `d` are `t` and its value is `a`. A particular
`Board` answers by its own rule, which may change its state; `run` and `trace`
are the value and the exchanges that come out on it. Both views are compositional
in the monad's `bind` (`ends_bind`, `run_bind`, `trace_bind`), and what happens
on one board is among what may happen on some (`ends_run`).
-/

namespace DfuLoader

/-- A computation that asks commands of a board. -/
inductive Dialogue (α : Type) : Type where
  | done (value : α)
  | ask (command : Command) (next : command.Reply → Dialogue α)

namespace Dialogue

variable {α β γ σ : Type}

protected def bind : Dialogue α → (α → Dialogue β) → Dialogue β
  | done a, f => f a
  | ask c next, f => ask c fun reply => (next reply).bind f

instance : Monad Dialogue where
  pure := done
  bind := Dialogue.bind

@[simp] theorem pure_eq_done (a : α) : (pure a : Dialogue α) = done a := rfl

@[simp] theorem done_bind (a : α) (f : α → Dialogue β) : done a >>= f = f a := rfl

@[simp] theorem ask_bind (c : Command) (next : c.Reply → Dialogue α) (f : α → Dialogue β) :
    ask c next >>= f = ask c fun reply => next reply >>= f := rfl

theorem bind_done (d : Dialogue α) : d >>= done = d := by
  induction d with
  | done a => rfl
  | ask c next ih => exact congrArg (ask c) (funext ih)

theorem bind_bind (d : Dialogue α) (f : α → Dialogue β) (g : β → Dialogue γ) :
    d >>= f >>= g = d >>= fun a => f a >>= g := by
  induction d with
  | done a => rfl
  | ask c next ih => exact congrArg (ask c) (funext ih)

instance : LawfulMonad Dialogue :=
  LawfulMonad.mk' Dialogue bind_done (fun _ _ => rfl) bind_bind

/-! Each command is a dialogue by itself. -/

def command (c : Command) : Dialogue c.Reply := ask c done

def select (chip : Chip) : Dialogue Unit := command (.select chip)

def readStatus : Dialogue (Except Fault UInt8) := command .readStatus

def read (start : Address) (length : Nat) : Dialogue (Except Fault (Bytes.OfLength length)) :=
  command (.read start length)

def writeEnable : Dialogue (Except Fault Unit) := command .writeEnable

def erase (start : Address) (size : EraseUnit) : Dialogue (Except Fault Unit) :=
  command (.erase start size)

def program (start : Address) (bytes : Bytes) : Dialogue (Except Fault Unit) :=
  command (.program start bytes)

def verify (start : Address) (wanted : Bytes) : Dialogue (Except Fault Outcome) :=
  command (.verify start wanted)

def vendorIn (request : UInt8) (value : UInt16) (room : Nat) :
    Dialogue (Option { bytes : Bytes // bytes.length ≤ room }) :=
  command (.vendorIn request value room)

def vendorOut (request : UInt8) (value : UInt16) (bytes : Bytes) : Dialogue Bool :=
  command (.vendorOut request value bytes)

def reboot : Dialogue Unit := command .reboot

/-- Goes on with the value of a dialogue that succeeds; a fault ends the whole
with `failed`. -/
def orFail (failed : β) (d : Dialogue (Except Fault α)) (next : α → Dialogue β) : Dialogue β := do
  match ← d with
  | .error _ => return failed
  | .ok a => next a

/-- For some replies of the board, a dialogue has these exchanges and ends with
this value. -/
inductive Ends : Dialogue α → List Exchange → α → Prop where
  | done (a : α) : Ends (.done a) [] a
  | ask (c : Command) (next : c.Reply → Dialogue α) (reply : c.Reply) {t : List Exchange} {a : α}
      (rest : Ends (next reply) t a) : Ends (.ask c next) (⟨c, reply⟩ :: t) a

theorem ends_done {a b : α} {t : List Exchange} : Ends (done a) t b ↔ t = [] ∧ b = a := by
  constructor
  · rintro ⟨⟩
    exact ⟨rfl, rfl⟩
  · rintro ⟨rfl, rfl⟩
    exact .done b

theorem ends_ask {c : Command} {next : c.Reply → Dialogue α} {t : List Exchange} {a : α} :
    Ends (ask c next) t a ↔ ∃ reply t', t = ⟨c, reply⟩ :: t' ∧ Ends (next reply) t' a := by
  constructor
  · intro h
    cases h with
    | ask _ _ reply rest => exact ⟨reply, _, rfl, rest⟩
  · rintro ⟨reply, t', rfl, rest⟩
    exact .ask c next reply rest

/-- A sequence ends where its first part does and then its second. -/
theorem ends_bind {d : Dialogue α} {f : α → Dialogue β} {t : List Exchange} {b : β} :
    Ends (d >>= f) t b ↔ ∃ t₁ t₂ a, t = t₁ ++ t₂ ∧ Ends d t₁ a ∧ Ends (f a) t₂ b := by
  induction d generalizing t with
  | done a =>
      simp only [done_bind, ends_done]
      constructor
      · intro h
        exact ⟨[], t, a, rfl, ⟨rfl, rfl⟩, h⟩
      · rintro ⟨t₁, t₂, a', rfl, ⟨rfl, rfl⟩, h⟩
        exact h
  | ask c next ih =>
      simp only [ask_bind, ends_ask, ih]
      constructor
      · rintro ⟨reply, _, rfl, t₁, t₂, a, rfl, h, k⟩
        exact ⟨⟨c, reply⟩ :: t₁, t₂, a, rfl, ⟨reply, t₁, rfl, h⟩, k⟩
      · rintro ⟨_, t₂, a, rfl, ⟨reply, t₁, rfl, h⟩, k⟩
        exact ⟨reply, t₁ ++ t₂, rfl, t₁, t₂, a, rfl, h, k⟩

theorem ends_command {c : Command} {t : List Exchange} {reply : c.Reply} :
    Ends (command c) t reply ↔ t = [⟨c, reply⟩] := by
  simp only [command, ends_ask, ends_done]
  constructor
  · rintro ⟨_, _, rfl, rfl, rfl⟩
    rfl
  · rintro rfl
    exact ⟨reply, [], rfl, rfl, rfl⟩

theorem ends_orFail {failed : β} {d : Dialogue (Except Fault α)} {next : α → Dialogue β}
    {t : List Exchange} {b : β} :
    Ends (d.orFail failed next) t b ↔
      (∃ fault, Ends d t (.error fault) ∧ b = failed) ∨
        ∃ t₁ t₂ a, t = t₁ ++ t₂ ∧ Ends d t₁ (.ok a) ∧ Ends (next a) t₂ b := by
  rw [orFail, ends_bind]
  constructor
  · rintro ⟨t₁, t₂, result, rfl, h, k⟩
    cases result with
    | error fault =>
        obtain ⟨rfl, rfl⟩ := ends_done.1 k
        exact .inl ⟨fault, by simpa using h, rfl⟩
    | ok a => exact .inr ⟨t₁, t₂, a, rfl, h, k⟩
  · rintro (⟨fault, h, rfl⟩ | ⟨t₁, t₂, a, rfl, h, k⟩)
    · exact ⟨t, [], .error fault, by simp, h, .done _⟩
    · exact ⟨t₁, t₂, .ok a, rfl, h, k⟩

end Dialogue

/-- A board with states in `σ`: its answer to each command in each state, and the
state after it. -/
structure Board (σ : Type) where
  answer : (c : Command) → σ → c.Reply × σ

namespace Dialogue

variable {α β σ : Type}

def run (board : Board σ) : Dialogue α → σ → α × σ
  | done a, s => (a, s)
  | ask c next, s => (next (board.answer c s).1).run board (board.answer c s).2

def trace (board : Board σ) : Dialogue α → σ → List Exchange
  | done _, _ => []
  | ask c next, s =>
      ⟨c, (board.answer c s).1⟩ :: (next (board.answer c s).1).trace board (board.answer c s).2

@[simp] theorem run_done (board : Board σ) (a : α) (s : σ) : (done a).run board s = (a, s) := rfl

@[simp] theorem run_ask (board : Board σ) (c : Command) (next : c.Reply → Dialogue α) (s : σ) :
    (ask c next).run board s =
      (next (board.answer c s).1).run board (board.answer c s).2 := rfl

@[simp] theorem trace_done (board : Board σ) (a : α) (s : σ) :
    (done a).trace board s = [] := rfl

@[simp] theorem trace_ask (board : Board σ) (c : Command) (next : c.Reply → Dialogue α) (s : σ) :
    (ask c next).trace board s = ⟨c, (board.answer c s).1⟩ ::
      (next (board.answer c s).1).trace board (board.answer c s).2 := rfl

theorem run_bind (board : Board σ) (d : Dialogue α) (f : α → Dialogue β) (s : σ) :
    (d >>= f).run board s = (f (d.run board s).1).run board (d.run board s).2 := by
  induction d generalizing s with
  | done a => rfl
  | ask c next ih => exact ih _ _

theorem trace_bind (board : Board σ) (d : Dialogue α) (f : α → Dialogue β) (s : σ) :
    (d >>= f).trace board s =
      d.trace board s ++ (f (d.run board s).1).trace board (d.run board s).2 := by
  induction d generalizing s with
  | done a => rfl
  | ask c next ih => exact congrArg _ (ih _ _)

theorem ends_run (board : Board σ) (d : Dialogue α) (s : σ) :
    Ends d (d.trace board s) (d.run board s).1 := by
  induction d generalizing s with
  | done a => exact .done a
  | ask c next ih => exact .ask c next _ (ih _ _)

theorem ends_of_run {board : Board σ} {d : Dialogue α} {s s' : σ} {a : α}
    (h : d.run board s = (a, s')) : Ends d (d.trace board s) a := by
  have hends := ends_run board d s
  rw [h] at hends
  exact hends

end Dialogue

end DfuLoader
