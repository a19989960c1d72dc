import DfuLoader.Proofs.Storage

/-!
# Boards whose chips work

A board is healthy if there is a way to look at its states (`Board.View`) in which its
chips do what the commands say: a read returns what is stored, an erase command blanks
its region, a program command clears bits and nothing else, none of them fails, and a
chip is found at work only so many times (`Board.Healthy`). Nothing is promised while a
chip is at work, for a program command across the end of a page, or behind the address
`stop`. Comparing by reading back then tells the truth; for that it is enough that the
chips can be read (`Legible.verify`). Chips that take their time after every erase and
program command are an example (`TimedFlash.healthy_chips`).
-/

namespace DfuLoader

namespace Board

inductive Plays {σ : Type} (board : Board σ) : σ → List Exchange → σ → Prop
  | nil (s : σ) : Plays board s [] s
  | cons {c : Command} {r : c.Reply} {s s₁ s₂ : σ} {t : List Exchange}
      (answer : board.answer c s = (r, s₁)) (rest : Plays board s₁ t s₂) :
      Plays board s (⟨c, r⟩ :: t) s₂

/-- What can be said of a board's states although no command tells it. -/
structure View (σ : Type) where
  /-- What the chips store. -/
  flash : σ → Flash
  /-- As many status reads at most may still find the chip at work. -/
  polls : σ → Nat
  /-- The selected chip is not at work. -/
  idle : σ → Prop
  /-- The selected chip is to take an erase or program command. -/
  enabled : σ → Prop

variable {σ : Type} {board : Board σ} {view : View σ} {stop : Address} {s s₁ s₂ : σ}
  {t t' : List Exchange}

/-- The board answers a command with a reply, after which the chips store `f` in a state
such as `P`. -/
def Replies (board : Board σ) (view : View σ) (s : σ) (c : Command) (r : c.Reply) (f : Flash)
    (P : σ → Prop) : Prop :=
  ∃ s', board.answer c s = (r, s') ∧ view.flash s' = f ∧ P s'

/-- The chips of the board can be read as far as the address `stop`. Nothing is said of erase
and program commands. -/
structure Legible (board : Board σ) (view : View σ) (stop : Address) : Prop where
  select (s : σ) (chip : Chip) :
    board.Replies view s (.select chip) () { view.flash s with selected := chip }
      fun s' => view.polls s' ≤ view.polls s
  readStatus (s : σ) : ∃ status,
    board.Replies view s .readStatus (.ok status) (view.flash s) fun s' =>
      if (status &&& busyBit != 0) = true then view.polls s' < view.polls s else view.idle s'
  read {s : σ} (start : Address) (length : Nat) (idle : view.idle s)
    (inside : start.toNat + length ≤ stop.toNat) :
    board.Replies view s (.read start length)
      (.ok ⟨(view.flash s).stored (view.flash s).selected start.toNat length,
        (view.flash s).length_stored _ _ _⟩)
      (view.flash s) view.idle

/-- The chips of the board work as far as the address `stop`. -/
structure Healthy (board : Board σ) (view : View σ) (stop : Address) : Prop
    extends Legible board view stop where
  writeEnable {s : σ} (idle : view.idle s) :
    board.Replies view s .writeEnable (.ok ()) (view.flash s) view.enabled
  erase {s : σ} {start : Address} {unit : EraseUnit} (enabled : view.enabled s)
    (aligned : start.toNat % unit.size.toNat = 0) (inside : start < stop) :
    board.Replies view s (.erase start unit) (.ok ()) ((view.flash s).erased start unit)
      fun _ => True
  program {s : σ} {start : Address} {bytes : Bytes} (enabled : view.enabled s)
    (paged : start.toNat % pageSize + bytes.length ≤ pageSize)
    (inside : start.toNat + bytes.length ≤ stop.toNat) :
    board.Replies view s (.program start bytes) (.ok ()) ((view.flash s).programmed start bytes)
      fun _ => True

theorem Plays.append (h : board.Plays s t s₁) (h' : board.Plays s₁ t' s₂) :
    board.Plays s (t ++ t') s₂ := by
  induction h with
  | nil s => exact h'
  | cons answer rest ih => exact .cons answer (ih h')

theorem Plays.of_append (h : board.Plays s (t ++ t') s₂) :
    ∃ s₁, board.Plays s t s₁ ∧ board.Plays s₁ t' s₂ := by
  induction t generalizing s with
  | nil => exact ⟨s, .nil s, h⟩
  | cons e t ih =>
      cases h with
      | cons answer rest =>
          obtain ⟨s₁, hfirst, hrest⟩ := ih rest
          exact ⟨s₁, .cons answer hfirst, hrest⟩

/-- A dialogue may end with the exchanges that the board holds, so it does. -/
theorem Plays.run_eq {α : Type} {d : Dialogue α} {a : α} (h : board.Plays s t s₁)
    (hends : Dialogue.Ends d t a) : d.run board s = (a, s₁) ∧ d.trace board s = t := by
  induction hends generalizing s with
  | done a =>
      cases h
      exact ⟨rfl, rfl⟩
  | ask c next reply rest ih =>
      cases h with
      | cons answer rest =>
          obtain ⟨hrun, htrace⟩ := ih rest
          rw [Dialogue.run_ask, Dialogue.trace_ask, answer]
          exact ⟨hrun, congrArg _ htrace⟩

namespace Legible

variable (legible : board.Legible view stop)

include legible

theorem readPieces (idle : view.idle s) (pieces : List Bytes) {start : Address}
    (comparison : Comparison) (inside : start.toNat + pieces.flatten.length ≤ stop.toNat) :
    (∃ outcome s', (Dialogue.readPieces pieces start comparison).run board s = (.ok outcome, s') ∧
        view.flash s' = view.flash s ∧ view.idle s') ∧
      ∀ e ∈ (Dialogue.readPieces pieces start comparison).trace board s,
        (view.flash s).Reads e := by
  induction pieces generalizing s start comparison with
  | nil => exact ⟨⟨_, s, rfl, rfl, idle⟩, fun e he => (List.not_mem_nil he).elim⟩
  | cons wanted rest ih =>
      rw [List.flatten_cons, List.length_append] at inside
      have hstop := Address.toNat_lt stop
      have hnext : (start + UInt32.ofNat wanted.length).toNat = start.toNat + wanted.length :=
        Address.toNat_add_ofNat (by omega)
      have hrest : (start + UInt32.ofNat wanted.length).toNat + rest.flatten.length ≤
          stop.toNat := by omega
      obtain ⟨s₁, hanswer, hflash, hidle⟩ :=
        legible.read start wanted.length idle (by omega)
      obtain ⟨⟨outcome, s', hrun, hflash', hidle'⟩, hreads⟩ :=
        ih hidle (comparison.update wanted ((view.flash s).stored _ start.toNat wanted.length))
          hrest
      rw [hflash] at hflash' hreads
      rw [Dialogue.readPieces, Dialogue.read, Dialogue.command, Dialogue.ask_bind,
        Dialogue.run_ask, Dialogue.trace_ask, hanswer]
      refine ⟨⟨outcome, s', hrun, hflash', hidle'⟩, ?_⟩
      intro e he
      rcases List.mem_cons.1 he with rfl | he
      · intro start' length bytes heq
        cases heq
        rfl
      · exact hreads e he

theorem verify {start : Address} {wanted : Bytes} (idle : view.idle s)
    (inside : start.toNat + wanted.length ≤ stop.toNat) :
    board.withReadback.Replies view s (.verify start wanted)
      (.ok (classify wanted
        ((view.flash s).stored (view.flash s).selected start.toNat wanted.length)))
      (view.flash s) view.idle := by
  have hstop := Address.toNat_lt stop
  have hflat : (Bytes.chunks readbackSize wanted).flatten = wanted :=
    Bytes.flatten_chunks (by decide) wanted
  obtain ⟨⟨outcome, s', hrun, hflash, hidle⟩, hreads⟩ :=
    legible.readPieces idle (Bytes.chunks readbackSize wanted) .empty (by rw [hflat]; exact inside)
  have hends := Dialogue.ends_run board (Dialogue.readback start wanted) s
  rw [Dialogue.readback, hrun] at hends
  have houtcome := Flash.readPieces_outcome hends hreads (by rw [hflat]; omega)
  rw [hflat] at houtcome
  refine ⟨s', ?_, hflash, hidle⟩
  change (Dialogue.readback start wanted).run board s = _
  rw [Dialogue.readback, hrun, houtcome]
  rfl

end Legible

end Board

/-! Chips that take their time. -/

structure TimedFlash where
  flash : Flash
  busy : Nat
  enabled : Bool

namespace TimedFlash

def view : Board.View TimedFlash where
  flash := flash
  polls := busy
  idle s := s.busy = 0
  enabled s := s.busy = 0 ∧ s.enabled = true

/-- Chips that are found at work `delay` times after every erase and program command,
and refuse everything else then. -/
def chips (delay : Nat) : Board TimedFlash where
  answer
    | .select chip, s => ((), { s with flash := { s.flash with selected := chip } })
    | .readStatus, s =>
        if s.busy = 0 then (.ok 0, s) else (.ok busyBit, { s with busy := s.busy - 1 })
    | .read start length, s =>
        if s.busy = 0 then
          (.ok ⟨s.flash.stored s.flash.selected start.toNat length, s.flash.length_stored _ _ _⟩, s)
        else (.error .bus, s)
    | .writeEnable, s =>
        if s.busy = 0 then (.ok (), { s with enabled := true }) else (.error .bus, s)
    | .erase start unit, s =>
        if s.busy = 0 ∧ s.enabled = true then (.ok (), ⟨s.flash.erased start unit, delay, false⟩)
        else (.error .bus, s)
    | .program start bytes, s =>
        if s.busy = 0 ∧ s.enabled = true then
          (.ok (), ⟨s.flash.programmed start bytes, delay, false⟩)
        else (.error .bus, s)
    | .verify _ _, s => (.error .bus, s)
    | .vendorIn _ _ _, s => (none, s)
    | .vendorOut _ _ _, s => (false, s)
    | .reboot, s => ((), s)

theorem healthy_chips (delay : Nat) (stop : Address) : (chips delay).Healthy view stop where
  select s chip := ⟨_, rfl, rfl, le_refl _⟩
  readStatus s := by
    by_cases hbusy : s.busy = 0
    · exact ⟨0, s, if_pos hbusy, rfl, hbusy⟩
    · exact ⟨busyBit, _, if_neg hbusy, rfl, Nat.pred_lt hbusy⟩
  read _ _ idle _ := ⟨_, if_pos idle, rfl, idle⟩
  writeEnable idle := ⟨_, if_pos idle, rfl, idle, rfl⟩
  erase enabled _ _ := ⟨_, if_pos enabled, rfl, trivial⟩
  program enabled _ _ := ⟨_, if_pos enabled, rfl, trivial⟩

end TimedFlash

end DfuLoader
