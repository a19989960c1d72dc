import DfuLoader.Flash.Readback
import DfuLoader.Proofs.Address
import DfuLoader.Proofs.TickCommands

/-!
# What the chips store

The exchanges of a dialogue fit a `Flash`, two chips that may work badly, if a read
that succeeds returns what is stored, and an erase or program command changes nothing
outside the region that it names; whether it succeeds and what it leaves in the region
is open. A comparison is served by reading the window back, so its outcome is true of
what is stored (`Answers.classify`), whatever was done to the chips before.
-/

namespace DfuLoader

structure Flash where
  selected : Chip
  cells : Chip → Nat → UInt8

namespace Flash

open Dialogue

def stored (f : Flash) (chip : Chip) (start length : Nat) : Bytes :=
  (List.range' start length).map (f.cells chip)

def Reads (f : Flash) (e : Exchange) : Prop :=
  ∀ start length bytes, e = ⟨.read start length, .ok bytes⟩ →
    bytes.val = f.stored f.selected start.toNat length

/-- The second flash differs from the first at most where a command may change the
selected chip. -/
def Alters (f : Flash) (c : Command) (f' : Flash) : Prop :=
  f'.selected = f.selected ∧
    ∀ chip x, f'.cells chip x ≠ f.cells chip x → chip = f.selected ∧ c.Changes x

inductive Answers : Flash → Exchange → Flash → Prop
  | select (f : Flash) (chip : Chip) : Answers f ⟨.select chip, ()⟩ { f with selected := chip }
  | readStatus (f : Flash) (reply : Except Fault UInt8) : Answers f ⟨.readStatus, reply⟩ f
  | read {f : Flash} {start : Address} {length : Nat}
      {reply : Except Fault (Bytes.OfLength length)} (reads : f.Reads ⟨.read start length, reply⟩) :
      Answers f ⟨.read start length, reply⟩ f
  | writeEnable (f : Flash) (reply : Except Fault Unit) : Answers f ⟨.writeEnable, reply⟩ f
  | erase {f f' : Flash} {start : Address} {unit : EraseUnit} (reply : Except Fault Unit)
      (alters : f.Alters (.erase start unit) f') : Answers f ⟨.erase start unit, reply⟩ f'
  | program {f f' : Flash} {start : Address} {bytes : Bytes} (reply : Except Fault Unit)
      (alters : f.Alters (.program start bytes) f') : Answers f ⟨.program start bytes, reply⟩ f'
  | verify {f : Flash} {start : Address} {wanted : Bytes} {reply : Except Fault Outcome}
      {t : List Exchange} (readback : Ends (readback start wanted) t reply)
      (reads : ∀ e ∈ t, f.Reads e) : Answers f ⟨.verify start wanted, reply⟩ f
  | vendorIn (f : Flash) {request : UInt8} {value : UInt16} {room : Nat}
      (reply : Option { bytes : Bytes // bytes.length ≤ room }) :
      Answers f ⟨.vendorIn request value room, reply⟩ f
  | vendorOut (f : Flash) {request : UInt8} {value : UInt16} {bytes : Bytes} (reply : Bool) :
      Answers f ⟨.vendorOut request value bytes, reply⟩ f
  | reboot (f : Flash) : Answers f ⟨.reboot, ()⟩ f

inductive Run : Flash → List Exchange → Flash → Prop
  | nil (f : Flash) : Run f [] f
  | cons {f f' f'' : Flash} {e : Exchange} {t : List Exchange} (answers : f.Answers e f')
      (rest : Run f' t f'') : Run f (e :: t) f''

variable {α : Type} {f f' f'' : Flash} {t t' : List Exchange} {e : Exchange} {chip : Chip}
  {x : Nat}

theorem run_append : f.Run (t ++ t') f'' ↔ ∃ f', f.Run t f' ∧ f'.Run t' f'' := by
  induction t generalizing f with
  | nil =>
      constructor
      · intro h
        exact ⟨f, .nil f, h⟩
      · rintro ⟨f', h, h'⟩
        cases h
        exact h'
  | cons e t ih =>
      constructor
      · intro h
        cases h with
        | cons answers rest =>
            obtain ⟨f', h, h'⟩ := ih.1 rest
            exact ⟨f', .cons answers h, h'⟩
      · rintro ⟨f', h, h'⟩
        cases h with
        | cons answers rest => exact .cons answers (ih.2 ⟨f', rest, h'⟩)

/-! Frame: only what a command changes is changed. -/

theorem Answers.cells_eq (h : f.Answers e f') (hx : ¬e.command.Changes x) :
    f'.cells chip x = f.cells chip x := by
  cases h with
  | erase reply alters =>
      by_contra hne
      exact hx (alters.2 chip x hne).2
  | program reply alters =>
      by_contra hne
      exact hx (alters.2 chip x hne).2
  | select | readStatus | read | writeEnable | verify | vendorIn | vendorOut | reboot => rfl

theorem Run.cells_eq (h : f.Run t f') (hx : ∀ e ∈ t, ¬e.command.Changes x) :
    f'.cells chip x = f.cells chip x := by
  induction h with
  | nil f => rfl
  | cons answers rest ih =>
      have hrest := ih fun e he => hx e (List.mem_cons_of_mem _ he)
      rw [hrest]
      exact answers.cells_eq (hx _ List.mem_cons_self)

/-! Reading back. -/

@[simp] theorem length_stored (f : Flash) (chip : Chip) (start length : Nat) :
    (f.stored chip start length).length = length := by
  rw [stored, List.length_map, List.length_range']

theorem getElem?_stored (f : Flash) (chip : Chip) (start : Nat) {i length : Nat}
    (h : i < length) : (f.stored chip start length)[i]? = some (f.cells chip (start + i)) := by
  rw [stored, List.getElem?_map, List.getElem?_range' h, Nat.one_mul, Option.map_some]

theorem stored_add (f : Flash) (chip : Chip) (start m n : Nat) :
    f.stored chip start (m + n) = f.stored chip start m ++ f.stored chip (start + m) n := by
  rw [stored, stored, stored, ← List.map_append, List.range'_append_1]

theorem readPieces_outcome {pieces : List Bytes} {start : Address} {comparison : Comparison}
    {outcome : Outcome} (h : Ends (readPieces pieces start comparison) t (.ok outcome))
    (hreads : ∀ e ∈ t, f.Reads e) (hfit : start.toNat + pieces.flatten.length < 2 ^ 32) :
    outcome = (comparison.update pieces.flatten
      (f.stored f.selected start.toNat pieces.flatten.length)).outcome := by
  induction pieces generalizing t start comparison with
  | nil =>
      cases h
      rfl
  | cons wanted rest ih =>
      rw [List.flatten_cons, List.length_append] at hfit
      rw [readPieces, ends_bind] at h
      obtain ⟨t₁, t₂, reply, rfl, hread, h⟩ := h
      rw [Dialogue.read, ends_command] at hread
      subst hread
      cases reply with
      | error fault => cases h
      | ok bytes =>
          have hbytes := hreads _ (List.mem_append_left _ (List.mem_singleton_self _)) _ _ _ rfl
          have hnext : (start + UInt32.ofNat wanted.length).toNat = start.toNat + wanted.length :=
            Address.toNat_add_ofNat (by omega)
          have hrest := ih h (fun e he => hreads e (List.mem_append_right _ he)) (by omega)
          rw [hrest, hnext, hbytes, List.flatten_cons, List.length_append, stored_add,
            Comparison.update_append _ (by simp)]

/-- A comparison that succeeds tells the outcome for what is stored. -/
theorem Answers.classify {start : Address} {wanted : Bytes} {outcome : Outcome}
    (h : f.Answers ⟨.verify start wanted, .ok outcome⟩ f')
    (hfit : start.toNat + wanted.length < 2 ^ 32) :
    f' = f ∧ outcome = DfuLoader.classify wanted
      (f.stored f.selected start.toNat wanted.length) := by
  cases h with
  | verify readback reads =>
      have hflat : (Bytes.chunks readbackSize wanted).flatten = wanted :=
        Bytes.flatten_chunks (by decide) wanted
      rw [Dialogue.readback] at readback
      have houtcome := readPieces_outcome readback reads (by rw [hflat]; exact hfit)
      rw [hflat] at houtcome
      exact ⟨rfl, houtcome⟩

/-! Chips that work are such a flash. -/

def erased (f : Flash) (start : Address) (unit : EraseUnit) : Flash :=
  { f with cells := fun chip x =>
      if chip = f.selected ∧ start.toNat ≤ x ∧ x < start.toNat + unit.size.toNat then erasedByte
      else f.cells chip x }

def programmed (f : Flash) (start : Address) (bytes : Bytes) : Flash :=
  { f with cells := fun chip x =>
      if chip = f.selected ∧ start.toNat ≤ x ∧ x < start.toNat + bytes.length then
        f.cells chip x &&& bytes.getD (x - start.toNat) erasedByte
      else f.cells chip x }

def chips : Board Flash where
  answer
    | .select chip, f => ((), { f with selected := chip })
    | .readStatus, f => (.ok 0, f)
    | .read start length, f =>
        (.ok ⟨f.stored f.selected start.toNat length, f.length_stored _ _ _⟩, f)
    | .writeEnable, f => (.ok (), f)
    | .erase start unit, f => (.ok (), f.erased start unit)
    | .program start bytes, f => (.ok (), f.programmed start bytes)
    | .verify start wanted, f =>
        (.ok (DfuLoader.classify wanted (f.stored f.selected start.toNat wanted.length)), f)
    | .vendorIn _ _ _, f => (none, f)
    | .vendorOut _ _ _, f => (false, f)
    | .reboot, f => ((), f)

theorem alters_erased (f : Flash) (start : Address) (unit : EraseUnit) :
    f.Alters (.erase start unit) (f.erased start unit) := by
  refine ⟨rfl, fun chip x hne => ?_⟩
  by_contra hout
  exact hne (if_neg hout)

theorem alters_programmed (f : Flash) (start : Address) (bytes : Bytes) :
    f.Alters (.program start bytes) (f.programmed start bytes) := by
  refine ⟨rfl, fun chip x hne => ?_⟩
  by_contra hout
  exact hne (if_neg hout)

theorem readPieces_chips (pieces : List Bytes) (start : Address) (comparison : Comparison) :
    (∀ e ∈ (readPieces pieces start comparison).trace chips f, f.Reads e) ∧
      ((readPieces pieces start comparison).run chips f).2 = f := by
  induction pieces generalizing start comparison with
  | nil => exact ⟨fun e he => (List.not_mem_nil he).elim, rfl⟩
  | cons wanted rest ih =>
      obtain ⟨hreads, hstate⟩ := ih (start + UInt32.ofNat wanted.length)
        (comparison.update wanted (f.stored f.selected start.toNat wanted.length))
      refine ⟨?_, hstate⟩
      intro e he
      rcases List.mem_cons.1 he with rfl | he
      · intro start' length bytes heq
        cases heq
        rfl
      · exact hreads e he

theorem answers_chips (f : Flash) (c : Command) :
    f.Answers ⟨c, (chips.withReadback.answer c f).1⟩ (chips.withReadback.answer c f).2 := by
  cases c with
  | select chip => exact .select f chip
  | readStatus => exact .readStatus f _
  | read start length =>
      refine .read fun start' length' bytes heq => ?_
      cases heq
      rfl
  | writeEnable => exact .writeEnable f _
  | erase start unit => exact .erase _ (f.alters_erased start unit)
  | program start bytes => exact .program _ (f.alters_programmed start bytes)
  | verify start wanted =>
      obtain ⟨hreads, hstate⟩ := readPieces_chips (f := f) (Bytes.chunks readbackSize wanted) start
        .empty
      have hanswers : f.Answers ⟨.verify start wanted, ((readback start wanted).run chips f).1⟩ f :=
        .verify (ends_run chips _ f) hreads
      change f.Answers _ ((readback start wanted).run chips f).2
      rw [Dialogue.readback, hstate]
      exact hanswers
  | vendorIn request value room => exact .vendorIn f _
  | vendorOut request value bytes => exact .vendorOut f _
  | reboot => exact .reboot f

theorem run_chips (d : Dialogue α) (f : Flash) :
    f.Run (d.trace chips.withReadback f) (d.run chips.withReadback f).2 := by
  induction d generalizing f with
  | done a => exact .nil f
  | ask c next ih => exact .cons (answers_chips f c) (ih _ _)

end Flash

end DfuLoader
