import DfuLoader.Flash.Dialogue
import DfuLoader.Proofs.Address
import DfuLoader.Proofs.RingQueue

/-!
# Arithmetic that traps

On the device numbers have a width and byte strings have ends. Here every addition,
subtraction and multiplication that would leave its width, every index outside an array and
every loop that would not end stops with a `Trap`, and a dialogue may stop with one as well
(`Guarded`). The operations of the ring are written out in this arithmetic, byte counts, slot
indices and the loop that spreads bytes over the slots included. On a well-formed ring none of
them traps, and they do what those of the ring do.
-/

namespace DfuLoader

inductive Trap where
  /-- A result does not fit its width. -/
  | overflow
  /-- An index lies outside. -/
  | range
  /-- A loop makes no progress. -/
  | endless
  deriving DecidableEq, Repr

namespace Trap

/-! Numbers of some bits. -/

def add (bits a b : Nat) : Except Trap Nat :=
  if a + b < 2 ^ bits then .ok (a + b) else .error .overflow

def sub (a b : Nat) : Except Trap Nat := if b ≤ a then .ok (a - b) else .error .overflow

def mul (bits a b : Nat) : Except Trap Nat :=
  if a * b < 2 ^ bits then .ok (a * b) else .error .overflow

def narrow (bits a : Nat) : Except Trap Nat := if a < 2 ^ bits then .ok a else .error .overflow

def advance (a : Address) (n : Nat) : Except Trap Address := do
  let length ← narrow 32 n
  let sum ← add 32 a.toNat length
  return UInt32.ofNat sum

def distance (a b : Address) : Except Trap Address := do
  let difference ← sub a.toNat b.toNat
  return UInt32.ofNat difference

/-! Byte strings. -/

def slice (bytes : Bytes) (start stop : Nat) : Except Trap Bytes :=
  if start ≤ stop ∧ stop ≤ bytes.length then .ok ((bytes.drop start).take (stop - start))
  else .error .range

def overwrite (bytes : Bytes) (start stop : Nat) (part : Bytes) : Except Trap Bytes :=
  if start ≤ stop ∧ stop ≤ bytes.length ∧ part.length = stop - start then
    .ok (bytes.take start ++ part ++ bytes.drop stop)
  else .error .range

def front (size n : Nat) : Except Trap Nat := if n ≤ size then .ok n else .error .range

@[simp] theorem ok_bind {α β : Type} (a : α) (f : α → Except Trap β) :
    Except.ok a >>= f = f a := rfl

@[simp] theorem pure_eq_ok {α : Type} (a : α) : (pure a : Except Trap α) = .ok a := rfl

variable {bits a b n start stop size : Nat} {bytes part : Bytes}

theorem add_eq_ok (h : a + b < 2 ^ bits) : add bits a b = .ok (a + b) := if_pos h

theorem sub_eq_ok (h : b ≤ a) : sub a b = .ok (a - b) := if_pos h

theorem mul_eq_ok (h : a * b < 2 ^ bits) : mul bits a b = .ok (a * b) := if_pos h

theorem narrow_eq_ok (h : a < 2 ^ bits) : narrow bits a = .ok a := if_pos h

theorem advance_eq_ok {a : Address} (h : a.toNat + n < 2 ^ 32) :
    advance a n = .ok (a + UInt32.ofNat n) := by
  have hsum : UInt32.ofNat (a.toNat + n) = a + UInt32.ofNat n := by
    apply UInt32.toNat.inj
    rw [Address.toNat_add_ofNat h, Address.toNat_ofNat h]
  rw [advance, narrow_eq_ok (by omega), ok_bind, add_eq_ok h, ok_bind, hsum, pure_eq_ok]

theorem distance_eq_ok {a b : Address} (h : b.toNat ≤ a.toNat) :
    distance a b = .ok (a - b) := by
  have ha := Address.toNat_lt a
  have hdifference : UInt32.ofNat (a.toNat - b.toNat) = a - b := by
    apply UInt32.toNat.inj
    rw [UInt32.toNat_sub_of_le a b (UInt32.le_iff_toNat_le.2 h), Address.toNat_ofNat (by omega)]
  rw [distance, sub_eq_ok h, ok_bind, hdifference, pure_eq_ok]

theorem slice_eq_ok (hstart : start ≤ stop) (hstop : stop ≤ bytes.length) :
    slice bytes start stop = .ok ((bytes.drop start).take (stop - start)) :=
  if_pos ⟨hstart, hstop⟩

theorem overwrite_eq_ok (hstart : start ≤ stop) (hstop : stop ≤ bytes.length)
    (hpart : part.length = stop - start) :
    overwrite bytes start stop part = .ok (bytes.take start ++ part ++ bytes.drop stop) :=
  if_pos ⟨hstart, hstop, hpart⟩

theorem front_eq_ok (h : n ≤ size) : front size n = .ok n := if_pos h

end Trap

/-! A dialogue that may stop with a trap. -/

abbrev Guarded (α : Type) : Type := ExceptT Trap Dialogue α

namespace Guarded

variable {α β : Type}

def ask (d : Dialogue α) : Guarded α := ExceptT.lift d

def check (value : Except Trap α) : Guarded α := ExceptT.mk (.done value)

def orFail (failed : β) (d : Dialogue (Except Fault α)) (next : α → Guarded β) : Guarded β := do
  match ← ask d with
  | .error _ => ask (.done failed)
  | .ok a => next a

@[simp] theorem check_ok_bind (a : α) (f : α → Guarded β) : check (.ok a) >>= f = f a := rfl

/-- Where what follows does not trap after anything that the dialogue may come to, the whole
does not. -/
theorem ask_bind {d : Dialogue α} {f : α → Guarded β} {g : α → Dialogue β}
    (h : ∀ t a, Dialogue.Ends d t a → f a = ask (g a)) : ask d >>= f = ask (d >>= g) := by
  induction d with
  | done a => exact h [] a (.done a)
  | ask c next ih =>
      refine congrArg (Dialogue.ask c) (funext fun reply => ?_)
      exact ih reply fun t a hends => h _ a (.ask c next reply hends)

theorem orFail_eq {failed : β} {d : Dialogue (Except Fault α)} {f : α → Guarded β}
    {g : α → Dialogue β} (h : ∀ a, f a = ask (g a)) :
    orFail failed d f = ask (d.orFail failed g) := by
  refine ask_bind fun t reply _ => ?_
  cases reply with
  | error fault => rfl
  | ok a => exact h a

end Guarded

/-! The ring in this arithmetic. -/

def Side.index : Side → Nat
  | left => 0
  | right => 1

namespace BlockRing

open Trap

def checkedSlot (b : BlockRing) (side : Side) : Except Trap Bytes :=
  match [b.left, b.right][side.index]? with
  | some slot => .ok slot
  | none => .error .range

def checkedRoom (b : BlockRing) : Except Trap Nat :=
  if b.committed < 2 then do
    let slots ← sub 2 b.committed
    let bytes ← mul 32 slots blockSize
    sub bytes b.fill
  else .ok 0

def checkedCommit (b : BlockRing) : Except Trap (Option BlockRing) :=
  if b.committed < 2 then do
    let slot ← b.checkedSlot b.writing
    let blank ← slice slot b.fill slot.length
    let closed ← overwrite slot b.fill slot.length (List.replicate blank.length erasedByte)
    let committed ← add 8 b.committed 1
    return some { b.setWriting closed with
      committed := committed
      writing := b.writing.other
      fill := 0 }
  else return none

def checkedPut (b : BlockRing) (bytes : Bytes) : Except Trap (BlockRing × Bytes) := do
  let gap ← sub blockSize b.fill
  let n := min gap bytes.length
  let slot ← b.checkedSlot b.writing
  let stop ← add 32 b.fill n
  let part ← slice bytes 0 n
  let stored ← overwrite slot b.fill stop part
  let fill ← add 32 b.fill n
  let rest ← slice bytes n bytes.length
  let filled := { b.setWriting stored with fill := fill }
  if fill = blockSize then
    let closed ← filled.checkedCommit
    return (closed.getD filled, rest)
  else return (filled, rest)

/-- Puts bytes into one slot after the other, until none is left. As many turns as there are
bytes are enough, unless one of them takes none. -/
def checkedFill : Nat → BlockRing → Bytes → Except Trap BlockRing
  | _, b, [] => .ok b
  | 0, _, _ :: _ => .error .endless
  | turns + 1, b, byte :: bytes => do
      let (b, rest) ← b.checkedPut (byte :: bytes)
      checkedFill turns b rest

def checkedAppend (b : BlockRing) (bytes : Bytes) : Except Trap (Option BlockRing) := do
  let room ← b.checkedRoom
  if bytes.length ≤ room then
    let filled ← checkedFill bytes.length b bytes
    return some filled
  else return none

def checkedHead? (b : BlockRing) : Except Trap (Option Bytes) :=
  if b.committed = 0 then return none
  else do
    let slot ← b.checkedSlot b.reading
    return some slot

def checkedPop (b : BlockRing) : Except Trap BlockRing :=
  if b.committed = 0 then return b
  else do
    let committed ← sub b.committed 1
    return { b with committed := committed, reading := b.reading.other }

variable {b c : BlockRing} {bytes : Bytes}

theorem checkedSlot_eq (b : BlockRing) (side : Side) : b.checkedSlot side = .ok (b.slot side) := by
  cases side <;> rfl

theorem checkedHead?_eq (b : BlockRing) : b.checkedHead? = .ok b.head? := by
  rw [checkedHead?, head?]
  split
  · rfl
  · rw [checkedSlot_eq, ok_bind, pure_eq_ok]

theorem checkedPop_eq (b : BlockRing) : b.checkedPop = .ok b.pop := by
  rw [checkedPop, pop]
  split
  · rfl
  · rw [sub_eq_ok (by omega), ok_bind, pure_eq_ok]

theorem WellFormed.checkedRoom_eq (h : b.WellFormed) : b.checkedRoom = .ok b.room := by
  have hfill := h.fill_lt
  rw [checkedRoom, room, blockSize]
  rw [blockSize] at hfill
  split
  · rename_i hlt
    rw [sub_eq_ok hlt.le, ok_bind, mul_eq_ok (by omega), ok_bind, sub_eq_ok (by omega)]
  · rfl

theorem Laid.checkedCommit_eq (h : b.Laid) : b.checkedCommit = .ok b.commit := by
  have hslot := h.slot_length b.writing
  have hfill := h.fill_le
  rw [checkedCommit, commit]
  split
  swap
  · rfl
  have hblank : ((b.slot b.writing).drop b.fill).take (blockSize - b.fill) =
      (b.slot b.writing).drop b.fill := by
    rw [← hslot, ← List.length_drop, List.take_length]
  have hlength : ((b.slot b.writing).drop b.fill).length = blockSize - b.fill := by
    rw [List.length_drop, hslot]
  rw [checkedSlot_eq, ok_bind, hslot, slice_eq_ok hfill hslot.ge, ok_bind, hblank, hlength,
    overwrite_eq_ok hfill hslot.ge List.length_replicate, ok_bind, add_eq_ok (by omega), ok_bind,
    List.drop_of_length_le hslot.le, List.append_nil, pure_eq_ok]
  rfl

theorem WellFormed.checkedPut_eq (h : b.WellFormed) (hlt : b.committed < 2) (bytes : Bytes) :
    b.checkedPut bytes =
      .ok (b.put (bytes.take (min (blockSize - b.fill) bytes.length)),
        bytes.drop (min (blockSize - b.fill) bytes.length)) := by
  have hslot := h.slot_length b.writing
  have hfill := h.fill_lt
  have hsize : blockSize = 4096 := rfl
  rw [checkedPut, sub_eq_ok hfill.le, ok_bind]
  dsimp only
  generalize hn : min (blockSize - b.fill) bytes.length = n
  have hfit : b.fill + n ≤ blockSize := by omega
  have hle : n ≤ bytes.length := by omega
  have hpart : (bytes.take n).length = n := List.length_take_of_le hle
  have hstore : { b.setWriting ((b.slot b.writing).take b.fill ++ bytes.take n ++
      (b.slot b.writing).drop (b.fill + n)) with fill := b.fill + n } = b.store (bytes.take n) := by
    rw [store, hpart]
  have hrest : (bytes.drop n).take (bytes.length - n) = bytes.drop n := by
    rw [← List.length_drop, List.take_length]
  rw [checkedSlot_eq, ok_bind, add_eq_ok (by omega), ok_bind, slice_eq_ok (Nat.zero_le _) hle,
    ok_bind, List.drop_zero, Nat.sub_zero, overwrite_eq_ok (by omega) (by omega) (by omega),
    ok_bind, ok_bind, slice_eq_ok hle le_rfl, ok_bind, hrest, hstore, put_eq, hpart]
  split
  · rename_i hfull
    have hlaid := h.toLaid.store (hpart.symm ▸ hfit)
    rw [hlaid.checkedCommit_eq, ok_bind, commit, committed_store, if_pos hlt, Option.getD_some,
      pure_eq_ok]
  · rfl

theorem WellFormed.checkedFill_eq (h : b.WellFormed) (hlt : b.committed < 2) (hbytes : bytes ≠ [])
    (hfit : bytes.length ≤ blockSize - b.fill) {turns : Nat} (hturns : 0 < turns) :
    checkedFill turns b bytes = .ok (b.put bytes) := by
  obtain ⟨turns, rfl⟩ := Nat.exists_eq_succ_of_ne_zero hturns.ne'
  obtain ⟨byte, rest, rfl⟩ := List.exists_cons_of_ne_nil hbytes
  rw [checkedFill, h.checkedPut_eq hlt, ok_bind, Nat.min_eq_right hfit, List.take_length,
    List.drop_length]
  cases turns <;> rfl

theorem WellFormed.checkedAppend_eq (h : b.WellFormed) (bytes : Bytes) :
    b.checkedAppend bytes = .ok (b.append bytes) := by
  have hfill := h.fill_lt
  rw [checkedAppend, h.checkedRoom_eq, ok_bind, BlockRing.append]
  split
  swap
  · rfl
  rename_i hroom
  dsimp only
  by_cases hempty : bytes.isEmpty = true
  · rw [if_pos hempty, List.isEmpty_iff.1 hempty]
    rfl
  have hbytes : bytes ≠ [] := fun hn => hempty (by simp [hn])
  have hpos := List.length_pos_iff.2 hbytes
  have hlt : b.committed < 2 := by
    by_contra hge
    rw [room, if_neg hge] at hroom
    omega
  rw [if_neg hempty]
  by_cases hone : bytes.length ≤ blockSize - b.fill
  · rw [if_pos hone, h.checkedFill_eq hlt hbytes hone hpos, ok_bind, pure_eq_ok]
  -- the first turn fills the slot under way, the second begins the other one
  rw [if_neg hone]
  replace hone := not_le.1 hone
  obtain ⟨hfull, hfree, hrest⟩ := h.spills hlt hroom hone
  have hsecond : checkedFill (bytes.length - 1) (b.put (bytes.take (blockSize - b.fill)))
      (bytes.drop (blockSize - b.fill)) = .ok ((b.put (bytes.take (blockSize - b.fill))).put
        (bytes.drop (blockSize - b.fill))) := by
    refine (h.put hlt hfull.le).checkedFill_eq hfree ?_ (by omega) (by omega)
    exact List.ne_nil_of_length_pos (by rw [List.length_drop]; omega)
  obtain ⟨byte, rest, rfl⟩ := List.exists_cons_of_ne_nil hbytes
  rw [List.length_cons, checkedFill, h.checkedPut_eq hlt, ok_bind, Nat.min_eq_left hone.le]
  rw [List.length_cons, Nat.add_sub_cancel] at hsecond
  dsimp only
  rw [hsecond, ok_bind, pure_eq_ok]

end BlockRing

end DfuLoader
