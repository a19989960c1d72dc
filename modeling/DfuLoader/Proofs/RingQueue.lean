import DfuLoader.BlockRing
import Mathlib.Tactic.Common

/-!
# The ring as a queue

The two slots of a ring hold more than the ring stands for: whatever an older
block left in them stays. What the ring stands for is its `content`, the bytes of
the committed blocks, oldest first, followed by those of the block under way.
Appending puts bytes behind the content, closing a slot pads it with blank bytes
to a whole number of blocks, and popping drops the first block of it. All of this
needs a ring whose sides are turned as the operations leave them (`WellFormed`).
-/

namespace DfuLoader

namespace BlockRing

/-- The slots have their size, and the side being filled is as far from the side
being read as there are committed slots between them. -/
structure Laid (b : BlockRing) : Prop where
  left_length : b.left.length = blockSize
  right_length : b.right.length = blockSize
  fill_le : b.fill ≤ blockSize
  turned : b.writing = if b.committed = 1 then b.reading.other else b.reading

/-- A ring between two operations: no slot is left full without being committed. -/
structure WellFormed (b : BlockRing) : Prop extends Laid b where
  fill_lt : b.fill < blockSize
  committed_le : b.committed ≤ 2
  fill_eq_zero : b.committed = 2 → b.fill = 0

def content (b : BlockRing) : Bytes := b.queue.flatten ++ b.tail

variable {b c : BlockRing}

theorem wellFormed_empty : empty.WellFormed where
  left_length := List.length_replicate
  right_length := List.length_replicate
  fill_le := Nat.zero_le _
  turned := rfl
  fill_lt := by decide
  committed_le := by decide
  fill_eq_zero := fun _ => rfl

theorem Laid.slot_length (h : b.Laid) (side : Side) : (b.slot side).length = blockSize := by
  cases side with
  | left => exact h.left_length
  | right => exact h.right_length

theorem Laid.tail_length (h : b.Laid) : b.tail.length = b.fill := by
  have hslot := h.slot_length b.writing
  have hfill := h.fill_le
  rw [tail, List.length_take, hslot]
  omega

theorem content_of_committed (b : BlockRing) :
    (b.committed = 0 → b.content = b.tail) ∧
      (b.committed = 1 → b.content = b.slot b.reading ++ b.tail) ∧
        (b.committed = 2 →
          b.content = b.slot b.reading ++ (b.slot b.reading.other ++ b.tail)) := by
  refine ⟨?_, ?_, ?_⟩ <;> intro h <;> simp [content, queue, h]

theorem Laid.content_length (h : b.Laid) (hle : b.committed ≤ 2) :
    b.content.length = b.committed * blockSize + b.fill := by
  obtain ⟨h0, h1, h2⟩ := b.content_of_committed
  have hr := h.slot_length b.reading
  have ho := h.slot_length b.reading.other
  have ht := h.tail_length
  have hcases : b.committed = 0 ∨ b.committed = 1 ∨ b.committed = 2 := by omega
  rcases hcases with hc | hc | hc
  · rw [h0 hc, ht, hc]
    omega
  · rw [h1 hc, List.length_append, hr, ht, hc]
    omega
  · rw [h2 hc, List.length_append, List.length_append, hr, ho, ht, hc]
    omega

theorem WellFormed.content_length (h : b.WellFormed) :
    b.content.length = b.committed * blockSize + b.fill :=
  h.toLaid.content_length h.committed_le

theorem WellFormed.head?_eq_some (h : b.WellFormed) {block : Bytes} (hb : b.head? = some block) :
    0 < b.committed ∧ block = b.content.take blockSize := by
  have hr := h.slot_length b.reading
  obtain ⟨-, h1, h2⟩ := b.content_of_committed
  rw [head?] at hb
  split at hb
  · exact absurd hb (by simp)
  · rename_i hne
    have hle := h.committed_le
    have hcases : b.committed = 1 ∨ b.committed = 2 := by omega
    refine ⟨by omega, ?_⟩
    rw [← Option.some.inj hb]
    rcases hcases with hc | hc
    · rw [h1 hc, ← hr, List.take_left]
    · rw [h2 hc, ← hr, List.take_left]

theorem head?_eq_none_iff : b.head? = none ↔ b.committed = 0 := by
  rw [head?]
  split <;> simp_all

theorem head?_ne_none_iff : b.head? ≠ none ↔ 0 < b.committed := by
  rw [ne_eq, head?_eq_none_iff, Nat.pos_iff_ne_zero]

theorem isEmpty_iff : b.isEmpty = true ↔ b.committed = 0 ∧ b.fill = 0 := by
  rw [isEmpty, Bool.and_eq_true, beq_iff_eq, beq_iff_eq]

theorem isEmpty_clear (b : BlockRing) : b.clear.isEmpty = true := rfl

/-! Clearing a ring empties it, whatever its slots still hold. -/

theorem WellFormed.clear (h : b.WellFormed) : b.clear.WellFormed where
  left_length := h.left_length
  right_length := h.right_length
  fill_le := Nat.zero_le _
  turned := rfl
  fill_lt := Nat.lt_of_lt_of_le Nat.zero_lt_one (by decide)
  committed_le := Nat.zero_le _
  fill_eq_zero := fun _ => rfl

@[simp] theorem content_clear (b : BlockRing) : b.clear.content = [] := rfl

/-! Popping drops the first block. -/

@[simp] theorem committed_pop (b : BlockRing) : b.pop.committed = b.committed - 1 := by
  rw [pop]
  split
  · omega
  · rfl

@[simp] theorem fill_pop (b : BlockRing) : b.pop.fill = b.fill := by
  rw [pop]
  split <;> rfl

theorem WellFormed.pop (h : b.WellFormed) : b.pop.WellFormed := by
  have hle := h.committed_le
  have hfull := h.fill_eq_zero
  rw [BlockRing.pop]
  split
  · exact h
  · rename_i hne
    refine ⟨⟨h.left_length, h.right_length, h.fill_le, ?_⟩, h.fill_lt, by simp; omega, ?_⟩
    · have hturned := h.turned
      have hcases : b.committed = 1 ∨ b.committed = 2 := by omega
      rcases hcases with hc | hc <;> simp [hc] at hturned ⊢ <;> exact hturned
    · simp only
      omega

theorem WellFormed.content_pop (h : b.WellFormed) (hpos : 0 < b.committed) :
    b.pop.content = b.content.drop blockSize := by
  have hr := h.slot_length b.reading
  have hle := h.committed_le
  obtain ⟨-, h1, h2⟩ := b.content_of_committed
  obtain ⟨p0, p1, -⟩ := b.pop.content_of_committed
  have htail : b.pop.tail = b.tail := by
    rw [BlockRing.pop]
    split <;> rfl
  have hcases : b.committed = 1 ∨ b.committed = 2 := by omega
  rcases hcases with hc | hc
  · rw [p0 (by simp [hc]), htail, h1 hc, ← hr, List.drop_left]
  · have hslot : b.pop.slot b.pop.reading = b.slot b.reading.other := by
      rw [BlockRing.pop, if_neg (by omega)]
      rfl
    rw [p1 (by simp [hc]), hslot, htail, h2 hc, ← hr, List.drop_left]

/-! Closing a slot pads the content to whole blocks. -/

@[simp] theorem committed_close (b : BlockRing) : b.close.committed = b.committed + 1 := rfl

@[simp] theorem fill_close (b : BlockRing) : b.close.fill = 0 := rfl

theorem commit_eq_some_iff : b.commit = some c ↔ b.committed < 2 ∧ b.close = c := by
  rw [commit]
  by_cases h : b.committed < 2 <;> simp [h]

theorem slot_setWriting_self (b : BlockRing) (bytes : Bytes) :
    (b.setWriting bytes).slot b.writing = bytes := by
  unfold setWriting
  cases b.writing <;> rfl

theorem slot_setWriting_other (b : BlockRing) (bytes : Bytes) :
    (b.setWriting bytes).slot b.writing.other = b.slot b.writing.other := by
  unfold setWriting
  cases b.writing <;> rfl

theorem setWriting_fields (b : BlockRing) (bytes : Bytes) :
    (b.setWriting bytes).committed = b.committed ∧ (b.setWriting bytes).writing = b.writing ∧
      (b.setWriting bytes).reading = b.reading := by
  unfold setWriting
  cases b.writing <;> exact ⟨rfl, rfl, rfl⟩

theorem Laid.setWriting (h : b.Laid) {bytes : Bytes} (hlen : bytes.length = blockSize) :
    (b.setWriting bytes).left.length = blockSize ∧
      (b.setWriting bytes).right.length = blockSize := by
  unfold BlockRing.setWriting
  cases b.writing with
  | left => exact ⟨hlen, h.right_length⟩
  | right => exact ⟨h.left_length, hlen⟩

theorem slot_close_writing (b : BlockRing) :
    b.close.slot b.writing = b.tail ++ List.replicate (blockSize - b.fill) erasedByte :=
  slot_setWriting_self b _

theorem slot_close_other (b : BlockRing) :
    b.close.slot b.writing.other = b.slot b.writing.other := slot_setWriting_other b _

theorem reading_close (b : BlockRing) : b.close.reading = b.reading := (setWriting_fields b _).2.2

theorem Laid.close (h : b.Laid) (hlt : b.committed < 2) : b.close.WellFormed := by
  have hlen : (b.tail ++ List.replicate (blockSize - b.fill) erasedByte).length = blockSize := by
    have hfill := h.fill_le
    rw [List.length_append, h.tail_length, List.length_replicate]
    omega
  obtain ⟨hleft, hright⟩ := h.setWriting hlen
  refine ⟨⟨hleft, hright, Nat.zero_le _, ?_⟩, Nat.lt_of_lt_of_le Nat.zero_lt_one (by decide),
    hlt, fun _ => rfl⟩
  have hturned := h.turned
  rw [committed_close, reading_close]
  change b.writing.other = _
  have hcases : b.committed = 0 ∨ b.committed = 1 := by omega
  rcases hcases with hc | hc <;> simp [hc] at hturned ⊢ <;> simp [hturned]

theorem Laid.content_close (h : b.Laid) (hlt : b.committed < 2) :
    b.close.content = b.content ++ List.replicate (blockSize - b.fill) erasedByte := by
  have htail : b.close.tail = [] := rfl
  have hturned := h.turned
  have hslot := b.slot_close_writing
  obtain ⟨h0, h1, -⟩ := b.content_of_committed
  obtain ⟨-, c1, c2⟩ := b.close.content_of_committed
  have hcases : b.committed = 0 ∨ b.committed = 1 := by omega
  rcases hcases with hc | hc
  · rw [c1 (by simp [hc]), htail, reading_close, h0 hc, List.append_nil]
    rw [if_neg (by omega)] at hturned
    rw [← hturned, hslot]
  · have hother := b.slot_close_other
    rw [if_pos hc] at hturned
    rw [hturned, Side.other_other] at hother
    rw [hturned] at hslot
    rw [c2 (by simp [hc]), htail, reading_close, h1 hc, hother, hslot, List.append_nil,
      List.append_assoc]

/-! Putting bytes into the slot under way. -/

def store (b : BlockRing) (bytes : Bytes) : BlockRing :=
  { b.setWriting ((b.slot b.writing).take b.fill ++ bytes ++
      (b.slot b.writing).drop (b.fill + bytes.length)) with
    fill := b.fill + bytes.length }

theorem put_eq (b : BlockRing) (bytes : Bytes) :
    b.put bytes =
      if b.fill + bytes.length = blockSize then (b.store bytes).close else b.store bytes := rfl

@[simp] theorem committed_store (b : BlockRing) (bytes : Bytes) :
    (b.store bytes).committed = b.committed := (setWriting_fields b _).1

@[simp] theorem fill_store (b : BlockRing) (bytes : Bytes) :
    (b.store bytes).fill = b.fill + bytes.length := rfl

theorem reading_store (b : BlockRing) (bytes : Bytes) : (b.store bytes).reading = b.reading :=
  (setWriting_fields b _).2.2

theorem writing_store (b : BlockRing) (bytes : Bytes) : (b.store bytes).writing = b.writing :=
  (setWriting_fields b _).2.1

theorem Laid.store (h : b.Laid) {bytes : Bytes} (hroom : b.fill + bytes.length ≤ blockSize) :
    (b.store bytes).Laid := by
  have hlen : ((b.slot b.writing).take b.fill ++ bytes ++
      (b.slot b.writing).drop (b.fill + bytes.length)).length = blockSize := by
    have hslot := h.slot_length b.writing
    rw [List.length_append, List.length_append, List.length_take, List.length_drop, hslot]
    omega
  obtain ⟨hleft, hright⟩ := h.setWriting hlen
  refine ⟨hleft, hright, hroom, ?_⟩
  rw [committed_store, reading_store, writing_store]
  exact h.turned

theorem Laid.tail_store (h : b.Laid) (bytes : Bytes) :
    (b.store bytes).tail = b.tail ++ bytes := by
  have hslot : (b.store bytes).slot b.writing = b.tail ++ bytes ++
      (b.slot b.writing).drop (b.fill + bytes.length) := slot_setWriting_self b _
  have hlen : (b.tail ++ bytes).length = b.fill + bytes.length := by
    rw [List.length_append, h.tail_length]
  rw [tail, writing_store, hslot, fill_store, ← hlen, List.take_left]

theorem Laid.content_store (h : b.Laid) (hlt : b.committed < 2) (bytes : Bytes) :
    (b.store bytes).content = b.content ++ bytes := by
  have htail := h.tail_store bytes
  have hturned := h.turned
  obtain ⟨h0, h1, -⟩ := b.content_of_committed
  obtain ⟨s0, s1, -⟩ := (b.store bytes).content_of_committed
  rw [committed_store] at s0 s1
  have hcases : b.committed = 0 ∨ b.committed = 1 := by omega
  rcases hcases with hc | hc
  · rw [s0 hc, h0 hc, htail]
  · have hother : (b.store bytes).slot b.writing.other = b.slot b.writing.other :=
      slot_setWriting_other b _
    rw [if_pos hc] at hturned
    rw [hturned, Side.other_other] at hother
    rw [s1 hc, h1 hc, htail, reading_store, hother, List.append_assoc]

theorem WellFormed.put (h : b.WellFormed) (hlt : b.committed < 2) {bytes : Bytes}
    (hroom : b.fill + bytes.length ≤ blockSize) : (b.put bytes).WellFormed := by
  have hlaid := h.toLaid.store hroom
  rw [put_eq]
  split
  · exact hlaid.close (by simpa using hlt)
  · refine ⟨hlaid, ?_, ?_, ?_⟩ <;> simp only [fill_store, committed_store] <;> omega

theorem WellFormed.content_put (h : b.WellFormed) (hlt : b.committed < 2) {bytes : Bytes}
    (hroom : b.fill + bytes.length ≤ blockSize) : (b.put bytes).content = b.content ++ bytes := by
  have hlaid := h.toLaid.store hroom
  rw [put_eq]
  split
  · rename_i hfull
    rw [hlaid.content_close (by simpa using hlt), h.content_store hlt, fill_store, hfull,
      Nat.sub_self, List.replicate_zero, List.append_nil]
  · exact h.content_store hlt bytes

theorem committed_put_of_full {bytes : Bytes} (hfull : b.fill + bytes.length = blockSize) :
    (b.put bytes).committed = b.committed + 1 ∧ (b.put bytes).fill = 0 := by
  rw [put_eq, if_pos hfull]
  exact ⟨congrArg (· + 1) (committed_store b bytes), rfl⟩

/-! Appending. -/

theorem append_eq_some_iff {bytes : Bytes} :
    (∃ c, b.append bytes = some c) ↔ bytes.length ≤ b.room := by
  rw [append]
  split <;> simp_all

theorem room_eq (b : BlockRing) (h : b.committed < 2) :
    b.room = (2 - b.committed) * blockSize - b.fill := if_pos h

/-- Bytes that are too many for the slot under way fill it, and the rest fits the other one. -/
theorem WellFormed.spills (h : b.WellFormed) (hlt : b.committed < 2) {bytes : Bytes}
    (hroom : bytes.length ≤ b.room) (hlong : blockSize - b.fill < bytes.length) :
    b.fill + (bytes.take (blockSize - b.fill)).length = blockSize ∧
      (b.put (bytes.take (blockSize - b.fill))).committed < 2 ∧
        (b.put (bytes.take (blockSize - b.fill))).fill +
          (bytes.drop (blockSize - b.fill)).length ≤ blockSize := by
  have hfill := h.fill_lt
  rw [room_eq b hlt] at hroom
  have htake : (bytes.take (blockSize - b.fill)).length = blockSize - b.fill := by
    rw [List.length_take]
    omega
  have hfull : b.fill + (bytes.take (blockSize - b.fill)).length = blockSize := by omega
  obtain ⟨hcommitted, hzero⟩ := committed_put_of_full hfull
  have hfree : b.committed = 0 := by
    by_contra hne
    have hc : b.committed = 1 := by omega
    rw [hc] at hroom
    omega
  rw [hfree] at hroom hcommitted
  refine ⟨hfull, by omega, ?_⟩
  rw [hzero, List.length_drop]
  omega

/-- What is appended comes behind what the ring holds, over one slot or two. -/
theorem WellFormed.append (h : b.WellFormed) {bytes : Bytes} (ha : b.append bytes = some c) :
    c.WellFormed ∧ c.content = b.content ++ bytes := by
  have hfill := h.fill_lt
  have hroom := append_eq_some_iff.1 ⟨c, ha⟩
  rw [BlockRing.append, if_pos hroom, Option.some.injEq] at ha
  by_cases hempty : bytes.isEmpty = true
  · rw [if_pos hempty] at ha
    rw [← ha, List.isEmpty_iff.1 hempty, List.append_nil]
    exact ⟨h, rfl⟩
  have hpos : 0 < bytes.length := List.length_pos_iff.2 (fun hn => hempty (by simp [hn]))
  have hlt : b.committed < 2 := by
    by_contra hge
    rw [room, if_neg hge] at hroom
    omega
  rw [room_eq b hlt] at hroom
  rw [if_neg hempty] at ha
  split at ha
  · rename_i hone
    rw [← ha]
    exact ⟨h.put hlt (by omega), h.content_put hlt (by omega)⟩
  · -- the slot under way gets full, so the rest begins the other one
    rename_i htwo
    obtain ⟨hfull, hfree, hrest⟩ :=
      h.spills hlt (room_eq b hlt ▸ hroom) (Nat.lt_of_not_le htwo)
    have hfirst := h.put hlt (Nat.le_of_eq hfull)
    rw [← ha]
    refine ⟨hfirst.put hfree hrest, ?_⟩
    rw [hfirst.content_put hfree hrest, h.content_put hlt (Nat.le_of_eq hfull), List.append_assoc,
      List.take_append_drop]

/-- The number of bytes says how they lie in the slots. -/
theorem WellFormed.append_fields (h : b.WellFormed) {bytes : Bytes}
    (ha : b.append bytes = some c) :
    c.committed * blockSize + c.fill = b.committed * blockSize + b.fill + bytes.length := by
  obtain ⟨hc, hcontent⟩ := h.append ha
  rw [← hc.content_length, hcontent, List.length_append, h.content_length]

theorem WellFormed.committed_le_append (h : b.WellFormed) {bytes : Bytes}
    (ha : b.append bytes = some c) : b.committed ≤ c.committed := by
  have hfields := h.append_fields ha
  have hlt := (h.append ha).1.fill_lt
  rw [blockSize] at hfields hlt
  omega

theorem pushBlock_nil (hlt : b.committed < 2) (hfill : b.fill = 0) :
    b.pushBlock [] = some b.close := by
  have happend : b.append [] = some b := by
    rw [append, if_pos (show ([] : Bytes).length ≤ b.room from Nat.zero_le _)]
    rfl
  rw [pushBlock, if_pos ⟨hlt, hfill, Nat.zero_le _⟩, happend, Option.bind_some,
    if_pos (by decide), commit_eq_some_iff]
  exact ⟨hlt, rfl⟩

/-! The blocks in order. -/

theorem head?_queue (b : BlockRing) : b.queue.head? = b.head? := by
  rw [queue, head?]
  split <;> simp_all

theorem WellFormed.length_queue (h : b.WellFormed) : b.queue.length = b.committed := by
  have hle := h.committed_le
  have hcases : b.committed = 0 ∨ b.committed = 1 ∨ b.committed = 2 := by omega
  rcases hcases with hc | hc | hc <;> simp [queue, hc]

theorem WellFormed.queue_pop (h : b.WellFormed) : b.pop.queue = b.queue.tail := by
  have hle := h.committed_le
  have hcases : b.committed = 0 ∨ b.committed = 1 ∨ b.committed = 2 := by omega
  rcases hcases with hc | hc | hc
  · simp [BlockRing.pop, queue, hc]
  · simp [BlockRing.pop, queue, hc]
  · simp only [BlockRing.pop, queue, hc]
    rfl

def padded (b : BlockRing) : List Bytes :=
  if b.fill = 0 then [] else [b.tail ++ List.replicate (blockSize - b.fill) erasedByte]

theorem Laid.queue_close (h : b.Laid) (hlt : b.committed < 2) :
    b.close.queue = b.queue ++ [b.tail ++ List.replicate (blockSize - b.fill) erasedByte] := by
  have hturned := h.turned
  have hslot := b.slot_close_writing
  have hcases : b.committed = 0 ∨ b.committed = 1 := by omega
  rcases hcases with hc | hc
  · rw [if_neg (by omega)] at hturned
    simp only [queue, committed_close, reading_close, hc, ← hturned, hslot, List.nil_append]
  · have hother := b.slot_close_other
    rw [if_pos hc] at hturned
    rw [hturned, Side.other_other] at hother
    rw [hturned] at hslot
    simp only [queue, committed_close, reading_close, hc, hother, hslot, List.cons_append,
      List.nil_append]

end BlockRing

end DfuLoader
