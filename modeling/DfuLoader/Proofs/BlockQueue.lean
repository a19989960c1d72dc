import DfuLoader.Proofs.RingQueue

/-!
# The ring is a queue of blocks

A ring turns its two slots and leaves the bytes of older blocks in them. None of that shows:
to its users it is a queue of at most two blocks, and the bytes that the next block begins
with (`BlockQueue`). Appending moves every block that gets full to the back of the queue, a
commit pads the bytes under way to a block. The ring answers every run of operations as the
queue does (`answers_as_queue`), and the block at the head of it stays as it is until it is
dropped.
-/

namespace DfuLoader

namespace Bytes

variable {size : Nat}

theorem length_of_mem_pieces {count : Nat} {bytes piece : Bytes}
    (hlength : count * size ≤ bytes.length) (h : piece ∈ pieces size count bytes) :
    piece.length = size := by
  induction count generalizing bytes with
  | zero => cases h
  | succ count ih =>
      rw [Nat.succ_mul] at hlength
      rcases List.mem_cons.1 h with rfl | h
      · rw [List.length_take]
        omega
      · exact ih (by rw [List.length_drop]; omega) h

theorem pieces_flatten_append {blocks : List Bytes}
    (hblocks : ∀ block ∈ blocks, block.length = size) (count : Nat) (rest : Bytes) :
    pieces size (blocks.length + count) (blocks.flatten ++ rest) =
      blocks ++ pieces size count rest := by
  induction blocks with
  | nil => rw [List.length_nil, Nat.zero_add, List.flatten_nil, List.nil_append, List.nil_append]
  | cons block blocks ih =>
      rw [List.forall_mem_cons] at hblocks
      rw [List.length_cons, Nat.add_right_comm, pieces_succ, List.flatten_cons, List.append_assoc,
        ← hblocks.1, List.take_left, List.drop_left, hblocks.1, ih hblocks.2, List.cons_append]

def fullBlocks (bytes : Bytes) : List Bytes := pieces blockSize (bytes.length / blockSize) bytes

def remainder (bytes : Bytes) : Bytes := bytes.drop (bytes.length / blockSize * blockSize)

def toBlock (bytes : Bytes) : Bytes :=
  bytes ++ List.replicate (blockSize - bytes.length) erasedByte

theorem length_fullBlocks (bytes : Bytes) :
    bytes.fullBlocks.length = bytes.length / blockSize := length_pieces _ _ _

theorem length_of_mem_fullBlocks {bytes block : Bytes} (h : block ∈ bytes.fullBlocks) :
    block.length = blockSize := length_of_mem_pieces (Nat.div_mul_le_self _ _) h

theorem length_remainder (bytes : Bytes) :
    bytes.remainder.length = bytes.length % blockSize := by
  have hmod := Nat.mod_add_div bytes.length blockSize
  rw [Nat.mul_comm] at hmod
  rw [remainder, List.length_drop]
  omega

theorem length_toBlock {bytes : Bytes} (h : bytes.length ≤ blockSize) :
    bytes.toBlock.length = blockSize := by
  rw [toBlock, List.length_append, List.length_replicate]
  omega

/-! Bytes of one block at most. -/

theorem fullBlocks_of_lt {bytes : Bytes} (h : bytes.length < blockSize) :
    bytes.fullBlocks = [] := by
  rw [fullBlocks, Nat.div_eq_of_lt h, pieces_zero]

theorem remainder_of_lt {bytes : Bytes} (h : bytes.length < blockSize) :
    bytes.remainder = bytes := by
  rw [remainder, Nat.div_eq_of_lt h, Nat.zero_mul, List.drop_zero]

theorem fullBlocks_of_eq {bytes : Bytes} (h : bytes.length = blockSize) :
    bytes.fullBlocks = [bytes.toBlock] := by
  have hone : bytes.length / blockSize = 1 := by rw [h]; rfl
  rw [fullBlocks, hone, pieces_succ, pieces_zero, ← h, List.take_length, toBlock, h, Nat.sub_self,
    List.replicate_zero, List.append_nil]

theorem remainder_of_eq {bytes : Bytes} (h : bytes.length = blockSize) : bytes.remainder = [] := by
  have hone : bytes.length / blockSize = 1 := by rw [h]; rfl
  rw [remainder, hone, Nat.one_mul, ← h, List.drop_length]

end Bytes

/-- A queue of at most two blocks, and the bytes that the block behind them begins with. A
full queue has no block behind it. -/
structure BlockQueue where
  blocks : List Bytes
  pending : Bytes
  length_blocks_le : blocks.length ≤ 2
  length_block : ∀ block ∈ blocks, block.length = blockSize
  length_pending_lt : pending.length < blockSize
  pending_of_full : blocks.length = 2 → pending = []

namespace BlockQueue

open BlockRing (Operation Answer)

def empty : BlockQueue where
  blocks := []
  pending := []
  length_blocks_le := Nat.zero_le 2
  length_block := List.forall_mem_nil _
  length_pending_lt := Nat.lt_of_lt_of_le Nat.zero_lt_one (by decide)
  pending_of_full := nofun

def room (q : BlockQueue) : Nat := (2 - q.blocks.length) * blockSize - q.pending.length

def enqueue (q : BlockQueue) (block : Bytes) (free : q.blocks.length < 2)
    (full : block.length = blockSize) : BlockQueue where
  blocks := q.blocks ++ [block]
  pending := []
  length_blocks_le := by
    rw [List.length_append, List.length_singleton]
    exact free
  length_block := List.forall_mem_append.2 ⟨q.length_block, List.forall_mem_singleton.2 full⟩
  length_pending_lt := Nat.lt_of_lt_of_le Nat.zero_lt_one (by decide)
  pending_of_full _ := rfl

@[simp] theorem blocks_enqueue (q : BlockQueue) (block : Bytes) (free : q.blocks.length < 2)
    (full : block.length = blockSize) :
    (q.enqueue block free full).blocks = q.blocks ++ [block] := rfl

/-- Bytes for which there is room make no more blocks than there are places for. -/
theorem length_append_le (q : BlockQueue) {bytes : Bytes} (h : bytes.length ≤ q.room) :
    q.blocks.length * blockSize + (q.pending ++ bytes).length ≤ 2 * blockSize := by
  have hle := q.length_blocks_le
  have hlt := q.length_pending_lt
  rw [room] at h
  rw [List.length_append]
  by_cases htwo : q.blocks.length = 2
  · have hnone := congrArg List.length (q.pending_of_full htwo)
    rw [List.length_nil] at hnone
    rw [htwo] at h ⊢
    omega
  · rw [blockSize] at *
    omega

theorem length_blocks_append_le (q : BlockQueue) {bytes : Bytes} (h : bytes.length ≤ q.room) :
    (q.blocks ++ (q.pending ++ bytes).fullBlocks).length ≤ 2 := by
  have hle := q.length_append_le h
  rw [List.length_append, Bytes.length_fullBlocks]
  rw [blockSize] at *
  omega

theorem remainder_append_of_full (q : BlockQueue) {bytes : Bytes} (h : bytes.length ≤ q.room)
    (full : (q.blocks ++ (q.pending ++ bytes).fullBlocks).length = 2) :
    (q.pending ++ bytes).remainder = [] := by
  have hle := q.length_append_le h
  rw [List.length_append, Bytes.length_fullBlocks] at full
  rw [← List.length_eq_zero_iff, Bytes.length_remainder]
  rw [blockSize] at *
  omega

/-- Takes in bytes if there is room for all of them. What is full goes to the back of the
queue. -/
def append (q : BlockQueue) (bytes : Bytes) : Option BlockQueue :=
  if h : bytes.length ≤ q.room then some {
    blocks := q.blocks ++ (q.pending ++ bytes).fullBlocks
    pending := (q.pending ++ bytes).remainder
    length_blocks_le := q.length_blocks_append_le h
    length_block := List.forall_mem_append.2
      ⟨q.length_block, fun _ hblock => Bytes.length_of_mem_fullBlocks hblock⟩
    length_pending_lt := by
      rw [Bytes.length_remainder]
      exact Nat.mod_lt _ (by decide)
    pending_of_full := q.remainder_append_of_full h }
  else none

def commit (q : BlockQueue) : Option BlockQueue :=
  if h : q.blocks.length < 2 then
    some (q.enqueue q.pending.toBlock h (Bytes.length_toBlock (Nat.le_of_lt q.length_pending_lt)))
  else none

def pushBlock (q : BlockQueue) (bytes : Bytes) : Option BlockQueue :=
  if h : q.blocks.length < 2 ∧ q.pending = [] ∧ bytes.length ≤ blockSize then
    some (q.enqueue bytes.toBlock h.1 (Bytes.length_toBlock h.2.2))
  else none

def pop (q : BlockQueue) : BlockQueue where
  blocks := q.blocks.tail
  pending := q.pending
  length_blocks_le := by
    have hle := q.length_blocks_le
    rw [List.length_tail]
    omega
  length_block block hblock := q.length_block block (List.mem_of_mem_tail hblock)
  length_pending_lt := q.length_pending_lt
  pending_of_full h := by
    have hle := q.length_blocks_le
    rw [List.length_tail] at h
    omega

def attempt (q : BlockQueue) : Option BlockQueue → Answer × BlockQueue
  | some next => (.taken true, next)
  | none => (.taken false, q)

def perform (q : BlockQueue) : Operation → Answer × BlockQueue
  | .pushBlock bytes => q.attempt (q.pushBlock bytes)
  | .append bytes => q.attempt (q.append bytes)
  | .commit => q.attempt q.commit
  | .head => (.block q.blocks.head?, q)
  | .pop => (.quiet, q.pop)
  | .clear => (.quiet, empty)

end BlockQueue

namespace BlockRing

def performAll {σ : Type} (perform : σ → Operation → Answer × σ) :
    List Operation → σ → List Answer × σ
  | [], s => ([], s)
  | op :: ops, s =>
      let (answer, s) := perform s op
      let (answers, s) := performAll perform ops s
      (answer :: answers, s)

/-- The ring holds what the queue does. -/
structure StandsFor (b : BlockRing) (q : BlockQueue) : Prop extends WellFormed b where
  queue_eq : b.queue = q.blocks
  tail_eq : b.tail = q.pending

structure Shows (b : BlockRing) (q : BlockQueue) : Prop where
  committed_eq : b.committed = q.blocks.length
  fill_eq : b.fill = q.pending.length
  room_eq : b.room = q.room
  isEmpty_iff : b.isEmpty = true ↔ q.blocks = [] ∧ q.pending = []
  head?_eq : b.head? = q.blocks.head?

/-- The operations that do not drop the head of the queue. -/
def Operation.KeepsHead : Operation → Prop
  | .pop | .clear => False
  | .pushBlock _ | .append _ | .commit | .head => True

variable {b c : BlockRing} {q r : BlockQueue} {bytes : Bytes}

/-! The content of a ring determines its blocks. -/

theorem WellFormed.length_block (h : b.WellFormed) :
    ∀ block ∈ b.queue, block.length = blockSize := by
  intro block hblock
  rw [queue] at hblock
  split at hblock
  · cases hblock
  · rw [List.mem_singleton.1 hblock]
    exact h.slot_length _
  · rcases List.mem_cons.1 hblock with rfl | hblock
    · exact h.slot_length _
    · rw [List.mem_singleton.1 hblock]
      exact h.slot_length _

theorem WellFormed.length_flatten_queue (h : b.WellFormed) :
    b.queue.flatten.length = b.committed * blockSize := by
  have hcontent := h.content_length
  rw [content, List.length_append, h.tail_length] at hcontent
  omega

/-- Appended bytes go behind those under way, and every block that gets full behind the
others. -/
theorem WellFormed.queue_append (h : b.WellFormed) (ha : b.append bytes = some c) :
    c.queue = b.queue ++ (b.tail ++ bytes).fullBlocks ∧ c.tail = (b.tail ++ bytes).remainder := by
  obtain ⟨hc, hcontent⟩ := h.append ha
  have hfields := h.append_fields ha
  have hlt := hc.fill_lt
  have hlength : (b.tail ++ bytes).length = b.fill + bytes.length := by
    rw [List.length_append, h.tail_length]
  have hcount : c.committed = b.committed + (b.tail ++ bytes).length / blockSize := by
    rw [hlength]
    rw [blockSize] at *
    omega
  rw [content, content, List.append_assoc] at hcontent
  constructor
  · have hpieces := Bytes.pieces_flatten_append hc.length_block 0 c.tail
    rw [hcontent, Nat.add_zero, hc.length_queue, hcount, ← h.length_queue,
      Bytes.pieces_flatten_append h.length_block, Bytes.pieces_zero, List.append_nil] at hpieces
    exact hpieces.symm
  · have hdrop := congrArg (List.drop (c.committed * blockSize)) hcontent
    rw [← hc.length_flatten_queue, List.drop_left, hc.length_flatten_queue, hcount, Nat.add_mul,
      ← h.length_flatten_queue, List.drop_append, Nat.add_sub_cancel_left, List.drop_eq_nil_of_le
      (Nat.le_add_right _ _), List.nil_append] at hdrop
    exact hdrop

theorem tail_pop (b : BlockRing) : b.pop.tail = b.tail := by
  rw [pop]
  split <;> rfl

/-! Every operation does to the ring what it does to the queue. -/

theorem standsFor_empty : empty.StandsFor .empty where
  toWellFormed := wellFormed_empty
  queue_eq := rfl
  tail_eq := rfl

theorem standsFor_clear (h : b.WellFormed) : b.clear.StandsFor .empty where
  toWellFormed := h.clear
  queue_eq := rfl
  tail_eq := rfl

namespace StandsFor

variable (h : b.StandsFor q)

include h

theorem committed_eq : b.committed = q.blocks.length := by rw [← h.length_queue, h.queue_eq]

theorem fill_eq : b.fill = q.pending.length := by rw [← h.tail_length, h.tail_eq]

theorem room_eq : b.room = q.room := by
  have hle := q.length_blocks_le
  rw [room, BlockQueue.room, h.committed_eq, h.fill_eq]
  split
  · rfl
  · have htwo : q.blocks.length = 2 := by omega
    rw [htwo, Nat.sub_self, Nat.zero_mul, Nat.zero_sub]

theorem shows : b.Shows q where
  committed_eq := h.committed_eq
  fill_eq := h.fill_eq
  room_eq := h.room_eq
  isEmpty_iff := by
    rw [isEmpty_iff, h.committed_eq, h.fill_eq, List.length_eq_zero_iff, List.length_eq_zero_iff]
  head?_eq := by rw [← head?_queue, h.queue_eq]

theorem pop : b.pop.StandsFor q.pop where
  toWellFormed := h.toWellFormed.pop
  queue_eq := by
    rw [h.queue_pop, h.queue_eq]
    rfl
  tail_eq := b.tail_pop.trans h.tail_eq

theorem close (free : q.blocks.length < 2) (full : q.pending.toBlock.length = blockSize) :
    b.close.StandsFor (q.enqueue q.pending.toBlock free full) where
  toWellFormed := h.toLaid.close (by rwa [h.committed_eq])
  queue_eq := by
    rw [h.queue_close (by rwa [h.committed_eq]), h.queue_eq, h.tail_eq, h.fill_eq]
    rfl
  tail_eq := rfl

end StandsFor

def Concur (b? : Option BlockRing) (q? : Option BlockQueue) : Prop :=
  b? = none ∧ q? = none ∨ ∃ b q, b? = some b ∧ q? = some q ∧ b.StandsFor q

namespace StandsFor

theorem append (h : b.StandsFor q) (bytes : Bytes) :
    Concur (b.append bytes) (q.append bytes) := by
  by_cases hroom : bytes.length ≤ q.room
  · obtain ⟨c, hc⟩ := append_eq_some_iff.2 (h.room_eq ▸ hroom)
    obtain ⟨hqueue, htail⟩ := h.queue_append hc
    rw [h.queue_eq, h.tail_eq] at hqueue
    rw [h.tail_eq] at htail
    exact .inr ⟨c, _, hc, dif_pos hroom, (h.toWellFormed.append hc).1, hqueue, htail⟩
  · refine .inl ⟨?_, dif_neg hroom⟩
    rw [BlockRing.append, h.room_eq, if_neg hroom]

theorem commit (h : b.StandsFor q) : Concur b.commit q.commit := by
  by_cases hfree : q.blocks.length < 2
  · have hcommitted : b.committed < 2 := by rwa [h.committed_eq]
    exact .inr ⟨b.close, _, if_pos hcommitted, dif_pos hfree, h.close hfree _⟩
  · exact .inl ⟨if_neg (by rwa [h.committed_eq]), dif_neg hfree⟩

theorem pushBlock (h : b.StandsFor q) (bytes : Bytes) :
    Concur (b.pushBlock bytes) (q.pushBlock bytes) := by
  by_cases hfits : q.blocks.length < 2 ∧ q.pending = [] ∧ bytes.length ≤ blockSize
  swap
  · refine .inl ⟨if_neg ?_, dif_neg hfits⟩
    rwa [h.committed_eq, h.fill_eq, List.length_eq_zero_iff]
  obtain ⟨hfree, hnone, hlength⟩ := hfits
  have hroom : bytes.length ≤ q.room := by
    rw [BlockQueue.room, hnone, List.length_nil, blockSize] at *
    omega
  have hpush : b.pushBlock bytes = (b.append bytes).bind fun filled =>
      if bytes.length < blockSize then filled.commit else some filled := by
    refine if_pos ⟨by rwa [h.committed_eq], ?_, hlength⟩
    rw [h.fill_eq, hnone, List.length_nil]
  obtain ⟨-, hnone'⟩ | ⟨c, r, hc, hr, hstands⟩ := h.append bytes
  · rw [BlockQueue.append, dif_pos hroom] at hnone'
    cases hnone'
  rw [BlockQueue.append, dif_pos hroom, Option.some.injEq] at hr
  have hblocks : r.blocks = q.blocks ++ (q.pending ++ bytes).fullBlocks := by rw [← hr]
  have hpending : r.pending = (q.pending ++ bytes).remainder := by rw [← hr]
  rw [hnone, List.nil_append] at hblocks hpending
  refine .inr ?_
  rw [hpush, hc, Option.bind_some]
  by_cases hshort : bytes.length < blockSize
  · -- a short block stays under way, and is padded
    rw [Bytes.fullBlocks_of_lt hshort, List.append_nil] at hblocks
    rw [Bytes.remainder_of_lt hshort] at hpending
    have hcommitted : c.committed < 2 := by rwa [hstands.committed_eq, hblocks]
    have hclose := hstands.close (hblocks ▸ hfree) (Bytes.length_toBlock (hpending ▸ hlength))
    refine ⟨c.close, _, by rw [if_pos hshort]; exact if_pos hcommitted,
      dif_pos ⟨hfree, hnone, hlength⟩, hclose.toWellFormed, ?_, rfl⟩
    rw [hclose.queue_eq, BlockQueue.blocks_enqueue, BlockQueue.blocks_enqueue, hblocks, hpending]
  · -- a whole block is committed by the append
    have hwhole : bytes.length = blockSize := by omega
    rw [Bytes.fullBlocks_of_eq hwhole] at hblocks
    rw [Bytes.remainder_of_eq hwhole] at hpending
    exact ⟨c, _, if_neg hshort, dif_pos ⟨hfree, hnone, hlength⟩, hstands.toWellFormed,
      hstands.queue_eq.trans hblocks, hstands.tail_eq.trans hpending⟩

theorem attempt {b? : Option BlockRing} {q? : Option BlockQueue} (h : b.StandsFor q)
    (hconcur : Concur b? q?) : (b.attempt b?).1 = (q.attempt q?).1 ∧
      (b.attempt b?).2.StandsFor (q.attempt q?).2 := by
  obtain ⟨rfl, rfl⟩ | ⟨c, r, rfl, rfl, hstands⟩ := hconcur
  · exact ⟨rfl, h⟩
  · exact ⟨rfl, hstands⟩

theorem perform (h : b.StandsFor q) (op : Operation) :
    (b.perform op).1 = (q.perform op).1 ∧ (b.perform op).2.StandsFor (q.perform op).2 := by
  cases op with
  | pushBlock bytes => exact h.attempt (h.pushBlock bytes)
  | append bytes => exact h.attempt (h.append bytes)
  | commit => exact h.attempt h.commit
  | head => exact ⟨congrArg Answer.block h.shows.head?_eq, h⟩
  | pop => exact ⟨rfl, h.pop⟩
  | clear => exact ⟨rfl, standsFor_clear h.toWellFormed⟩

theorem performAll (h : b.StandsFor q) (ops : List Operation) :
    (BlockRing.performAll BlockRing.perform ops b).1 =
        (BlockRing.performAll BlockQueue.perform ops q).1 ∧
      (BlockRing.performAll BlockRing.perform ops b).2.StandsFor
        (BlockRing.performAll BlockQueue.perform ops q).2 := by
  induction ops generalizing b q with
  | nil => exact ⟨rfl, h⟩
  | cons op ops ih =>
      obtain ⟨hanswer, hnext⟩ := h.perform op
      obtain ⟨hanswers, hlast⟩ := ih hnext
      exact ⟨congrArg₂ List.cons hanswer hanswers, hlast⟩

end StandsFor

end BlockRing

namespace BlockQueue

open BlockRing (Operation Answer)

variable {q : BlockQueue} {block : Bytes}

/-- What does not drop the head of a queue puts blocks behind it at most. -/
theorem blocks_perform {op : Operation} (hop : op.KeepsHead) :
    ∃ more, (q.perform op).2.blocks = q.blocks ++ more := by
  have same : ∃ more, q.blocks = q.blocks ++ more := ⟨[], (List.append_nil _).symm⟩
  cases op with
  | pushBlock bytes =>
      simp only [perform, pushBlock]
      split
      · exact ⟨_, rfl⟩
      · exact same
  | append bytes =>
      simp only [perform, append]
      split
      · exact ⟨_, rfl⟩
      · exact same
  | commit =>
      simp only [perform, commit]
      split
      · exact ⟨_, rfl⟩
      · exact same
  | head => exact same
  | pop | clear => exact hop.elim

theorem head?_performAll {ops : List Operation} (hops : ∀ op ∈ ops, op.KeepsHead)
    (h : q.blocks.head? = some block) :
    (BlockRing.performAll perform ops q).2.blocks.head? = some block := by
  induction ops generalizing q with
  | nil => exact h
  | cons op ops ih =>
      rw [List.forall_mem_cons] at hops
      obtain ⟨more, hmore⟩ := blocks_perform (q := q) hops.1
      refine ih hops.2 ?_
      change (q.perform op).2.blocks.head? = some block
      rw [hmore, List.head?_append, h, Option.some_or]

end BlockQueue

namespace BlockRing

variable {b : BlockRing}

theorem perform_of_refused {op : Operation} (h : (b.perform op).1 = .taken false) :
    (b.perform op).2 = b := by
  have hattempt {next : Option BlockRing} (h : (b.attempt next).1 = .taken false) :
      (b.attempt next).2 = b := by
    cases next with
    | none => rfl
    | some next => cases h
  cases op with
  | pushBlock bytes => exact hattempt h
  | append bytes => exact hattempt h
  | commit => exact hattempt h
  | head | pop | clear => cases h

/-- From the start, a ring answers as a queue of blocks does, whatever is done to both: what it
accepts and refuses, and what it is found to hold. It refuses without a change, and the block
at its head stays the same until it is dropped. -/
theorem answers_as_queue (ops : List Operation) :
    ∃ answers b q,
      performAll perform ops empty = (answers, b) ∧
      performAll BlockQueue.perform ops .empty = (answers, q) ∧
      b.queue = q.blocks ∧ b.tail = q.pending ∧ b.Shows q ∧
      (∀ op, (b.perform op).1 = .taken false → (b.perform op).2 = b) ∧
      ∀ later block, (∀ op ∈ later, op.KeepsHead) → b.head? = some block →
        (performAll perform later b).2.head? = some block := by
  obtain ⟨hanswers, hstands⟩ := standsFor_empty.performAll ops
  refine ⟨_, _, _, rfl, Prod.ext hanswers.symm rfl, hstands.queue_eq, hstands.tail_eq,
    hstands.shows, fun op => perform_of_refused, ?_⟩
  intro later block hlater hhead
  rw [hstands.shows.head?_eq] at hhead
  rw [(hstands.performAll later).2.shows.head?_eq]
  exact BlockQueue.head?_performAll hlater hhead

end BlockRing

end DfuLoader
