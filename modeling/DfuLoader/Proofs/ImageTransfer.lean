import DfuLoader.Proofs.ClassRequests
import DfuLoader.Proofs.ManifestPolicy
import DfuLoader.Proofs.RunLog

/-!
# Downloads of an image

A download of an image begins with the choice of a zone and ends with the status request that
finds the image written. In between there are the blocks of the image, with ticks and status
requests among them, an empty block, and more ticks and status requests (`Transfer`). What
happens to the pipeline then comes down to three kinds of moves: bytes are received, the block
under way is padded, and the engine ticks (`Feeds`). However the image is cut up and whatever
the board replies, the windows are the same (`Transfer.feeds`).
-/

namespace DfuLoader

namespace Bytes

def padToBlock (bytes : Bytes) : Bytes :=
  bytes ++ List.replicate ((blockSize - bytes.length % blockSize) % blockSize) erasedByte

variable {bytes : Bytes}

theorem prefix_padToBlock (bytes : Bytes) : bytes <+: bytes.padToBlock := List.prefix_append _ _

theorem padToBlock_of_mod (h : bytes.length % blockSize = 0) : bytes.padToBlock = bytes := by
  rw [padToBlock, h, Nat.sub_zero, Nat.mod_self, List.replicate_zero, List.append_nil]

theorem length_padToBlock (bytes : Bytes) :
    bytes.padToBlock.length = (bytes.length + (blockSize - 1)) / blockSize * blockSize := by
  rw [padToBlock, List.length_append, List.length_replicate, blockSize]
  omega

theorem padToBlock_padToBlock (bytes : Bytes) : bytes.padToBlock.padToBlock = bytes.padToBlock :=
  padToBlock_of_mod (by rw [length_padToBlock, Nat.mul_mod_left])

end Bytes

namespace Pipeline

/-- Of the bytes that were sent since the zone was loaded, the first `n` blocks have left the
buffer, `m` of them as committed windows, and the buffer holds the others. -/
structure Conveys (z : Zone) (sent : Bytes) (m n : Nat) (p : Pipeline) : Prop where
  tracks : p.Tracks z m n
  le : 4096 * n ≤ sent.length
  content_eq : p.buffer.content = sent.drop (4096 * n)

variable {cfg : Config} {z : Zone} {sent block : Bytes} {m n : Nat} {p q : Pipeline}
  {t : List Exchange} {k : Tick}

theorem conveys_loaded (z : Zone) (maxAttempts : UInt8) {buffer : BlockRing}
    (h : buffer.WellFormed) : Conveys z [] 0 0 ⟨.loaded z maxAttempts, buffer.clear⟩ where
  tracks := tracks_loaded z maxAttempts h.clear buffer.isEmpty_clear
  le := Nat.zero_le _
  content_eq := rfl

theorem Conveys.length_eq (h : p.Conveys z sent m n) :
    sent.length = 4096 * (n + p.buffer.committed) + p.buffer.fill := by
  have hcontent := h.tracks.ring.content_length
  have hle := h.le
  rw [h.content_eq, List.length_drop, blockSize] at hcontent
  omega

/-- The first block in the buffer is the next one of what was sent, and of all that this is
the beginning of. -/
theorem Conveys.block_eq {image : Bytes} (h : p.Conveys z sent m n) (hsent : sent <+: image)
    (hhead : p.buffer.head? = some block) :
    block = (image.drop (4096 * n)).take 4096 ∧ 4096 * (n + 1) ≤ image.length := by
  obtain ⟨hpos, hblock⟩ := h.tracks.ring.head?_eq_some hhead
  have hlength := h.length_eq
  have hle := hsent.length_le
  obtain ⟨rest, rfl⟩ := hsent
  refine ⟨?_, by omega⟩
  rw [hblock, h.content_eq, blockSize, List.drop_append_of_le_length h.le,
    List.take_append_of_le_length]
  rw [List.length_drop]
  omega

theorem Conveys.length_eq_of_isEmpty (h : p.Conveys z sent m n)
    (hempty : p.buffer.isEmpty = true) : sent.length = 4096 * n := by
  obtain ⟨hcommitted, hfill⟩ := BlockRing.isEmpty_iff.1 hempty
  rw [h.length_eq, hcommitted, hfill, Nat.add_zero, Nat.add_zero]

theorem Ticks.conveys (h : Ticks cfg p t k q) (hp : p.Conveys z sent m n) :
    q.Conveys z sent (m + k.passed) (n + k.released) := by
  have htracks := h.tracks hp.tracks
  have hbuffer := h.leaves.buffer_eq
  by_cases hk : k.released = 1
  · rw [if_pos hk] at hbuffer
    rw [hk] at htracks ⊢
    have hpos : 0 < p.buffer.committed := by
      rcases h.attended_or with hattended | ⟨-, rfl, -⟩
      · exact hp.tracks.committed_pos hattended
      · cases hk
    have hlength := hp.length_eq
    refine ⟨htracks, by omega, ?_⟩
    rw [hbuffer, hp.tracks.ring.content_pop hpos, hp.content_eq, List.drop_drop, blockSize,
      Nat.mul_add_one]
  · have hzero : k.released = 0 := by cases k <;> simp_all [Tick.released]
    rw [if_neg hk] at hbuffer
    rw [hzero] at htracks ⊢
    exact ⟨htracks, hp.le, by rw [hbuffer]; exact hp.content_eq⟩

end Pipeline

namespace Session

open Dialogue

variable {cfg : Config} {z : Zone} {sent sent' sent₁ bytes : Bytes} {m n limit : Nat}
  {s s' s₁ : Session} {t t' : List Exchange} {k : Tick} {ks ks' : List Tick} {p p₁ q : Pipeline}
  {op : Operation} {a : Answer} {log : List Event}

theorem conveys_commitTail (h : s.Conveys z sent m n) :
    s.commitTail.Conveys z sent.padToBlock m n := by
  have hring := h.tracks.ring
  have htracks := tracks_commitTail h.tracks
  have hlength := h.length_eq
  have hlt := hring.fill_lt
  have hle := h.le
  rw [blockSize] at hlt
  by_cases hfill : s.buffer.fill = 0
  · rw [commitTail_of_fill_eq_zero hfill,
      Bytes.padToBlock_of_mod (by rw [hlength, hfill, blockSize]; omega)]
    exact h
  · rw [commitTail_of_fill_ne_zero hring hfill] at htracks ⊢
    have hpad : (blockSize - sent.length % blockSize) % blockSize = blockSize - s.buffer.fill := by
      rw [blockSize]
      omega
    refine ⟨htracks, hle.trans sent.prefix_padToBlock.length_le, ?_⟩
    change s.buffer.close.content = _
    rw [hring.toLaid.content_close (fill_pos_committed_lt hring hfill), h.content_eq,
      Bytes.padToBlock, hpad, List.drop_append_of_le_length hle]

/-- A move of the pipeline, with what was sent before and after it. -/
inductive Moves (cfg : Config) :
    Pipeline → Bytes → List Exchange → List Tick → Pipeline → Bytes → Prop
  | tick {p q : Pipeline} {t : List Exchange} {k : Tick} (sent : Bytes)
      (ticks : Pipeline.Ticks cfg p t k q) : Moves cfg p sent t [k] q sent
  | receive {s : Session} {bytes : Bytes} {receiveAt : Address} {buffer : BlockRing}
      (sent : Bytes) (some_left : bytes ≠ [])
      (inside : receiveAt.toNat ≤ s.engine.zoneEnd.toNat)
      (receiveAt_eq : receiveAt.toNat = s.engine.receiveAt.toNat + bytes.length)
      (append : s.buffer.append bytes = some buffer) :
      Moves cfg s.toPipeline sent [] [] (s.received buffer receiveAt).toPipeline (sent ++ bytes)
  | pad (s : Session) (sent : Bytes) :
      Moves cfg s.toPipeline sent [] [] s.commitTail.toPipeline sent.padToBlock

inductive Feeds (cfg : Config) :
    Pipeline → Bytes → List Exchange → List Tick → Pipeline → Bytes → Prop
  | rest (p : Pipeline) (sent : Bytes) : Feeds cfg p sent [] [] p sent
  | move {p p₁ p' : Pipeline} {sent sent₁ sent' : Bytes} {t t' : List Exchange}
      {ks ks' : List Tick} (moves : Moves cfg p sent t ks p₁ sent₁)
      (feeds : Feeds cfg p₁ sent₁ t' ks' p' sent') :
      Feeds cfg p sent (t ++ t') (ks ++ ks') p' sent'

theorem Moves.conveys (h : Moves cfg p sent t ks q sent') (hp : p.Conveys z sent m n) :
    q.Conveys z sent' (m + ks.count .committed)
      (n + (ks.count .committed + ks.count .abandoned)) := by
  cases h with
  | @tick _ _ _ k _ ticks =>
      have hpassed : [k].count .committed = k.passed := by cases k <;> rfl
      have hreleased : [k].count .committed + [k].count .abandoned = k.released := by
        cases k <;> rfl
      rw [hreleased, hpassed]
      exact ticks.conveys hp
  | @receive s bytes receiveAt buffer _ some_left inside receiveAt_eq append =>
      refine ⟨tracks_received hp.tracks some_left inside receiveAt_eq append, ?_, ?_⟩
      · exact hp.le.trans (List.prefix_append _ _).length_le
      · change buffer.content = _
        rw [(hp.tracks.ring.append append).2, hp.content_eq]
        exact (List.drop_append_of_le_length hp.le).symm
  | pad s _ => exact conveys_commitTail hp

theorem Moves.isPrefix (h : Moves cfg p sent t ks q sent') : sent <+: sent' := by
  cases h with
  | tick _ _ => exact List.prefix_rfl
  | receive _ _ _ _ _ => exact List.prefix_append _ _
  | pad _ _ => exact sent.prefix_padToBlock

theorem Moves.feeds (h : Moves cfg p sent t ks q sent') : Feeds cfg p sent t ks q sent' := by
  have hfeeds := Feeds.move h (.rest q sent')
  rwa [List.append_nil, List.append_nil] at hfeeds

theorem Feeds.isPrefix (h : Feeds cfg p sent t ks q sent') : sent <+: sent' := by
  induction h with
  | rest _ _ => exact List.prefix_rfl
  | move moves _ ih => exact moves.isPrefix.trans ih

theorem Feeds.trans (h : Feeds cfg p sent t ks p₁ sent₁) (h' : Feeds cfg p₁ sent₁ t' ks' q sent') :
    Feeds cfg p sent (t ++ t') (ks ++ ks') q sent' := by
  induction h with
  | rest _ _ => exact h'
  | move moves _ ih =>
      rw [List.append_assoc, List.append_assoc]
      exact .move moves (ih h')

/-- The windows that have left the buffer are counted by the ticks. -/
theorem Feeds.conveys (h : Feeds cfg p sent t ks q sent') (hp : p.Conveys z sent m n) :
    q.Conveys z sent' (m + ks.count .committed)
      (n + (ks.count .committed + ks.count .abandoned)) := by
  induction h generalizing m n with
  | rest _ _ => exact hp
  | @move _ _ _ _ _ _ _ _ ks ks' moves _ ih =>
      have hcount (k : Tick) : (ks ++ ks').count k = ks.count k + ks'.count k := List.count_append
      have hall := ih (moves.conveys hp)
      rw [hcount, hcount]
      convert hall using 1 <;> omega

/-! What an operation does to the pipeline. -/

/-- What was sent after an operation. A download that is short pads it. -/
def Operation.sentAfter (cfg : Config) (sent : Bytes) : Operation → Bytes
  | .download bytes =>
      if bytes.length < cfg.transferSize.toNat then (sent ++ bytes).padToBlock else sent ++ bytes
  | _ => sent

def Operation.Sends : Operation → Prop
  | .download bytes => bytes ≠ []
  | .getStatus | .tick => True
  | _ => False

def Operation.Waits (op : Operation) : Prop := op = .getStatus ∨ op = .tick

structure Sending (s : Session) : Prop where
  endOfImage_eq : s.endOfImage = false
  state_ne : s.state ≠ .manifestSync

structure Awaiting (s : Session) : Prop where
  endOfImage_eq : s.endOfImage = true
  state_eq : s.state = .manifestSync

theorem Sending.not_drains (h : Sending s) (op : Operation) : ¬op.Drains cfg s :=
  fun hdrains => h.state_ne hdrains.2.1

theorem Steps.feeds (h : Steps cfg s t k s') (sent : Bytes) :
    Feeds cfg s.toPipeline sent t [k] s'.toPipeline
      (if s.endOfImage then sent.padToBlock else sent) := by
  cases h with
  | step ticks =>
      rw [commitImageTail] at ticks
      split at ticks
      · rename_i hend
        rw [if_pos hend]
        exact .move (.pad s sent) (Moves.tick _ ticks).feeds
      · rename_i hend
        rw [if_neg hend]
        exact (Moves.tick _ ticks).feeds

theorem Downloads.feeds (h : Downloads cfg s bytes (.ok ()) s') (hbytes : bytes ≠ [])
    (sent : Bytes) :
    Feeds cfg s.toPipeline sent [] [] s'.toPipeline
      ((Operation.download bytes).sentAfter cfg sent) := by
  cases h with
  | ended none_left => exact absurd none_left hbytes
  | @taken _ receiveAt buffer inside receiveAt_eq append =>
      have hreceive : Moves cfg s.toPipeline sent [] [] (s.received buffer receiveAt).toPipeline
          (sent ++ bytes) := .receive sent hbytes inside receiveAt_eq append
      rw [Operation.sentAfter]
      change Feeds cfg _ _ _ _ ((s.received buffer receiveAt).closedIfShort cfg _).toPipeline _
      rw [closedIfShort]
      split
      · exact .move hreceive (Moves.pad _ _).feeds
      · exact hreceive.feeds

theorem Downloads.sending {x : Except SessionError Unit} (h : Downloads cfg s bytes x s')
    (hbytes : bytes ≠ []) (hs : Sending s) : Sending s' := by
  cases h with
  | ended none_left => exact absurd none_left hbytes
  | overflowed _ _ | crowded _ _ _ => exact ⟨hs.endOfImage_eq, fun hstate => by cases hstate⟩
  | taken _ _ _ _ =>
      exact ⟨(closedIfShort_fields _ _).2, fun hstate => by cases hstate⟩

theorem Reports.sending {report : StatusReport} (h : Reports cfg limit s t (some (report, s')))
    (hs : Sending s) : Sending s' ∧ t = [] ∧ s'.toPipeline = s.toPipeline := by
  cases h with
  | ready _ _ => exact ⟨⟨hs.endOfImage_eq, fun hstate => by cases hstate⟩, rfl, rfl⟩
  | crowded _ _ | other _ _ => exact ⟨hs, rfl, rfl⟩
  | drained state _ _ | finished state _ _ | manifesting state _ _ => exact absurd state hs.state_ne

/-- While the image is sent, an operation is answered, and if it is not refused its bytes are
sent. -/
theorem Performs.sends {r : Option (Answer × Session)} (h : Performs cfg limit s op t r)
    (hop : op.Sends) (hs : Sending s) (sent : Bytes) :
    ∃ a s', r = some (a, s') ∧ Sending s' ∧
      (a.refused = false → ∃ ks : List Tick, op.events s a = ks.map .stepped ∧
        Feeds cfg s.toPipeline sent t ks s'.toPipeline (op.sentAfter cfg sent)) := by
  cases h with
  | @download _ x s' downloads =>
      refine ⟨_, s', rfl, downloads.sending hop hs, fun ha => ?_⟩
      cases x with
      | error e => cases ha
      | ok _ => exact ⟨[], rfl, downloads.feeds hop sent⟩
  | reported reports =>
      obtain ⟨hs', rfl, hsame⟩ := reports.sending hs
      rw [← hsame]
      exact ⟨_, _, rfl, hs', fun _ => ⟨[], rfl, .rest _ _⟩⟩
  | unreported reports =>
      cases reports with
      | waiting state _ _ => exact absurd state hs.state_ne
  | throttled _ =>
      exact ⟨_, _, rfl, ⟨hs.endOfImage_eq, hs.state_ne⟩, fun _ => ⟨[], rfl, .rest _ _⟩⟩
  | @ticked _ _ k _ steps =>
      obtain ⟨-, hstate, hend⟩ := steps.fields
      have hfeeds := steps.feeds sent
      rw [if_neg (by simp [hs.endOfImage_eq])] at hfeeds
      exact ⟨_, _, rfl, ⟨hend.trans hs.endOfImage_eq, hstate ▸ hs.state_ne⟩,
        fun _ => ⟨[k], steps.events s, hfeeds⟩⟩
  | configured _ _ | unconfigured | selected _ | unselected _ | allowed _ _ | refused _ | fail _
  | detach | upload _ | clearStatus | getState | abort | unreset _ | reset _ | polled _
  | detached _ => exact hop.elim

theorem performLogged_sends (hop : op.Sends) (hs : Sending s)
    (h : Ends (s.performLogged cfg limit op) t (log, some (a, s'))) (ha : a.refused = false)
    (sent : Bytes) :
    Sending s' ∧ ∃ ks : List Tick, log = ks.map .stepped ∧
      Feeds cfg s.toPipeline sent t ks s'.toPipeline (op.sentAfter cfg sent) := by
  obtain ⟨hdrains, -⟩ | ⟨-, hends, rfl⟩ := ends_performLogged.1 h
  · exact absurd hdrains (hs.not_drains op)
  · obtain ⟨_, _, heq, hs', hfeeds⟩ := (performs_of_ends hends).sends hop hs sent
    cases heq
    exact ⟨hs', hfeeds ha⟩

theorem performAllLogged_sends {ops : List Operation} {answers : List Answer}
    (hops : ∀ op ∈ ops, op.Sends) (hs : Sending s)
    (h : Ends (performAllLogged cfg limit ops s) t (log, some (answers, s')))
    (ha : ∀ a ∈ answers, a.refused = false) (sent : Bytes) :
    Sending s' ∧ ∃ ks : List Tick, log = ks.map .stepped ∧
      Feeds cfg s.toPipeline sent t ks s'.toPipeline
        (ops.foldl (fun sent op => op.sentAfter cfg sent) sent) := by
  induction ops generalizing s t log answers sent with
  | nil =>
      obtain ⟨rfl, heq⟩ := ends_done.1 h
      cases heq
      exact ⟨hs, [], rfl, .rest _ _⟩
  | cons op ops ih =>
      obtain ⟨t₁, t₂, log₁, log₂, a, answers₂, s₁, rfl, rfl, rfl, hop, hrest⟩ :=
        ends_performAllLogged_of_cons h
      rw [List.forall_mem_cons] at hops ha
      obtain ⟨hs₁, ks₁, rfl, hfeeds₁⟩ := performLogged_sends hops.1 hs hop ha.1 sent
      obtain ⟨hs', ks₂, rfl, hfeeds₂⟩ := ih hops.2 hs₁ hrest ha.2 (op.sentAfter cfg sent)
      exact ⟨hs', ks₁ ++ ks₂, List.map_append.symm, hfeeds₁.trans hfeeds₂⟩

def chunks (ops : List Operation) : List Bytes :=
  ops.filterMap fun
    | .download bytes => some bytes
    | _ => none

theorem foldl_sentAfter (ops : List Operation) (sent : Bytes) :
    ops.foldl (fun sent op => op.sentAfter cfg sent) sent =
      (chunks ops).foldl (fun sent chunk => (Operation.download chunk).sentAfter cfg sent)
        sent := by
  induction ops generalizing sent with
  | nil => rfl
  | cons op ops ih =>
      rw [List.foldl_cons, ih]
      cases op <;> rfl

/-- Where only the last block is short, the blocks are sent as one string. -/
theorem padToBlock_foldl_chunks {chunks : List Bytes}
    (hfull : ∀ chunk ∈ chunks.dropLast, cfg.transferSize.toNat ≤ chunk.length) (sent : Bytes) :
    (chunks.foldl (fun sent chunk => (Operation.download chunk).sentAfter cfg sent)
      sent).padToBlock = (sent ++ chunks.flatten).padToBlock := by
  induction chunks generalizing sent with
  | nil => rw [List.foldl_nil, List.flatten_nil, List.append_nil]
  | cons chunk chunks ih =>
      rw [List.foldl_cons, List.flatten_cons, ← List.append_assoc]
      cases chunks with
      | nil =>
          rw [List.foldl_nil, List.flatten_nil, List.append_nil, Operation.sentAfter]
          split
          · exact Bytes.padToBlock_padToBlock _
          · rfl
      | cons next rest =>
          have hchunk : ¬chunk.length < cfg.transferSize.toNat :=
            not_lt.2 (hfull chunk List.mem_cons_self)
          have hsent : (Operation.download chunk).sentAfter cfg sent = sent ++ chunk :=
            if_neg hchunk
          rw [hsent]
          exact ih (fun c hc => hfull c (List.mem_cons_of_mem _ hc)) (sent ++ chunk)

/-! The host waits for the image to be written. -/

/-- Draining pads the block under way and empties the buffer. -/
theorem drainLogged_feeds {ticks : List Tick} (hend : s.endOfImage = true) (hs : Located cfg s)
    (h : Ends (s.drainLogged cfg limit) t (ticks, some s')) (sent : Bytes) :
    s'.buffer.isEmpty = true ∧ Located cfg s' ∧ s'.state = s.state ∧
      ∃ sent', sent'.padToBlock = sent.padToBlock ∧
        Feeds cfg s.toPipeline sent t ticks s'.toPipeline sent' := by
  induction limit generalizing s t ticks sent with
  | zero =>
      obtain ⟨rfl, heq⟩ := ends_done.1 h
      obtain ⟨rfl, hd⟩ := Prod.mk.inj heq
      split at hd
      · rename_i hempty
        cases hd
        exact ⟨hempty, hs, rfl, sent, rfl, .rest _ _⟩
      · cases hd
  | succ limit ih =>
      rw [drainLogged] at h
      split at h
      · rename_i hempty
        obtain ⟨rfl, heq⟩ := ends_done.1 h
        cases heq
        exact ⟨hempty, hs, rfl, sent, rfl, .rest _ _⟩
      · obtain ⟨t₁, t₂, ⟨k, s₁⟩, rfl, hstep, h⟩ := ends_bind.1 h
        obtain ⟨t₃, t₄, ⟨ticks, d⟩, rfl, hrest, h⟩ := ends_bind.1 h
        obtain ⟨rfl, heq⟩ := ends_done.1 h
        cases heq
        have hsteps := steps_of_ends hstep
        obtain ⟨-, hstate₁, hend₁⟩ := hsteps.fields
        have hfeeds₁ := hsteps.feeds sent
        rw [if_pos hend] at hfeeds₁
        obtain ⟨hempty, hlocated, hstate, sent', hsent', hfeeds⟩ :=
          ih (hend₁.trans hend) (hsteps.located hs) hrest sent.padToBlock
        rw [sent.padToBlock_padToBlock] at hsent'
        rw [List.append_nil]
        exact ⟨hempty, hlocated, hstate.trans hstate₁, sent', hsent', hfeeds₁.trans hfeeds⟩

/-- The image is written, and the zone is loaded again. -/
structure Written (cfg : Config) (s : Session) : Prop where
  located : Located cfg s
  isEmpty : s.buffer.isEmpty = true
  state_eq : s.state = .idle

theorem Reports.waits {report : StatusReport} (h : Reports cfg limit s t (some (report, s')))
    (hs : Awaiting s) (hlocated : Located cfg s) (hdrains : ¬Operation.getStatus.Drains cfg s)
    (sent : Bytes) :
    t = [] ∧ Feeds cfg s.toPipeline sent [] [] s.commitTail.toPipeline sent.padToBlock ∧
      (Awaiting s' ∧ s'.toPipeline = s.commitTail.toPipeline ∨
        Written cfg s' ∧ s.commitTail.buffer.isEmpty = true) := by
  have htail : s.commitImageTail = s.commitTail := if_pos hs.endOfImage_eq
  have hfeeds : Feeds cfg s.toPipeline sent [] [] s.commitTail.toPipeline sent.padToBlock :=
    (Moves.pad s sent).feeds
  cases h with
  | ready state _ | crowded state _ => exact absurd (hs.state_eq.symm.trans state) (by decide)
  | other _ manifest => exact absurd hs.state_eq manifest
  | drained state policy _ => exact absurd ⟨rfl, state, policy⟩ hdrains
  | finished _ _ empty =>
      refine ⟨rfl, hfeeds, .inr ⟨⟨?_, empty, rfl⟩, htail ▸ empty⟩⟩
      exact Located.rewind (s := { s.commitImageTail with state := .idle })
        hlocated.commitImageTail empty
  | manifesting _ _ _ =>
      obtain ⟨-, hstate, hend⟩ := s.commitImageTail_fields
      exact ⟨rfl, hfeeds, .inl ⟨⟨hend.trans hs.endOfImage_eq, hstate.trans hs.state_eq⟩,
        congrArg Session.toPipeline htail⟩⟩

/-- While the host waits, an operation moves the pipeline on, or finds the image written. -/
theorem performLogged_waits (hop : op.Waits) (hs : Awaiting s) (hlocated : Located cfg s)
    (h : Ends (s.performLogged cfg limit op) t (log, some (a, s'))) (sent : Bytes) :
    ∃ (ks : List Tick) (q : Pipeline) (sent' : Bytes), log = ks.map .stepped ∧
      sent'.padToBlock = sent.padToBlock ∧ Feeds cfg s.toPipeline sent t ks q sent' ∧
      (Awaiting s' ∧ s'.toPipeline = q ∨ Written cfg s' ∧ q.buffer.isEmpty = true) := by
  obtain ⟨-, ticks, d, hdrain, rfl, heq⟩ | ⟨hdrains, hends, rfl⟩ := ends_performLogged.1 h
  · obtain ⟨s₁, rfl, heq⟩ := Option.map_eq_some_iff.1 heq.symm
    cases heq
    obtain ⟨hempty, hlocated₁, hstate, sent', hsent', hfeeds⟩ :=
      drainLogged_feeds (s := { s with state := .idle }) hs.endOfImage_eq hlocated hdrain sent
    exact ⟨ticks, _, sent', rfl, hsent', hfeeds,
      .inr ⟨⟨hlocated₁.rewind hempty, hempty, hstate⟩, hempty⟩⟩
  rcases hop with rfl | rfl
  · cases performs_of_ends hends with
    | reported reports =>
        obtain ⟨rfl, hfeeds, hs'⟩ := reports.waits hs hlocated hdrains sent
        exact ⟨[], _, _, rfl, sent.padToBlock_padToBlock, hfeeds, hs'⟩
  · cases performs_of_ends hends with
    | throttled _ =>
        exact ⟨[], _, sent, rfl, rfl, .rest _ _, .inl ⟨⟨hs.endOfImage_eq, hs.state_eq⟩, rfl⟩⟩
    | @ticked _ _ k _ steps =>
        obtain ⟨-, hstate, hend⟩ := steps.fields
        have hfeeds := steps.feeds sent
        rw [if_pos hs.endOfImage_eq] at hfeeds
        exact ⟨[k], _, _, steps.events s, sent.padToBlock_padToBlock, hfeeds,
          .inl ⟨⟨hend.trans hs.endOfImage_eq, hstate.trans hs.state_eq⟩, rfl⟩⟩

/-- Once the image is written, ticks and status requests do nothing. -/
theorem Performs.written {r : Option (Answer × Session)} (h : Performs cfg limit s op t r)
    (hop : op.Waits) (hs : Written cfg s) :
    t = [] ∧ ∃ a s', r = some (a, s') ∧ Written cfg s' ∧
      ∃ js : List Tick, op.events s a = js.map .stepped ∧ ∀ j ∈ js, j = .idle := by
  rcases hop with rfl | rfl
  · cases h with
    | reported reports =>
        cases reports with
        | other _ _ => exact ⟨rfl, _, s, rfl, hs, [], rfl, List.forall_mem_nil _⟩
        | ready state _ | crowded state _ | drained state _ _ | finished state _ _
        | manifesting state _ _ => exact absurd (hs.state_eq.symm.trans state) (by decide)
    | unreported reports =>
        cases reports with
        | waiting state _ _ => exact absurd (hs.state_eq.symm.trans state) (by decide)
  · cases h with
    | throttled _ =>
        exact ⟨rfl, _, _, rfl, ⟨hs.located, hs.isEmpty, hs.state_eq⟩, [], rfl,
          List.forall_mem_nil _⟩
    | ticked _ steps =>
        have hlocated : Located cfg { s with skipped := 0 } := hs.located
        obtain ⟨rfl, rfl, rfl⟩ := steps.eq_of_isEmpty hlocated hs.isEmpty
        exact ⟨rfl, _, _, rfl, ⟨hs.located, hs.isEmpty, hs.state_eq⟩, [.idle], rfl,
          List.forall_mem_singleton.2 rfl⟩

theorem performLogged_written (hop : op.Waits) (hs : Written cfg s)
    (h : Ends (s.performLogged cfg limit op) t (log, some (a, s'))) :
    Written cfg s' ∧ t = [] ∧ ∃ js : List Tick, log = js.map .stepped ∧ ∀ j ∈ js, j = .idle := by
  obtain ⟨⟨-, hstate, -⟩, -⟩ | ⟨-, hends, rfl⟩ := ends_performLogged.1 h
  · exact absurd (hs.state_eq.symm.trans hstate) (by decide)
  · obtain ⟨ht, _, _, heq, hs', hjs⟩ := (performs_of_ends hends).written hop hs
    cases heq
    exact ⟨hs', ht, hjs⟩

theorem performAllLogged_written {ops : List Operation} {answers : List Answer}
    (hops : ∀ op ∈ ops, op.Waits) (hs : Written cfg s)
    (h : Ends (performAllLogged cfg limit ops s) t (log, some (answers, s'))) :
    t = [] ∧ ∃ js : List Tick, log = js.map .stepped ∧ ∀ j ∈ js, j = .idle := by
  induction ops generalizing s t log answers with
  | nil =>
      obtain ⟨rfl, heq⟩ := ends_done.1 h
      cases heq
      exact ⟨rfl, [], rfl, List.forall_mem_nil _⟩
  | cons op ops ih =>
      obtain ⟨t₁, t₂, log₁, log₂, a, answers₂, s₁, rfl, rfl, rfl, hop, hrest⟩ :=
        ends_performAllLogged_of_cons h
      rw [List.forall_mem_cons] at hops
      obtain ⟨hs₁, rfl, js₁, rfl, hjs₁⟩ := performLogged_written hops.1 hs hop
      obtain ⟨rfl, js₂, rfl, hjs₂⟩ := ih hops.2 hs₁ hrest
      exact ⟨rfl, js₁ ++ js₂, List.map_append.symm, List.forall_mem_append.2 ⟨hjs₁, hjs₂⟩⟩

/-- If the session is idle in the end, the image was found written, and nothing happened
after that. -/
theorem performAllLogged_waits {ops : List Operation} {answers : List Answer}
    (hops : ∀ op ∈ ops, op.Waits) (hs : Awaiting s) (hlocated : Located cfg s)
    (h : Ends (performAllLogged cfg limit ops s) t (log, some (answers, s')))
    (hidle : s'.state = .idle) (sent : Bytes) :
    ∃ (ks js : List Tick) (q : Pipeline) (sent' : Bytes), log = (ks ++ js).map .stepped ∧
      (∀ j ∈ js, j = .idle) ∧ sent'.padToBlock = sent.padToBlock ∧
      Feeds cfg s.toPipeline sent t ks q sent' ∧ q.buffer.isEmpty = true := by
  induction ops generalizing s t log answers sent with
  | nil =>
      obtain ⟨rfl, heq⟩ := ends_done.1 h
      cases heq
      exact absurd (hs.state_eq.symm.trans hidle) (by decide)
  | cons op ops ih =>
      rw [List.forall_mem_cons] at hops
      obtain ⟨t₁, t₂, log₁, log₂, a, answers₂, s₁, rfl, rfl, rfl, hop, hrest⟩ :=
        ends_performAllLogged_of_cons h
      obtain ⟨ks₁, q₁, sent₁, rfl, hsent₁, hfeeds₁, ⟨hs₁, rfl⟩ | ⟨hs₁, hempty⟩⟩ :=
        performLogged_waits hops.1 hs hlocated hop sent
      · have hlocated₁ := (performs_of_ends (ends_perform_of_logged hop)).located hlocated
        obtain ⟨ks₂, js, q, sent', rfl, hjs, hsent', hfeeds₂, hempty⟩ :=
          ih hops.2 hs₁ hlocated₁ hrest sent₁
        refine ⟨ks₁ ++ ks₂, js, q, sent', ?_, hjs, hsent'.trans hsent₁, hfeeds₁.trans hfeeds₂,
          hempty⟩
        rw [← List.map_append, List.append_assoc]
      · obtain ⟨rfl, js, rfl, hjs⟩ := performAllLogged_written hops.2 hs₁ hrest
        rw [List.append_nil]
        exact ⟨ks₁, js, q₁, sent₁, List.map_append.symm, hjs, hsent₁, hfeeds₁, hempty⟩

theorem Located.performAllLogged {ops : List Operation} {answers : List Answer}
    (hs : Located cfg s)
    (h : Ends (performAllLogged cfg limit ops s) t (log, some (answers, s'))) : Located cfg s' := by
  induction ops generalizing s t log answers with
  | nil =>
      obtain ⟨-, heq⟩ := ends_done.1 h
      cases heq
      exact hs
  | cons op ops ih =>
      obtain ⟨_, _, _, _, _, _, _, -, -, -, hop, hrest⟩ := ends_performAllLogged_of_cons h
      exact ih ((performs_of_ends (ends_perform_of_logged hop)).located hs) hrest

/-! A whole download. -/

/-- A download of an image: the operations that send it, and those that wait for it to be
written. Only the last block may be shorter than a transfer. -/
structure Transfer (cfg : Config) (image : Bytes) where
  sending : List Operation
  waiting : List Operation
  sends : ∀ op ∈ sending, op.Sends
  waits : ∀ op ∈ waiting, op.Waits
  full : ∀ chunk ∈ (chunks sending).dropLast, cfg.transferSize.toNat ≤ chunk.length
  flatten_eq : (chunks sending).flatten = image

/-- A download begins with the choice of the zone, and an empty block ends the image. -/
def Transfer.operations {image : Bytes} (transfer : Transfer cfg image) (alt : UInt8) :
    List Operation :=
  .selectAlt alt :: (transfer.sending ++ .download [] :: transfer.waiting)

/-- Nothing was refused, and the image was found written. -/
structure Completed (answers : List Answer) (s : Session) : Prop where
  accepted : ∀ a ∈ answers, a.refused = false
  state_eq : s.state = .idle

instance (answers : List Answer) (s : Session) : Decidable (Completed answers s) :=
  decidable_of_iff ((∀ a ∈ answers, a.refused = false) ∧ s.state = .idle)
    ⟨fun h => ⟨h.1, h.2⟩, fun h => ⟨h.1, h.2⟩⟩

def windows (image : Bytes) : Nat := (image.length + (blockSize - 1)) / blockSize

variable {image : Bytes} {alt : UInt8} {zone : Zone} {answers : List Answer}

theorem performLogged_selectAlt (hzone : cfg.zones.get? alt = some zone)
    (h : Ends (s.performLogged cfg limit (.selectAlt alt)) t (log, some (a, s'))) :
    t = [] ∧ log = [] ∧ s' = s.loaded cfg alt zone := by
  obtain ⟨⟨hop, -⟩, -⟩ | ⟨-, hends, rfl⟩ := ends_performLogged.1 h
  · cases hop
  cases performs_of_ends hends with
  | selected known =>
      cases hzone.symm.trans known
      exact ⟨rfl, rfl, rfl⟩
  | unselected unknown => cases hzone.symm.trans unknown

theorem performLogged_downloadNil
    (h : Ends (s.performLogged cfg limit (.download [])) t (log, some (a, s'))) :
    t = [] ∧ log = [] ∧ s' = { s with endOfImage := true, state := .manifestSync } := by
  obtain ⟨⟨hop, -⟩, -⟩ | ⟨-, hends, rfl⟩ := ends_performLogged.1 h
  · cases hop
  cases performs_of_ends hends with
  | download downloads =>
      cases downloads with
      | ended _ => exact ⟨rfl, rfl, rfl⟩
      | overflowed some_left _ | crowded some_left _ _ | taken some_left _ _ _ =>
          exact absurd rfl some_left

theorem Transfer.padToBlock_sent (transfer : Transfer cfg image) :
    Bytes.padToBlock (transfer.sending.foldl (fun sent op => op.sentAfter cfg sent) []) =
      image.padToBlock := by
  rw [foldl_sentAfter, padToBlock_foldl_chunks transfer.full, List.nil_append,
    transfer.flatten_eq]

/-- A download that is completed feeds the pipeline the image, padded to its last block, and
each of its windows leaves the buffer once. -/
theorem Transfer.feeds (transfer : Transfer cfg image) (hs : Located cfg s)
    (hzone : cfg.zones.get? alt = some zone)
    (h : Ends (performAllLogged cfg limit (transfer.operations alt) s) t
      (log, some (answers, s'))) (hcompleted : Completed answers s') :
    ∃ (ks js : List Tick) (q : Pipeline), log = (ks ++ js).map .stepped ∧
      (∀ j ∈ js, j = .idle) ∧
      Feeds cfg (s.loaded cfg alt zone).toPipeline [] t ks q image.padToBlock ∧
      q.buffer.isEmpty = true ∧ ks.count .committed + ks.count .abandoned = windows image := by
  obtain ⟨t₁, t₂, log₁, log₂, a, answers₂, s₁, rfl, rfl, rfl, hselect, hrest⟩ :=
    ends_performAllLogged_of_cons h
  obtain ⟨rfl, rfl, rfl⟩ := performLogged_selectAlt hzone hselect
  obtain ⟨t₃, t₄, log₃, log₄, answers₃, answers₄, s₂, rfl, rfl, rfl, hsend, hwait⟩ :=
    ends_performAllLogged_append hrest
  obtain ⟨t₅, t₆, log₅, log₆, a₅, answers₆, s₃, rfl, rfl, rfl, hend, hwait⟩ :=
    ends_performAllLogged_of_cons hwait
  obtain ⟨rfl, rfl, rfl⟩ := performLogged_downloadNil hend
  have hlocated : Located cfg (s.loaded cfg alt zone) :=
    (performs_of_ends (ends_perform_of_logged hselect)).located hs
  have hsending : Sending (s.loaded cfg alt zone) := ⟨rfl, fun hstate => by cases hstate⟩
  obtain ⟨-, ks₁, rfl, hfeeds₁⟩ := performAllLogged_sends transfer.sends hsending hsend
    (fun a hmem => hcompleted.accepted a (by simp [hmem])) []
  have hsent : Located cfg s₂ := hlocated.performAllLogged hsend
  obtain ⟨ks₂, js, q, sent', rfl, hjs, hsent', hfeeds₂, hempty⟩ :=
    performAllLogged_waits (s := { s₂ with endOfImage := true, state := .manifestSync })
      transfer.waits ⟨rfl, rfl⟩ hsent hwait hcompleted.state_eq
      (transfer.sending.foldl (fun sent op => op.sentAfter cfg sent) [])
  have hfeeds := hfeeds₁.trans hfeeds₂
  have hconveys := hfeeds.conveys
    (Pipeline.conveys_loaded zone cfg.maxAttempts hs.wellFormed)
  have hlength := hconveys.length_eq_of_isEmpty hempty
  have himage : sent' = image.padToBlock := by
    -- the buffer is empty, so what was sent ends with a block
    have hwhole : sent'.length % blockSize = 0 := by
      rw [hlength, blockSize, Nat.mul_mod_right]
    rw [← Bytes.padToBlock_of_mod hwhole, hsent', transfer.padToBlock_sent]
  subst himage
  refine ⟨ks₁ ++ ks₂, js, q, ?_, hjs, hfeeds, hempty, ?_⟩
  · rw [List.nil_append, List.nil_append, ← List.map_append, List.append_assoc]
  · rw [Bytes.length_padToBlock, ← windows, blockSize] at hlength
    omega

end Session

end DfuLoader
