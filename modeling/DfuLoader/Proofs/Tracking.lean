import DfuLoader.Proofs.SessionCases
import DfuLoader.Proofs.TickCommands

/-!
# The cursors and the buffer

The receiving cursor, the window cursor and the buffer move apart in many ways, and
one equation ties them together: the receiving cursor is where the windows that left
the buffer, the blocks in it and the bytes under way end (`Tracks.receive_eq`). With
it goes that nothing is queued that lies behind the end of the zone. Ticks, downloads,
uploads and the closing of a short block all keep it.
-/

namespace DfuLoader

theorem Tick.passed_le_released (k : Tick) : k.passed ≤ k.released := by
  cases k <;> decide

namespace Pipeline

/-- The pipeline works on a zone: `m` windows were committed, and `n` windows have left
the buffer since the zone was loaded. -/
structure Tracks (z : Zone) (m n : Nat) (p : Pipeline) : Prop where
  ring : p.buffer.WellFormed
  steady : p.engine.Steady z m
  le : m ≤ n
  receive_eq : p.engine.receiveAt.toNat =
    min (z.start.toNat + 4096 * (n + p.buffer.committed) + p.buffer.fill) z.limit
  queued : 0 < p.buffer.committed →
    z.start.toNat + 4096 * (n + p.buffer.committed - 1) < z.stop.toNat
  pending : 0 < p.buffer.fill →
    z.start.toNat + 4096 * (n + p.buffer.committed) + p.buffer.fill ≤ z.stop.toNat
  attended : p.engine.stage ≠ .idle → 0 < p.buffer.committed
  start_le_readAt : z.start.toNat ≤ p.engine.readAt.toNat
  readAt_le : p.engine.readAt.toNat ≤ z.limit

variable {cfg : Config} {z : Zone} {m n : Nat} {p q : Pipeline} {t : List Exchange} {k : Tick}

theorem tracks_loaded (z : Zone) (maxAttempts : UInt8) {buffer : BlockRing}
    (h : buffer.WellFormed) (hempty : buffer.isEmpty = true) :
    Tracks z 0 0 ⟨.loaded z maxAttempts, buffer⟩ where
  ring := h
  steady := Engine.steady_loaded z maxAttempts
  le := le_refl 0
  receive_eq := by
    obtain ⟨hcommitted, hfill⟩ := BlockRing.isEmpty_iff.1 hempty
    have hzero := z.windowStart_zero
    rw [Zone.windowStart] at hzero
    rw [hcommitted, hfill]
    exact hzero.symm
  queued hpos := by
    obtain ⟨hcommitted, -⟩ := BlockRing.isEmpty_iff.1 hempty
    exact absurd hcommitted hpos.ne'
  pending hpos := by
    obtain ⟨-, hfill⟩ := BlockRing.isEmpty_iff.1 hempty
    exact absurd hfill hpos.ne'
  attended hstage := absurd rfl hstage
  start_le_readAt := le_refl _
  readAt_le := by
    change z.start.toNat ≤ z.limit
    rw [Zone.limit]
    omega

/-- A tick finds a window to work on, or does nothing. -/
theorem Ticks.attended_or (h : Ticks cfg p t k q) : p.Attended ∨ t = [] ∧ k = .idle ∧ q = p := by
  cases h with
  | resting stage empty => exact .inr ⟨rfl, rfl, rfl⟩
  | abandoned attended _ => exact .inl attended
  | unanswered attended _ _ => exact .inl attended
  | busy attended _ _ => exact .inl attended
  | worked attended _ _ _ => exact .inl attended

theorem Tracks.committed_pos (h : p.Tracks z m n) (hattended : p.Attended) :
    0 < p.buffer.committed := by
  rcases hattended with hstage | hhead
  · exact h.attended hstage
  · exact BlockRing.head?_ne_none_iff.1 hhead

/-- The window that is worked on is not empty. -/
theorem Tracks.window_lt (h : p.Tracks z m n) (hpos : 0 < p.buffer.committed) :
    z.start.toNat + 4096 * m < z.stop.toNat := by
  have hle := h.le
  have hqueued := h.queued hpos
  omega

/-- A tick moves the window cursor or not, and the buffer with it or not. -/
theorem Ticks.tracks (h : Ticks cfg p t k q) (hp : p.Tracks z m n) :
    q.Tracks z (m + k.passed) (n + k.released) := by
  rcases h.attended_or with hattended | ⟨-, rfl, rfl⟩
  swap
  · exact hp
  have hleaves := h.leaves
  have hpos := hp.committed_pos hattended
  have hring := hp.ring
  have hsteady := h.steady hp.steady
  have hle := hp.le
  have hpassed := k.passed_le_released
  have hreceive := hp.receive_eq
  have hqueued := hp.queued hpos
  have hpending := hp.pending
  have hbuffer := hleaves.buffer_eq
  by_cases hk : k.released = 1
  · rw [if_pos hk] at hbuffer
    have hcommitted : q.buffer.committed + 1 = p.buffer.committed := by
      rw [hbuffer, BlockRing.committed_pop]
      omega
    have hfill : q.buffer.fill = p.buffer.fill := by rw [hbuffer, BlockRing.fill_pop]
    rw [← hcommitted] at hreceive hqueued hpending
    rw [← hfill] at hreceive hpending
    refine ⟨hbuffer ▸ hring.pop, hsteady, by omega, ?_, ?_, ?_, ?_, ?_, ?_⟩
    · rw [hleaves.receiveAt_eq, hreceive, hk]
      congr 2
      omega
    · intro _
      omega
    · intro hq
      have hq' := hpending hq
      omega
    · intro hstage
      exact absurd (hleaves.rests hk) hstage
    · rw [hleaves.readAt_eq]
      exact hp.start_le_readAt
    · rw [hleaves.readAt_eq]
      exact hp.readAt_le
  · rw [if_neg hk] at hbuffer
    have hzero : k.released = 0 := by
      cases k <;> simp_all [Tick.released]
    rw [← hbuffer] at hreceive hqueued hpending hring hpos
    refine ⟨hring, hsteady, by omega, ?_, ?_, ?_, ?_, ?_, ?_⟩
    · rw [hleaves.receiveAt_eq, hreceive, hzero, Nat.add_zero]
    · intro _
      rw [hzero]
      exact hqueued
    · rw [hzero]
      exact hpending
    · intro _
      exact hpos
    · rw [hleaves.readAt_eq]
      exact hp.start_le_readAt
    · rw [hleaves.readAt_eq]
      exact hp.readAt_le

end Pipeline

namespace Session

variable {cfg : Config} {z : Zone} {m n : Nat} {s : Session}

/-! Bytes from the host. -/

theorem fill_pos_committed_lt (h : s.buffer.WellFormed) (hfill : s.buffer.fill ≠ 0) :
    s.buffer.committed < 2 := by
  have hle := h.committed_le
  have hzero := h.fill_eq_zero
  omega

theorem commitTail_of_fill_eq_zero (h : s.buffer.fill = 0) : s.commitTail = s := if_pos h

theorem commitTail_of_fill_ne_zero (h : s.buffer.WellFormed) (hfill : s.buffer.fill ≠ 0) :
    s.commitTail = { s with buffer := s.buffer.close, engine := s.engine.skipPadding } := by
  have hcommit := BlockRing.commit_eq_some_iff.2 ⟨fill_pos_committed_lt h hfill, rfl⟩
  rw [commitTail, if_neg hfill, hcommit]

theorem tracks_received (h : s.Tracks z m n) {bytes : Bytes} (hbytes : bytes ≠ [])
    {receiveAt : Address} {buffer : BlockRing} (hinside : receiveAt.toNat ≤ s.engine.zoneEnd.toNat)
    (hreceive : receiveAt.toNat = s.engine.receiveAt.toNat + bytes.length)
    (happend : s.buffer.append bytes = some buffer) :
    (s.received buffer receiveAt).Tracks z m n := by
  have hring := (h.ring.append happend).1
  have hfields := h.ring.append_fields happend
  have hlength := List.length_pos_iff.2 hbytes
  have hold := h.receive_eq
  have hle := hring.committed_le
  have hlt := hring.fill_lt
  have hmono := h.ring.committed_le_append happend
  rw [h.steady.zoneEnd_eq] at hinside
  have hend : receiveAt.toNat =
      z.start.toNat + 4096 * (n + buffer.committed) + buffer.fill := by
    rw [Zone.limit] at hold
    rw [blockSize] at hfields
    omega
  refine ⟨hring, ?_, h.le, ?_, ?_, ?_, ?_, h.start_le_readAt, h.readAt_le⟩
  · exact h.steady.withReceiveAt receiveAt
  · change receiveAt.toNat = min (z.start.toNat + 4096 * (n + buffer.committed) + buffer.fill) _
    rw [Zone.limit]
    omega
  · intro hpos
    change 0 < buffer.committed at hpos
    change z.start.toNat + 4096 * (n + buffer.committed - 1) < _
    omega
  · intro _
    change z.start.toNat + 4096 * (n + buffer.committed) + buffer.fill ≤ _
    omega
  · intro hstage
    have hpos := h.attended hstage
    change 0 < buffer.committed
    omega

/-- Closing a block under way moves the receiving cursor to the next window. -/
theorem tracks_commitTail (h : s.Tracks z m n) : s.commitTail.Tracks z m n := by
  by_cases hfill : s.buffer.fill = 0
  · rw [commitTail_of_fill_eq_zero hfill]
    exact h
  rw [commitTail_of_fill_ne_zero h.ring hfill]
  have hcommitted := fill_pos_committed_lt h.ring hfill
  have hlt := h.ring.fill_lt
  have hpending := h.pending (Nat.pos_of_ne_zero hfill)
  have hold := h.receive_eq
  have hreceive : s.engine.skipPadding.receiveAt.toNat =
      min (z.start.toNat + 4096 * (n + (s.buffer.committed + 1))) z.limit := by
    rw [Zone.limit] at hold ⊢
    have hstart : s.engine.zoneStart.toNat ≤ s.engine.receiveAt.toNat := by
      rw [h.steady.zoneStart_eq]
      omega
    have hend : s.engine.receiveAt.toNat ≤ s.engine.zoneEnd.toNat := by
      rw [h.steady.zoneEnd_eq]
      omega
    change s.engine.paddedReceive.toNat = _
    rw [Engine.toNat_paddedReceive hstart hend, h.steady.zoneStart_eq, h.steady.zoneEnd_eq]
    rw [blockSize] at hlt
    omega
  refine ⟨h.ring.toLaid.close hcommitted, ?_, h.le, ?_, ?_, ?_, ?_, h.start_le_readAt, h.readAt_le⟩
  · exact h.steady.skipPadding
  · rw [BlockRing.committed_close, BlockRing.fill_close, Nat.add_zero]
    exact hreceive
  · intro _
    rw [BlockRing.committed_close]
    omega
  · intro hpos
    rw [BlockRing.fill_close] at hpos
    exact absurd hpos (lt_irrefl 0)
  · intro _
    rw [BlockRing.committed_close]
    omega

theorem tracks_commitImageTail (h : s.Tracks z m n) : s.commitImageTail.Tracks z m n :=
  commitImageTail_of (P := fun s => s.Tracks z m n) (tracks_commitTail h) h

theorem tracks_closedIfShort (h : s.Tracks z m n) (length : Nat) :
    (s.closedIfShort cfg length).Tracks z m n :=
  closedIfShort_of (P := fun s => s.Tracks z m n) (tracks_commitTail h) h length

/-! Everything else that a session does. -/

def Operation.IsUpload : Operation → Prop
  | .upload _ _ => True
  | _ => False

/-- Closing the block under way only moves the receiving cursor of the engine. -/
theorem engine_commitTail (s : Session) :
    ∃ receiveAt, s.commitTail.engine = { s.engine with receiveAt := receiveAt } := by
  rw [commitTail]
  split
  · exact ⟨_, rfl⟩
  · split <;> exact ⟨_, rfl⟩

theorem engine_commitImageTail (s : Session) :
    ∃ receiveAt, s.commitImageTail.engine = { s.engine with receiveAt := receiveAt } :=
  commitImageTail_of (P := fun s' => ∃ receiveAt, s'.engine = { s.engine with
    receiveAt := receiveAt }) s.engine_commitTail ⟨_, rfl⟩

theorem engine_closedIfShort (cfg : Config) (s : Session) (length : Nat) :
    ∃ receiveAt, (s.closedIfShort cfg length).engine = { s.engine with receiveAt := receiveAt } :=
  closedIfShort_of (P := fun s' => ∃ receiveAt, s'.engine = { s.engine with
    receiveAt := receiveAt }) s.engine_commitTail ⟨_, rfl⟩ length

/-! Closing the block under way changes the pipeline only, and looks at no more than that and
whether the image is complete. -/

theorem commitTail_frame (s : Session) : s.commitTail = s.withPipeline s.commitTail.toPipeline := by
  rw [commitTail]
  split
  · rfl
  · split <;> rfl

theorem commitImageTail_frame (s : Session) :
    s.commitImageTail = s.withPipeline s.commitImageTail.toPipeline :=
  commitImageTail_of (P := fun s' => s' = s.withPipeline s'.toPipeline) s.commitTail_frame rfl

theorem closedIfShort_frame (cfg : Config) (s : Session) (length : Nat) :
    s.closedIfShort cfg length = s.withPipeline (s.closedIfShort cfg length).toPipeline :=
  closedIfShort_of (P := fun s' => s' = s.withPipeline s'.toPipeline) s.commitTail_frame rfl length

theorem commitImageTail_fields (s : Session) :
    s.commitImageTail.alt = s.alt ∧ s.commitImageTail.state = s.state ∧
      s.commitImageTail.endOfImage = s.endOfImage := by
  rw [s.commitImageTail_frame]
  exact ⟨rfl, rfl, rfl⟩

theorem closedIfShort_fields (s : Session) (length : Nat) :
    (s.closedIfShort cfg length).alt = s.alt ∧
      (s.closedIfShort cfg length).endOfImage = s.endOfImage := by
  rw [closedIfShort_frame]
  exact ⟨rfl, rfl⟩

theorem commitTail_congr {r s : Session} (pipeline : r.toPipeline = s.toPipeline) :
    r.commitTail = r.withPipeline s.commitTail.toPipeline := by
  have buffer : r.buffer = s.buffer := congrArg Pipeline.buffer pipeline
  have engine : r.engine = s.engine := congrArg Pipeline.engine pipeline
  have idle : r = r.withPipeline s.toPipeline := by rw [← pipeline]; rfl
  rw [commitTail, commitTail, buffer, engine]
  split
  · exact idle
  · cases s.buffer.commit with
    | none => exact idle
    | some _ =>
        rw [withPipeline, ← pipeline]

theorem commitImageTail_congr {r s : Session} (pipeline : r.toPipeline = s.toPipeline)
    (endOfImage : r.endOfImage = s.endOfImage) :
    r.commitImageTail = r.withPipeline s.commitImageTail.toPipeline := by
  rw [commitImageTail, commitImageTail, endOfImage]
  split
  · exact commitTail_congr pipeline
  · rw [← pipeline]
    rfl

/-- The ticks skipped so far do not matter to the block under way. -/
theorem commitImageTail_skipped (s : Session) (skipped : UInt8) :
    { s with skipped := skipped }.commitImageTail.toPipeline = s.commitImageTail.toPipeline := by
  rw [commitImageTail_congr (r := { s with skipped := skipped }) (s := s) rfl rfl]
  rfl

variable {s' : Session} {t : List Exchange} {k : Tick} {limit : Nat}

theorem Downloads.frame {bytes : Bytes} {x : Except SessionError Unit}
    (h : Downloads cfg s bytes x s') :
    s' = { s with
      toPipeline := s'.toPipeline
      state := s'.state
      status := s'.status
      endOfImage := s'.endOfImage } := by
  cases h with
  | @taken _ receiveAt buffer _ _ _ =>
      rw [closedIfShort_frame cfg (s.received buffer receiveAt) bytes.length]
      rfl
  | ended _ | overflowed _ _ | crowded _ _ _ => rfl

theorem Steps.frame (h : Steps cfg s t k s') : s' = s.withPipeline s'.toPipeline := by
  cases h with
  | step ticks =>
      rw [commitImageTail_frame s]
      rfl

theorem Steps.fields (h : Steps cfg s t k s') :
    s'.alt = s.alt ∧ s'.state = s.state ∧ s'.endOfImage = s.endOfImage := by
  rw [h.frame]
  exact ⟨rfl, rfl, rfl⟩

theorem Steps.tracks (h : Steps cfg s t k s') (hs : s.Tracks z m n) :
    s'.Tracks z (m + k.passed) (n + k.released) := by
  cases h with
  | step ticks => exact ticks.tracks (tracks_commitImageTail hs)

/-- What a step preserves, draining preserves; in the end the buffer is empty. -/
theorem Drains.preserves {P : Session → Prop} {s' : Session}
    (hstep : ∀ {s s' t k}, Steps cfg s t k s' → P s → P s') {r : Option Session}
    (h : Drains cfg limit s t r) (hs : P s) (hr : r = some s') :
    P s' ∧ s'.buffer.isEmpty = true := by
  induction h with
  | empty limit empty =>
      cases hr
      exact ⟨hs, empty⟩
  | exhausted queued => cases hr
  | step queued steps rest ih => exact ih (hstep steps hs) hr

/-! The exchanges of an operation other than an upload are those of its steps. -/

theorem Drains.trace {I : Session → Prop} {P : List Exchange → Prop} {r : Option Session}
    (h : Drains cfg limit s t r) (hs : I s) (nil : P [])
    (append : ∀ {t t'}, P t → P t' → P (t ++ t'))
    (step : ∀ {s s' t k}, Steps cfg s t k s' → I s → P t ∧ I s') : P t := by
  induction h with
  | empty limit empty => exact nil
  | exhausted queued => exact nil
  | step queued steps rest ih =>
      obtain ⟨ht, hs'⟩ := step steps hs
      exact append ht (ih hs')

/-- What holds of the exchanges of every step, and of a reboot, holds of those of every
operation other than an upload. -/
theorem Performs.trace {I : Session → Prop} {P : List Exchange → Prop} {op : Operation}
    {r : Option (Answer × Session)} (h : Performs cfg limit s op t r) (hs : I s)
    (hop : ¬op.IsUpload) (nil : P []) (reboot : P [⟨.reboot, ()⟩])
    (append : ∀ {t t'}, P t → P t' → P (t ++ t'))
    (same : ∀ s s' : Session, s'.toPipeline = s.toPipeline → s'.alt = s.alt → I s → I s')
    (step : ∀ {s s' t k}, Steps cfg s t k s' → I s → P t ∧ I s') : P t := by
  have idle : I { s with state := .idle } := same s _ rfl rfl hs
  have unskipped : I { s with skipped := 0 } := same s _ rfl rfl hs
  have report {r : Option (StatusReport × Session)} (h : Reports cfg limit s t r) : P t := by
    cases h with
    | drained state policy drains => exact drains.trace idle nil append step
    | waiting state policy drains => exact drains.trace idle nil append step
    | ready _ _ | crowded _ _ | finished _ _ _ | manifesting _ _ _ | other _ _ => exact nil
  cases h with
  | upload uploads => exact (hop trivial).elim
  | reported reports => exact report reports
  | unreported reports => exact report reports
  | reset state => exact reboot
  | detached pending => exact reboot
  | ticked due steps => exact (step steps unskipped).1
  | configured _ _ | unconfigured | selected _ | unselected _ | allowed _ _ | refused _ | fail _
  | detach | download _ | clearStatus | getState | abort | unreset _ | polled _ | throttled _ =>
      exact nil

theorem tracks_uploaded (h : s.Tracks z m n) {room : Nat} (hlength : s.uploadLength room ≠ 0) :
    Pipeline.Tracks z m n ⟨{ s.engine with
      readAt := s.engine.readAt + UInt32.ofNat (s.uploadLength room) }, s.buffer⟩ := by
  have hle : s.uploadLength room ≤ z.stop.toNat - s.engine.readAt.toNat := by
    rw [uploadLength, Address.toNat_subSat, h.steady.zoneEnd_eq]
    omega
  have hstop := Address.toNat_lt z.stop
  have hread : (s.engine.readAt + UInt32.ofNat (s.uploadLength room)).toNat =
      s.engine.readAt.toNat + s.uploadLength room := Address.toNat_add_ofNat (by omega)
  have hstart := h.start_le_readAt
  refine ⟨h.ring, ?_, h.le, h.receive_eq, h.queued, h.pending, h.attended, ?_, ?_⟩
  · exact h.steady.withReadAt _
  · change z.start.toNat ≤ (s.engine.readAt + UInt32.ofNat (s.uploadLength room)).toNat
    omega
  · change (s.engine.readAt + UInt32.ofNat (s.uploadLength room)).toNat ≤ z.limit
    rw [Zone.limit]
    omega

end Session

end DfuLoader
