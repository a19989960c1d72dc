import DfuLoader.Proofs.Classification
import DfuLoader.Proofs.Reachable
import DfuLoader.Proofs.Storage

/-!
# Integrity of an image

What the host has sent is one string of bytes: the blocks that were committed, those
that wait in the buffer, and the block under way. A download appends to it, closing a
block pads it, a tick only moves its split between chip and buffer, and the chip keeps
what was committed because later commands do not reach back (`Intact`). So when the
buffer has run empty, the chip stores the string (`image_stored`), however badly the
chip worked in between.
-/

namespace DfuLoader

/-- Bytes from the host, with the address that the first of them belongs to. -/
structure Chunk where
  start : Nat
  bytes : Bytes

def Chunk.Covers (c : Chunk) (x : Nat) : Prop := c.start ≤ x ∧ x < c.start + c.bytes.length

/-- A string that lies from an address on holds the chunks of a log, each at its own
address, and is blank elsewhere. -/
structure Holds (start : Nat) (log : List Chunk) (image : Bytes) : Prop where
  placed : ∀ c ∈ log, ∃ before after,
    image = before ++ c.bytes ++ after ∧ c.start = start + before.length
  blank : ∀ i byte, image[i]? = some byte → (∀ c ∈ log, ¬c.Covers (start + i)) →
    byte = erasedByte

namespace Holds

variable {start : Nat} {log : List Chunk} {image : Bytes}

theorem nil (start : Nat) : Holds start [] [] where
  placed c hc := by cases hc
  blank i byte h := by cases h

theorem append (h : Holds start log image) (bytes : Bytes) :
    Holds start (log ++ [⟨start + image.length, bytes⟩]) (image ++ bytes) where
  placed c hc := by
    rcases List.mem_append.1 hc with hc | hc
    · obtain ⟨before, after, himage, hstart⟩ := h.placed c hc
      exact ⟨before, after ++ bytes, by rw [himage, List.append_assoc], hstart⟩
    · rw [List.mem_singleton] at hc
      exact ⟨image, [], by rw [hc, List.append_nil], by rw [hc]⟩
  blank i byte hi hfree := by
    by_cases hlt : i < image.length
    · rw [List.getElem?_append_left hlt] at hi
      exact h.blank i byte hi fun c hc => hfree c (List.mem_append_left _ hc)
    · have hbound := (List.getElem?_eq_some_iff.1 hi).1
      rw [List.length_append] at hbound
      refine absurd ?_ (hfree _ (List.mem_append_right _ (List.mem_singleton_self _)))
      change start + image.length ≤ start + i ∧ start + i < start + image.length + bytes.length
      omega

theorem pad (h : Holds start log image) (count : Nat) :
    Holds start log (image ++ List.replicate count erasedByte) where
  placed c hc := by
    obtain ⟨before, after, himage, hstart⟩ := h.placed c hc
    exact ⟨before, after ++ List.replicate count erasedByte, by rw [himage, List.append_assoc],
      hstart⟩
  blank i byte hi hfree := by
    by_cases hlt : i < image.length
    · rw [List.getElem?_append_left hlt] at hi
      exact h.blank i byte hi hfree
    · rw [List.getElem?_append_right (not_lt.1 hlt)] at hi
      exact (List.mem_replicate.1 (List.mem_of_getElem? hi)).2

end Holds

namespace Pipeline

variable {cfg : Config} {z : Zone} {m n x : Nat} {p q : Pipeline} {t : List Exchange} {k : Tick}
  {f f' : Flash} {chip : Chip}

/-! A tick on a flash. -/

theorem Ticks.cells_eq (h : Ticks cfg p t k q) (hp : p.Tracks z m n)
    (haligned : z.start.toNat % 4096 = 0) (hrun : f.Run t f') (hx : x < z.windowStart m) :
    f'.cells chip x = f.cells chip x := by
  rcases h.attended_or with hattended | ⟨rfl, -, -⟩
  swap
  · cases hrun
    rfl
  have hwindow := Zone.windowStart_eq (hp.window_lt (hp.committed_pos hattended))
  apply hrun.cells_eq
  intro e he hchanges
  rcases h.le_of_changes hp.steady he hchanges with hle | ⟨hle, -⟩ <;> omega

/-- When a window is committed, the chip of the zone stores its block. -/
theorem Ticks.stored_of_committed (h : Ticks cfg p t .committed q) (hp : p.engine.Steady z m)
    (hrun : f.Run t f') :
    ∃ block, p.buffer.head? = some block ∧
      f'.stored z.chip (z.windowStart m)
        (block.take (z.windowStart (m + 1) - z.windowStart m)).length =
          block.take (z.windowStart (m + 1) - z.windowStart m) := by
  obtain ⟨hopened, hstage⟩ := steady_opened hp
  cases h with
  | worked attended left ready works =>
      obtain ⟨block, outcome, hhead, herase, hprogram, rfl⟩ :=
        works.compared_of_committed hopened hstage
      have hend := hopened.windowAt_add_length hstage
      rw [hopened.windowAt_eq] at hend
      have hlength : p.opened.engine.length = z.windowStart (m + 1) - z.windowStart m := by omega
      have hfit : p.opened.engine.windowAt.toNat +
          (block.take p.opened.engine.length).length < 2 ^ 32 := by
        have hnext := z.windowStart_le_limit (m + 1)
        have hlimit := z.limit_lt
        rw [hopened.windowAt_eq, List.length_take]
        omega
      refine ⟨block, buffer_opened p ▸ hhead, ?_⟩
      rw [greeting, List.cons_append, List.cons_append, List.nil_append] at hrun
      cases hrun with
      | cons hselect hrun =>
      cases hselect
      cases hrun with
      | cons hstatus hrun =>
      cases hstatus
      cases hrun with
      | cons hverify hrun =>
      cases hrun
      obtain ⟨rfl, houtcome⟩ := hverify.classify hfit
      rw [houtcome] at herase hprogram
      have hequal := eq_of_classify (by rw [Flash.length_stored]) herase hprogram
      rw [hopened.chip_eq, hopened.windowAt_eq, hlength] at hequal
      exact hequal.symm

/-! The string of bytes, part of which the chip stores. -/

/-- The first `n` windows were committed and hold `done`, and `done` with what the buffer
holds is the image that the host has sent. -/
structure Intact (z : Zone) (log : List Chunk) (n : Nat) (done : Bytes) (p : Pipeline)
    (f : Flash) : Prop where
  tracks : p.Tracks z n n
  length_eq : done.length = 4096 * n
  kept : ∀ i byte, done[i]? = some byte → z.start.toNat + i < z.stop.toNat →
    f.cells z.chip (z.start.toNat + i) = byte
  holds : Holds z.start.toNat log (done ++ p.buffer.content)
  inside : ∀ c ∈ log, c.start + c.bytes.length ≤ z.stop.toNat

variable {log : List Chunk} {done : Bytes}

theorem intact_loaded (z : Zone) (maxAttempts : UInt8) (f : Flash) {buffer : BlockRing}
    (h : buffer.WellFormed) : Intact z [] 0 [] ⟨.loaded z maxAttempts, buffer.clear⟩ f where
  tracks := tracks_loaded z maxAttempts h.clear buffer.isEmpty_clear
  length_eq := rfl
  kept i byte hi := by cases hi
  holds := Holds.nil _
  inside c hc := by cases hc

theorem Intact.append_nil (h : Intact z log n done p f) : Intact z (log ++ []) n done p f := by
  rwa [List.append_nil]

theorem Intact.flash (h : Intact z log n done p f)
    (hcells : ∀ i, i < 4096 * n → z.start.toNat + i < z.stop.toNat →
      f'.cells z.chip (z.start.toNat + i) = f.cells z.chip (z.start.toNat + i)) :
    Intact z log n done p f' where
  tracks := h.tracks
  length_eq := h.length_eq
  kept i byte hi hstop := by
    have hlt := (List.getElem?_eq_some_iff.1 hi).1
    rw [h.length_eq] at hlt
    rw [hcells i hlt hstop]
    exact h.kept i byte hi hstop
  holds := h.holds
  inside := h.inside

/-- A chip that stores the committed windows, and the part of the next block that its
window has room for, stores them as one string. -/
theorem kept_append {block : Bytes} (hlength : done.length = 4096 * n)
    (hblock : block.length = 4096) (hwindow : z.windowStart n = z.start.toNat + 4096 * n)
    (hkept : ∀ i byte, done[i]? = some byte → z.start.toNat + i < z.stop.toNat →
      f.cells z.chip (z.start.toNat + i) = byte)
    (hstored : f.stored z.chip (z.windowStart n)
        (block.take (z.windowStart (n + 1) - z.windowStart n)).length =
      block.take (z.windowStart (n + 1) - z.windowStart n)) :
    ∀ i byte, (done ++ block)[i]? = some byte → z.start.toNat + i < z.stop.toNat →
      f.cells z.chip (z.start.toNat + i) = byte := by
  intro i byte hi hstop
  by_cases hold : i < done.length
  · rw [List.getElem?_append_left hold] at hi
    exact hkept i byte hi hstop
  · rw [List.getElem?_append_right (not_lt.1 hold), hlength] at hi
    have hbound := (List.getElem?_eq_some_iff.1 hi).1
    -- the byte lies in the zone, so it is not in the part that was cut off
    have hnext : i - 4096 * n < z.windowStart (n + 1) - z.windowStart n := by
      rw [z.windowStart_succ, hwindow]
      omega
    have hbyte := List.getElem?_take_of_lt hnext ▸ hi
    have hsize := (List.getElem?_eq_some_iff.1 hbyte).1
    have hcell := Flash.getElem?_stored f z.chip (z.windowStart n) hsize
    have haddress : z.windowStart n + (i - 4096 * n) = z.start.toNat + i := by omega
    rw [hstored, hbyte, haddress, Option.some.injEq] at hcell
    exact hcell.symm

/-- A commit moves the first block of the buffer to the chip. -/
theorem Ticks.intact_of_committed (h : Ticks cfg p t .committed q) (hp : Intact z log n done p f)
    (hrun : f.Run t f') (hflash : Intact z log n done p f') :
    ∃ n done, Intact z log n done q f' := by
  obtain ⟨block, hhead, hstored⟩ := h.stored_of_committed hp.tracks.steady hrun
  have hring := hp.tracks.ring
  obtain ⟨hpos, rfl⟩ := hring.head?_eq_some hhead
  have hcontent := hring.content_length
  have hpop : q.buffer.content = p.buffer.content.drop blockSize := by
    rw [h.leaves.buffer_eq]
    exact hring.content_pop hpos
  have hblock : (p.buffer.content.take blockSize).length = 4096 := by
    rw [List.length_take, hcontent, blockSize]
    omega
  have hwindow := Zone.windowStart_eq (hp.tracks.window_lt hpos)
  refine ⟨n + 1, done ++ p.buffer.content.take blockSize, h.tracks hp.tracks, ?_, ?_, ?_,
    hp.inside⟩
  · rw [List.length_append, hp.length_eq, hblock]
    omega
  · exact kept_append hp.length_eq hblock hwindow hflash.kept hstored
  · rw [hpop, List.append_assoc, List.take_append_drop]
    exact hp.holds

/-- A tick that gives nothing up keeps the image. -/
theorem Ticks.intact (h : Ticks cfg p t k q) (hp : Intact z log n done p f)
    (haligned : z.start.toNat % 4096 = 0) (hrun : f.Run t f') (hkept : ⟨.reboot, ()⟩ ∉ t) :
    ∃ n done, Intact z log n done q f' := by
  have hkeep : k ≠ .abandoned := fun hk => hkept ((h.reboot_mem_iff hp.tracks.steady).2 hk)
  have hflash : Intact z log n done p f' := by
    apply hp.flash
    intro i hi hstop
    apply h.cells_eq hp.tracks haligned hrun
    rw [Zone.windowStart, Zone.limit]
    omega
  by_cases hk : k = .committed
  · subst hk
    exact h.intact_of_committed hp hrun hflash
  · -- nothing moves between the buffer and the chip
    have hpassed : k.passed = 0 := by cases k <;> simp_all [Tick.passed]
    have hreleased : k.released = 0 := by cases k <;> simp_all [Tick.released]
    have htracks := h.tracks hp.tracks
    rw [hpassed, hreleased, Nat.add_zero] at htracks
    have hbuffer : q.buffer = p.buffer := by
      rw [h.leaves.buffer_eq, hreleased]
      rfl
    exact ⟨n, done, htracks, hflash.length_eq, hflash.kept, by rw [hbuffer]; exact hflash.holds,
      hflash.inside⟩

end Pipeline

namespace Session

open Dialogue

variable {cfg : Config} {z : Zone} {log : List Chunk} {n limit : Nat} {done : Bytes}
  {s s' : Session} {t : List Exchange} {k : Tick} {f f' : Flash}

theorem intact_received (h : s.Intact z log n done f) {bytes : Bytes} (hbytes : bytes ≠ [])
    {receiveAt : Address} {buffer : BlockRing} (hinside : receiveAt.toNat ≤ s.engine.zoneEnd.toNat)
    (hreceive : receiveAt.toNat = s.engine.receiveAt.toNat + bytes.length)
    (happend : s.buffer.append bytes = some buffer) :
    (s.received buffer receiveAt).Intact z (log ++ [⟨s.engine.receiveAt.toNat, bytes⟩])
      n done f := by
  have htracks := h.tracks
  have hcontent := (htracks.ring.append happend).2
  have hcount := htracks.ring.content_length
  have hlength := List.length_pos_iff.2 hbytes
  have hcursor := htracks.receive_eq
  have hzoneEnd := htracks.steady.zoneEnd_eq
  have hstart : s.engine.receiveAt.toNat =
      z.start.toNat + (done ++ s.buffer.content).length := by
    rw [hzoneEnd] at hinside
    rw [Zone.limit] at hcursor
    rw [List.length_append, h.length_eq, hcount, blockSize]
    omega
  refine ⟨tracks_received htracks hbytes hinside hreceive happend, h.length_eq, h.kept, ?_, ?_⟩
  · change Holds _ _ (done ++ buffer.content)
    rw [hcontent, ← List.append_assoc, hstart]
    exact h.holds.append bytes
  · intro c hc
    rcases List.mem_append.1 hc with hc | hc
    · exact h.inside c hc
    · rw [List.mem_singleton] at hc
      rw [hc, ← hreceive, ← hzoneEnd]
      exact hinside

theorem intact_commitTail (h : s.Intact z log n done f) : s.commitTail.Intact z log n done f := by
  have htracks := tracks_commitTail h.tracks
  by_cases hfill : s.buffer.fill = 0
  · rw [commitTail_of_fill_eq_zero hfill]
    exact h
  have hring := h.tracks.ring
  rw [commitTail_of_fill_ne_zero hring hfill] at htracks ⊢
  refine ⟨htracks, h.length_eq, h.kept, ?_, h.inside⟩
  change Holds _ _ (done ++ s.buffer.close.content)
  rw [hring.toLaid.content_close (fill_pos_committed_lt hring hfill), ← List.append_assoc]
  exact h.holds.pad _

theorem intact_commitImageTail (h : s.Intact z log n done f) :
    s.commitImageTail.Intact z log n done f :=
  commitImageTail_of (P := fun s => s.Intact z log n done f) (intact_commitTail h) h

theorem intact_closedIfShort (h : s.Intact z log n done f) (length : Nat) :
    (s.closedIfShort cfg length).Intact z log n done f :=
  closedIfShort_of (P := fun s => s.Intact z log n done f) (intact_commitTail h) h length

theorem Steps.intact (h : Steps cfg s t k s') (hs : s.Intact z log n done f)
    (haligned : z.start.toNat % 4096 = 0) (hrun : f.Run t f') (hkept : ⟨.reboot, ()⟩ ∉ t) :
    ∃ n done, s'.Intact z log n done f' := by
  cases h with
  | step ticks => exact ticks.intact (intact_commitImageTail hs) haligned hrun hkept

theorem Drains.intact {r : Option Session} (h : Drains cfg limit s t r)
    (hs : s.Intact z log n done f) (haligned : z.start.toNat % 4096 = 0) (hrun : f.Run t f')
    (hkept : ⟨.reboot, ()⟩ ∉ t) (hr : r = some s') :
    s'.buffer.isEmpty = true ∧ ∃ n done, s'.Intact z log n done f' := by
  induction h generalizing f n done with
  | empty limit empty =>
      cases hr
      cases hrun
      exact ⟨empty, n, done, hs⟩
  | exhausted queued => cases hr
  | step queued steps rest ih =>
      obtain ⟨f₁, hrun₁, hrun₂⟩ := Flash.run_append.1 hrun
      obtain ⟨n₁, done₁, hs₁⟩ :=
        steps.intact hs haligned hrun₁ fun hmem => hkept (List.mem_append_left _ hmem)
      exact ih hs₁ hrun₂ (fun hmem => hkept (List.mem_append_right _ hmem)) hr

/-- The operations of a host that has chosen its zone, and the ticks in between. -/
def Operation.Ordinary : Operation → Prop
  | .configured | .selectAlt _ | .busReset | .poll => False
  | _ => True

def accepted (s : Session) : Operation → Answer → List Chunk
  | .download bytes, .downloaded (.ok ()) =>
      if bytes.isEmpty then [] else [⟨s.engine.receiveAt.toNat, bytes⟩]
  | _, _ => []

/-- A status request has found the image written. -/
def Completes (s : Session) (op : Operation) (a : Answer) : Prop :=
  op = .getStatus ∧ s.state = .manifestSync ∧ ∃ report, a = .reported report ∧ report.state = .idle

/-- The sessions that ordinary operations lead to after a zone was selected, with what a
flash stores by then and the chunks that were taken in. No window was given up, which
would be a reboot, and no status request has found the image written yet. -/
inductive Receives (cfg : Config) (zone : Zone) : Session → Flash → List Chunk → Prop
  | selected {s s' : Session} {alt : UInt8} (reachable : Reachable cfg s)
      (known : cfg.zones.get? alt = some zone) (select : s.selectAlt cfg alt = some s')
      (f : Flash) : Receives cfg zone s' f []
  | perform {s s' : Session} {f f' : Flash} {log : List Chunk} {limit : Nat} {op : Operation}
      {t : List Exchange} {a : Answer} (receives : Receives cfg zone s f log)
      (ordinary : op.Ordinary) (ends : Ends (s.perform cfg limit op) t (some (a, s')))
      (run : f.Run t f') (kept : ⟨.reboot, ()⟩ ∉ t) (incomplete : ¬s.Completes op a) :
      Receives cfg zone s' f' (log ++ s.accepted op a)

theorem Downloads.intact {bytes : Bytes} {x : Except SessionError Unit}
    (h : Downloads cfg s bytes x s') (hs : s.Intact z log n done f) :
    s'.Intact z (log ++ s.accepted (.download bytes) (.downloaded x)) n done f := by
  cases h with
  | ended none_left =>
      rw [none_left]
      exact hs.append_nil
  | overflowed some_left past => exact hs.append_nil
  | crowded some_left inside full => exact hs.append_nil
  | taken some_left inside receiveAt_eq append =>
      rw [accepted, if_neg (by simpa using some_left)]
      exact intact_closedIfShort (intact_received hs some_left inside receiveAt_eq append) _

theorem Uploads.intact {room requested : Nat} {x : Except SessionError Bytes}
    (h : Uploads s room requested t x s') (hs : s.Intact z log n done f) (hrun : f.Run t f') :
    s'.Intact z log n done f' := by
  have hsame : ∀ chip x, f'.cells chip x = f.cells chip x := by
    intro chip x
    apply hrun.cells_eq
    intro e he
    cases h with
    | finished none_left => cases he
    | unread some_left fault =>
        simp only [List.mem_cons, List.not_mem_nil, or_false] at he
        rcases he with rfl | rfl <;> exact id
    | read some_left bytes =>
        simp only [List.mem_cons, List.not_mem_nil, or_false] at he
        rcases he with rfl | rfl <;> exact id
  have hs' : s.Intact z log n done f' := hs.flash fun i _ _ => hsame _ _
  cases h with
  | finished none_left => exact hs'
  | unread some_left fault => exact hs'
  | read some_left bytes =>
      exact ⟨tracks_uploaded hs'.tracks some_left, hs'.length_eq, hs'.kept, hs'.holds, hs'.inside⟩

/-- A status request that does not find the image written keeps it. -/
theorem Reports.intact {report : StatusReport} (h : Reports cfg limit s t (some (report, s')))
    (hs : s.Intact z log n done f) (hrun : f.Run t f')
    (hincomplete : ¬s.Completes .getStatus (.reported report)) : s'.Intact z log n done f' := by
  cases h with
  | drained state policy drains => exact absurd ⟨rfl, state, _, rfl, rfl⟩ hincomplete
  | finished state policy empty => exact absurd ⟨rfl, state, _, rfl, rfl⟩ hincomplete
  | manifesting state policy queued =>
      cases hrun
      exact intact_commitImageTail hs
  | ready _ _ | crowded _ _ | other _ _ =>
      cases hrun
      exact hs

theorem Performs.intact {op : Operation} {a : Answer}
    (h : Performs cfg limit s op t (some (a, s'))) (hs : s.Intact z log n done f)
    (haligned : z.start.toNat % 4096 = 0) (hordinary : op.Ordinary) (hrun : f.Run t f')
    (hkept : ⟨.reboot, ()⟩ ∉ t) (hincomplete : ¬s.Completes op a) :
    ∃ n done, s'.Intact z (log ++ s.accepted op a) n done f' := by
  cases h with
  | download downloads =>
      cases hrun
      exact ⟨n, done, downloads.intact hs⟩
  | upload uploads =>
      exact ⟨n, done, (uploads.intact hs hrun).append_nil⟩
  | reported reports =>
      exact ⟨n, done, (reports.intact hs hrun hincomplete).append_nil⟩
  | ticked due steps =>
      obtain ⟨n, done, hs'⟩ := steps.intact hs haligned hrun hkept
      exact ⟨n, done, hs'.append_nil⟩
  | configured _ _ | unconfigured | selected _ | unselected _ | unreset _ | reset _ | polled _
  | detached _ => exact hordinary.elim
  | allowed _ _ | refused _ | fail _ | detach | clearStatus | getState | abort | throttled _ =>
      cases hrun
      exact ⟨n, done, hs.append_nil⟩

theorem Receives.intact (h : Receives cfg z s f log) (haligned : z.start.toNat % 4096 = 0) :
    ∃ n done, s.Intact z log n done f := by
  induction h with
  | @selected s s' alt reachable known select f =>
      have hring := reachable.located.wellFormed
      rw [selectAlt, known, Option.map_some, Option.some.injEq] at select
      subst select
      exact ⟨0, [], Pipeline.intact_loaded z cfg.maxAttempts f hring⟩
  | perform receives ordinary ends run kept incomplete ih =>
      obtain ⟨n, done, hs⟩ := ih
      exact (performs_of_ends ends).intact hs haligned ordinary run kept incomplete

theorem Reports.intact_of_completes {report : StatusReport}
    (h : Reports cfg limit s t (some (report, s'))) (hs : s.Intact z log n done f)
    (haligned : z.start.toNat % 4096 = 0) (hrun : f.Run t f') (hkept : ⟨.reboot, ()⟩ ∉ t)
    (hstate : s.state = .manifestSync) (hreport : report.state = .idle) :
    ∃ n done p, Pipeline.Intact z log n done p f' ∧ p.buffer.isEmpty = true := by
  cases h with
  | ready state free => exact absurd (hstate.symm.trans state) (by simp)
  | crowded state full => exact absurd (hstate.symm.trans state) (by simp)
  | other sync manifest => exact absurd hstate manifest
  | manifesting state policy queued => cases hreport
  | @drained _ _ _ s' drains =>
      have hidle : Session.toPipeline { s with state := .idle } |>.Intact z log n done f := hs
      obtain ⟨hempty, n', done', hs'⟩ := drains.intact hidle haligned hrun hkept rfl
      exact ⟨n', done', s'.toPipeline, hs', hempty⟩
  | finished state policy empty =>
      cases hrun
      exact ⟨n, done, s.commitImageTail.toPipeline, intact_commitImageTail hs, empty⟩

end Session

namespace Pipeline

variable {z : Zone} {log : List Chunk} {n : Nat} {done : Bytes} {p : Pipeline} {f : Flash}

theorem Intact.holds_done (h : Intact z log n done p f) (hempty : p.buffer.isEmpty = true) :
    Holds z.start.toNat log done := by
  have hcount := h.tracks.ring.content_length
  obtain ⟨hcommitted, hfill⟩ := BlockRing.isEmpty_iff.1 hempty
  rw [hcommitted, hfill, Nat.zero_mul] at hcount
  have hholds := h.holds
  rwa [List.length_eq_zero_iff.1 hcount, List.append_nil] at hholds

theorem Intact.stored (h : Intact z log n done p f) (hempty : p.buffer.isEmpty = true)
    {c : Chunk} (hc : c ∈ log) : f.stored z.chip c.start c.bytes.length = c.bytes := by
  obtain ⟨before, after, himage, hstart⟩ := (h.holds_done hempty).placed c hc
  have hinside := h.inside c hc
  apply List.ext_getElem?
  intro j
  by_cases hj : j < c.bytes.length
  · have hbyte : done[before.length + j]? = some c.bytes[j] := by
      rw [himage, List.append_assoc, List.getElem?_append_right (Nat.le_add_right _ _),
        Nat.add_sub_cancel_left, List.getElem?_append_left hj, List.getElem?_eq_getElem hj]
    have hkept := h.kept _ _ hbyte (by omega)
    rw [Flash.getElem?_stored _ _ _ hj, List.getElem?_eq_getElem hj, hstart, Nat.add_assoc, hkept]
  · rw [List.getElem?_eq_none (by rw [Flash.length_stored]; omega),
      List.getElem?_eq_none (by omega)]

/-- With nothing left in the buffer the chip is blank around the chunks, in every window
that has part of one. -/
theorem Intact.blank (h : Intact z log n done p f) (hempty : p.buffer.isEmpty = true)
    {c : Chunk} (hc : c ∈ log) {i x y : Nat} (hy : c.Covers y)
    (hyi : z.windowStart i ≤ y ∧ y < z.windowStart (i + 1))
    (hxi : z.windowStart i ≤ x ∧ x < z.windowStart (i + 1)) (hx : ∀ c ∈ log, ¬c.Covers x) :
    f.cells z.chip x = erasedByte := by
  obtain ⟨before, after, himage, hstart⟩ := (h.holds_done hempty).placed c hc
  have hlength := h.length_eq
  have hdone := congrArg List.length himage
  rw [List.length_append, List.length_append] at hdone
  have hin := Zone.windowStart_lt_succ_iff.1 (lt_of_le_of_lt hyi.1 hyi.2)
  have hwindow := Zone.windowStart_eq hin
  have hstop := Zone.windowStart_succ_le_stop hin
  have hnext := z.windowStart_succ i
  have hend : y < z.start.toNat + 4096 * n := by
    have hcover := hy.2
    omega
  have hlt : x - z.start.toNat < done.length := by omega
  have haddress : z.start.toNat + (x - z.start.toNat) = x := by omega
  have hbyte := List.getElem?_eq_getElem hlt
  have hkept := h.kept _ _ hbyte (by omega)
  rw [haddress] at hkept
  rw [hkept]
  exact (h.holds_done hempty).blank _ _ hbyte (by rw [haddress]; exact hx)

end Pipeline

namespace Session

open Dialogue

variable {cfg : Config} {zone : Zone} {log : List Chunk} {limit : Nat} {s s' : Session}
  {t : List Exchange} {f f' : Flash} {report : StatusReport}

/-- One byte for the smallest zone of the reference board, over cells that have to be
erased first: the status request finds it written. -/
theorem receives_one_byte :
    ∃ (s s' : Session) (f f' : Flash) (t : List Exchange) (report : StatusReport),
      Receives {} ⟨.cartridge, 0, 0x100, "RTC"⟩ s f [⟨0, [0x42]⟩] ∧ s.state = .manifestSync ∧
        Ends (s.perform {} 4 .getStatus) t (some (.reported report, s')) ∧
        report.state = .idle ∧ f.Run t f' ∧ ⟨.reboot, ()⟩ ∉ t := by
  let f : Flash := ⟨.internal, fun _ _ => 0⟩
  let zone : Zone := ⟨.cartridge, 0, 0x100, "RTC"⟩
  let s₁ := (initial {}).loaded {} 6 zone
  let s₂ := (s₁.download {} [0x42]).2
  let s₃ := (s₂.download {} []).2
  have hordinary (bytes : Bytes) : (Operation.download bytes).Ordinary := trivial
  have hselect : (initial {}).selectAlt {} 6 = some s₁ := rfl
  have h₁ : Receives {} zone s₁ f [] := .selected .initial rfl hselect f
  have hdownload : (s₁.download {} [0x42]).1 = .ok () := by decide +kernel
  have h₂ : Receives {} zone s₂ f [⟨0, [0x42]⟩] := by
    have hends : Ends (s₁.perform {} 0 (.download [0x42])) []
        (some (.downloaded (s₁.download {} [0x42]).1, s₂)) := .done _
    rw [hdownload] at hends
    exact .perform h₁ (hordinary _) hends (.nil f) (by simp) (by simp [Completes])
  have h₃ : Receives {} zone s₃ f [⟨0, [0x42]⟩] := by
    have hends : Ends (s₂.perform {} 0 (.download [])) []
        (some (.downloaded (.ok ()), s₃)) := .done _
    exact .perform h₂ (hordinary _) hends (.nil f) (by simp) (by simp [Completes])
  -- working chips finish the image in four ticks
  let status := s₃.getStatus {} 4
  have hreport : (status.run Flash.chips.withReadback f).1.map Prod.fst =
      some ⟨.ok, 5, .idle⟩ := by decide +kernel
  obtain ⟨⟨report, s'⟩, hvalue, rfl⟩ := Option.map_eq_some_iff.1 hreport
  have hstatus := ends_run Flash.chips.withReadback status f
  rw [hvalue] at hstatus
  have hends : Ends (s₃.perform {} 4 .getStatus) (status.trace Flash.chips.withReadback f)
      (some (.reported ⟨.ok, 5, .idle⟩, s')) :=
    ends_bind.2 ⟨_, [], _, (List.append_nil _).symm, hstatus, .done _⟩
  have hall : (status.trace Flash.chips.withReadback f).all
      (fun e => e.command != .reboot) = true := by decide +kernel
  have hkept : (⟨.reboot, ()⟩ : Exchange) ∉ status.trace Flash.chips.withReadback f := by
    intro hmem
    simpa using List.all_eq_true.1 hall _ hmem
  have hstate : s₃.state = .manifestSync := rfl
  exact ⟨s₃, s', f, _, _, _, h₃, hstate, hends, rfl, Flash.run_chips status f, hkept⟩

/-- When a status request finds the image written, the chip stores every chunk that was
taken in at its address, and the rest of the windows that have part of one is blank. -/
theorem image_stored (haligned : zone.start.toNat % 4096 = 0) (h : Receives cfg zone s f log)
    (hstate : s.state = .manifestSync)
    (hends : Ends (s.perform cfg limit .getStatus) t (some (.reported report, s')))
    (hreport : report.state = .idle) (hrun : f.Run t f') (hkept : ⟨.reboot, ()⟩ ∉ t) :
    (∀ c ∈ log, f'.stored zone.chip c.start c.bytes.length = c.bytes) ∧
      ∀ c ∈ log, ∀ i x y, c.Covers y →
        zone.windowStart i ≤ y ∧ y < zone.windowStart (i + 1) →
        zone.windowStart i ≤ x ∧ x < zone.windowStart (i + 1) →
        (∀ c ∈ log, ¬c.Covers x) → f'.cells zone.chip x = erasedByte := by
  obtain ⟨n, done, hs⟩ := h.intact haligned
  cases performs_of_ends hends with
  | reported reports =>
      obtain ⟨n, done, p, hp, hempty⟩ :=
        reports.intact_of_completes hs haligned hrun hkept hstate hreport
      refine ⟨fun c hc => hp.stored hempty hc, ?_⟩
      intro c hc i x y hy hyi hxi hx
      exact hp.blank hempty hc hy hyi hxi hx

/-- The byte is stored, and the one behind it is blank. -/
theorem image_stored_one_byte :
    ∃ (s s' : Session) (f f' : Flash) (t : List Exchange) (report : StatusReport),
      Receives {} ⟨.cartridge, 0, 0x100, "RTC"⟩ s f [⟨0, [0x42]⟩] ∧ s.state = .manifestSync ∧
        Ends (s.perform {} 4 .getStatus) t (some (.reported report, s')) ∧
        report.state = .idle ∧ f.Run t f' ∧ ⟨.reboot, ()⟩ ∉ t ∧
        f'.stored .cartridge 0 1 = [0x42] ∧ f'.cells .cartridge 1 = erasedByte := by
  obtain ⟨s, s', f, f', t, report, h, hstate, hends, hreport, hrun, hkept⟩ := receives_one_byte
  have haligned : (⟨.cartridge, 0, 0x100, "RTC"⟩ : Zone).start.toNat % 4096 = 0 := by decide
  obtain ⟨hstored, hblank⟩ := image_stored haligned h hstate hends hreport hrun hkept
  have hfree : ∀ c ∈ [(⟨0, [0x42]⟩ : Chunk)], ¬c.Covers 1 := by simp [Chunk.Covers]
  refine ⟨s, s', f, f', t, report, h, hstate, hends, hreport, hrun, hkept, ?_, ?_⟩
  · exact hstored ⟨0, [0x42]⟩ List.mem_cons_self
  · refine hblank ⟨0, [0x42]⟩ List.mem_cons_self 0 1 0 ?_ ?_ ?_ hfree
    · simp [Chunk.Covers]
    · decide
    · decide

end Session

end DfuLoader
