import DfuLoader.Proofs.Confinement
import DfuLoader.Proofs.Storage
import DfuLoader.Usb.Interface

/-!
# Reading a zone back

Uploads stream a zone: each continues at the byte where the last one that succeeded left off,
whatever their sizes are, and whatever happens in between that does not load a zone. What the
chips store has to stay as it is (`Flash.Backs`), but a read may fail, and then nothing moves.
So the bytes returned so far are the beginning of the zone, and all of it once there was room
enough (`zone_streamed`).
-/

namespace DfuLoader

namespace Flash

/-- Every read that succeeds returns what the flash stores on the chip that was selected
last. -/
def Backs (f : Flash) (t : List Exchange) : Prop :=
  ∀ pre start length bytes post, t = pre ++ ⟨.read start length, .ok bytes⟩ :: post →
    ∀ chip, DfuLoader.selected pre = some chip → bytes.val = f.stored chip start.toNat length

variable {f f' : Flash} {t : List Exchange} {e : Exchange}

theorem Answers.selected_eq (h : f.Answers e f') :
    f'.selected = (DfuLoader.selected [e]).getD f.selected := by
  cases h with
  | erase reply alters => exact alters.1
  | program reply alters => exact alters.1
  | select | readStatus | read | writeEnable | verify | vendorIn | vendorOut | reboot => rfl

theorem Run.selected_eq (h : f.Run t f') :
    f'.selected = (DfuLoader.selected t).getD f.selected := by
  induction h with
  | nil f => rfl
  | @cons f₀ f₁ f₂ e t answers rest ih =>
      have happend : DfuLoader.selected (e :: t) =
          (DfuLoader.selected t).or (DfuLoader.selected [e]) := selected_append [e] t
      rw [ih, answers.selected_eq, happend]
      cases DfuLoader.selected t <;> rfl

/-- A flash backs the exchanges with it as long as none of them writes to it. -/
theorem Run.backs (h : f.Run t f') (hunwritten : ∀ e ∈ t, ∀ x, ¬e.command.Changes x) :
    f.Backs t := by
  rintro pre start length bytes post rfl chip hchip
  obtain ⟨f₁, hpre, hrun⟩ := run_append.1 h
  have hcells : f₁.cells = f.cells := by
    funext chip x
    exact hpre.cells_eq fun e he => hunwritten e (List.mem_append_left _ he) x
  have hselected : f₁.selected = chip := by rw [hpre.selected_eq, hchip, Option.getD_some]
  cases hrun with
  | cons answers rest =>
      cases answers with
      | read reads => rw [reads start length bytes rfl, hselected, stored, stored, hcells]

end Flash

namespace Session

open Dialogue

/-- The operation loads a zone, or takes it away: the reading cursor starts anew. -/
def Reloads (s : Session) : Operation → Answer → Prop
  | .configured, _ => s.state = .appDetach
  | .selectAlt _, .selected found => found = true
  | .busReset, _ => s.state ≠ .appDetach
  | .getStatus, .reported report => s.state = .manifestSync ∧ report.state = .idle
  | _, _ => False

/-- An upload that succeeded: what there was room for, and what it returned. -/
structure Piece where
  room : Nat
  bytes : Bytes

def Operation.returned : Operation → Answer → List Piece
  | .upload room _, .uploaded (.ok bytes) => [⟨room, bytes⟩]
  | _, _ => []

def streamed (pieces : List Piece) : Bytes := pieces.flatMap Piece.bytes

def roomFor (pieces : List Piece) : Nat := (pieces.map Piece.room).sum

/-- The sessions after a zone was loaded and not loaded again, with the pieces that uploads
have returned from the flash in the meantime. -/
inductive Streams (cfg : Config) (zone : Zone) (f : Flash) : Session → List Piece → Prop
  | loaded {s : Session} (engine : s.engine = .loaded zone cfg.maxAttempts) :
      Streams cfg zone f s []
  | perform {s s' : Session} {pieces : List Piece} {limit : Nat} {op : Operation}
      {t : List Exchange} {a : Answer} (streams : Streams cfg zone f s pieces)
      (kept : ¬s.Reloads op a) (ends : Ends (s.perform cfg limit op) t (some (a, s')))
      (backs : f.Backs t) : Streams cfg zone f s' (pieces ++ op.returned a)

/-- The reading cursor stands behind the bytes that were returned, and these are the
beginning of the zone. -/
structure OnStream (zone : Zone) (f : Flash) (s : Session) (pieces : List Piece) : Prop where
  steady : ∃ m, s.engine.Steady zone m
  readAt_eq : s.engine.readAt.toNat = zone.start.toNat + (streamed pieces).length
  streamed_eq : streamed pieces = f.stored zone.chip zone.start.toNat
    (min (zone.stop.toNat - zone.start.toNat) (roomFor pieces))

variable {cfg : Config} {limit m room requested : Nat} {zone : Zone} {f : Flash} {s s' : Session}
  {t : List Exchange} {k : Tick} {op : Operation} {a : Answer} {pieces : List Piece}
  {bytes : Bytes} {x : Except SessionError Bytes}

theorem streamed_append_singleton (pieces : List Piece) (piece : Piece) :
    streamed (pieces ++ [piece]) = streamed pieces ++ piece.bytes := by
  rw [streamed, List.flatMap_append, List.flatMap_singleton, streamed]

theorem roomFor_append_singleton (pieces : List Piece) (piece : Piece) :
    roomFor (pieces ++ [piece]) = roomFor pieces + piece.room := by
  rw [roomFor, List.map_append, List.sum_append, List.map_singleton, List.sum_singleton, roomFor]

theorem OnStream.length_streamed (h : OnStream zone f s pieces) :
    (streamed pieces).length =
      min (zone.stop.toNat - zone.start.toNat) (roomFor pieces) := by
  rw [h.streamed_eq, Flash.length_stored]

theorem OnStream.uploadLength_eq (h : OnStream zone f s pieces) (room : Nat) :
    s.uploadLength room =
      min room (zone.stop.toNat - zone.start.toNat - (streamed pieces).length) := by
  obtain ⟨m, hsteady⟩ := h.steady
  rw [uploadLength, Address.toNat_subSat, hsteady.zoneEnd_eq, h.readAt_eq, Nat.sub_add_eq]

/-! Nothing but an upload moves the reading cursor. -/

def ReadTo (zone : Zone) (readAt : Address) (s : Session) : Prop :=
  (∃ m, s.engine.Steady zone m) ∧ s.engine.readAt = readAt

variable {readAt : Address}

theorem ReadTo.of_engine (h : ReadTo zone readAt s) {receiveAt : Address}
    (hengine : s'.engine = { s.engine with receiveAt := receiveAt }) :
    ReadTo zone readAt s' := by
  obtain ⟨⟨m, hsteady⟩, hread⟩ := h
  rw [ReadTo, hengine]
  exact ⟨⟨m, hsteady.withReceiveAt receiveAt⟩, hread⟩

theorem ReadTo.commitImageTail (h : ReadTo zone readAt s) :
    ReadTo zone readAt s.commitImageTail := by
  obtain ⟨receiveAt, hengine⟩ := s.engine_commitImageTail
  exact h.of_engine hengine

theorem Steps.readTo (h : Steps cfg s t k s') (hs : ReadTo zone readAt s) :
    ReadTo zone readAt s' := by
  obtain ⟨⟨m, hsteady⟩, hread⟩ := ReadTo.commitImageTail hs
  cases h with
  | step ticks => exact ⟨⟨_, ticks.steady hsteady⟩, ticks.leaves.readAt_eq.trans hread⟩

theorem Downloads.readTo {x : Except SessionError Unit} (h : Downloads cfg s bytes x s')
    (hs : ReadTo zone readAt s) : ReadTo zone readAt s' := by
  cases h with
  | ended _ | overflowed _ _ | crowded _ _ _ => exact hs
  | @taken _ receiveAt buffer _ _ _ =>
      have hreceived : ReadTo zone readAt (s.received buffer receiveAt) := hs.of_engine rfl
      obtain ⟨_, hengine⟩ := engine_closedIfShort cfg (s.received buffer receiveAt) bytes.length
      exact hreceived.of_engine hengine

theorem Reports.readTo {report : StatusReport} (h : Reports cfg limit s t (some (report, s')))
    (hkept : ¬s.Reloads .getStatus (.reported report)) (hs : ReadTo zone readAt s) :
    ReadTo zone readAt s' := by
  cases h with
  | ready _ _ | crowded _ _ | other _ _ => exact hs
  | drained state _ _ => exact absurd ⟨state, rfl⟩ hkept
  | finished state _ _ => exact absurd ⟨state, rfl⟩ hkept
  | manifesting _ _ _ => exact ReadTo.commitImageTail hs

theorem Performs.readTo (h : Performs cfg limit s op t (some (a, s'))) (hkept : ¬s.Reloads op a)
    (hop : ¬op.IsUpload) (hs : ReadTo zone readAt s) : ReadTo zone readAt s' := by
  cases h with
  | configured state _ => exact absurd state hkept
  | selected _ => exact absurd rfl hkept
  | reset state => exact absurd state hkept
  | upload _ => exact absurd trivial hop
  | download downloads => exact downloads.readTo hs
  | reported reports => exact reports.readTo hkept hs
  | ticked _ steps => exact steps.readTo hs
  | unconfigured | unselected _ | allowed _ _ | refused _ | fail _ | detach | clearStatus
  | getState | abort | unreset _ | polled _ | detached _ | throttled _ => exact hs

theorem Operation.returned_of_not_isUpload (hop : ¬op.IsUpload) (a : Answer) :
    op.returned a = [] := by
  cases op with
  | upload _ _ => exact absurd trivial hop
  | _ => rfl

/-! An upload that succeeds reads on. -/

theorem Uploads.of_ok (h : Uploads s room requested t (.ok bytes) s') :
    s'.engine = { s.engine with
        readAt := s.engine.readAt + UInt32.ofNat (s.uploadLength room) } ∧
      bytes.length = s.uploadLength room ∧
      s'.state = if 0 < bytes.length ∧ bytes.length = requested then .uploadIdle else .idle := by
  cases h with
  | finished none_left =>
      rw [none_left]
      refine ⟨?_, rfl, (if_neg fun hpos => absurd hpos.1 (Nat.lt_irrefl 0)).symm⟩
      change s.engine = { s.engine with readAt := s.engine.readAt + 0 }
      rw [UInt32.add_zero]
  | read some_left bytes =>
      refine ⟨rfl, bytes.property, ?_⟩
      rw [bytes.property]
      simp only [Nat.pos_of_ne_zero some_left, true_and]

theorem Uploads.of_error {e : SessionError} (h : Uploads s room requested t (.error e) s') :
    (∃ fault, e = .flash fault) ∧ s' = s.fail e := by
  cases h with
  | unread _ fault => exact ⟨⟨fault, rfl⟩, rfl⟩

theorem Uploads.bytes_eq (h : Uploads s room requested t (.ok bytes) s') (hbacks : f.Backs t) :
    bytes = f.stored s.engine.chip s.engine.readAt.toNat (s.uploadLength room) := by
  cases h with
  | finished none_left =>
      rw [none_left]
      rfl
  | read _ bytes => exact hbacks [⟨.select s.engine.chip, ()⟩] _ _ _ [] rfl _ rfl

theorem Uploads.ends (h : Uploads s room requested t x s') (cfg : Config) (limit : Nat) :
    Ends (s.perform cfg limit (.upload room requested)) t (some (.uploaded x, s')) := by
  rw [perform, upload, ← uploadLength]
  cases h with
  | finished none_left =>
      rw [if_pos none_left]
      exact .done _
  | unread some_left fault =>
      rw [if_neg some_left]
      exact .ask (.select s.engine.chip) _ ()
        (.ask (.read s.engine.readAt (s.uploadLength room)) _ (.error fault) (.done _))
  | read some_left bytes =>
      rw [if_neg some_left]
      exact .ask (.select s.engine.chip) _ ()
        (.ask (.read s.engine.readAt (s.uploadLength room)) _ (.ok bytes) (.done _))

theorem Uploads.onStream (h : Uploads s room requested t (.ok bytes) s')
    (hs : OnStream zone f s pieces) (hbacks : f.Backs t) :
    OnStream zone f s' (pieces ++ [⟨room, bytes⟩]) := by
  obtain ⟨m, hsteady⟩ := hs.steady
  obtain ⟨hengine, hlength, -⟩ := h.of_ok
  have hsofar := hs.length_streamed
  have hleft := hs.uploadLength_eq room
  have hread := hs.readAt_eq
  have hstop := Address.toNat_lt zone.stop
  have hstart := Address.toNat_lt zone.start
  refine ⟨⟨m, hengine ▸ hsteady.withReadAt _⟩, ?_, ?_⟩
  · have hnext : (s.engine.readAt + UInt32.ofNat (s.uploadLength room)).toNat =
        s.engine.readAt.toNat + s.uploadLength room := Address.toNat_add_ofNat (by omega)
    rw [hengine, streamed_append_singleton, List.length_append, hlength, ← Nat.add_assoc, ← hread]
    exact hnext
  · -- the new bytes begin where those so far have ended
    have htotal : min (zone.stop.toNat - zone.start.toNat) (roomFor (pieces ++ [⟨room, bytes⟩])) =
        min (zone.stop.toNat - zone.start.toNat) (roomFor pieces) + s.uploadLength room := by
      rw [roomFor_append_singleton, hleft, hsofar]
      change min _ (roomFor pieces + room) = _
      omega
    rw [streamed_append_singleton, htotal, Flash.stored_add, ← hs.streamed_eq, ← hsofar, ← hread,
      ← hsteady.chip_eq, h.bytes_eq hbacks]

theorem Performs.onStream (h : Performs cfg limit s op t (some (a, s')))
    (hs : OnStream zone f s pieces) (hkept : ¬s.Reloads op a) (hbacks : f.Backs t) :
    OnStream zone f s' (pieces ++ op.returned a) := by
  by_cases hop : op.IsUpload
  · cases h with
    | @upload room requested _ x _ uploads =>
        cases x with
        | ok bytes => exact uploads.onStream hs hbacks
        | error e =>
            obtain ⟨-, rfl⟩ := uploads.of_error
            change OnStream zone f _ (pieces ++ [])
            rw [List.append_nil]
            exact ⟨hs.steady, hs.readAt_eq, hs.streamed_eq⟩
    | _ => exact hop.elim
  · obtain ⟨hsteady, hread⟩ := h.readTo hkept hop ⟨hs.steady, rfl⟩
    rw [Operation.returned_of_not_isUpload hop, List.append_nil]
    exact ⟨hsteady, hread ▸ hs.readAt_eq, hs.streamed_eq⟩

theorem Streams.onStream (h : Streams cfg zone f s pieces) : OnStream zone f s pieces := by
  induction h with
  | loaded engine =>
      refine ⟨⟨0, engine ▸ Engine.steady_loaded zone cfg.maxAttempts⟩, by rw [engine]; rfl, ?_⟩
      rw [roomFor, List.map_nil, List.sum_nil, Nat.min_zero]
      rfl
  | perform _ kept ends backs ih => exact (performs_of_ends ends).onStream ih kept backs

end Session

namespace Usb.Interface

open Dialogue

theorem read_upload {cfg : Config} {i : Interface} {setup : Setup}
    (kind : setup.kind = .classSpecific) (addressed : i.addressed setup = true)
    (code : Request.ofCode? setup.request = some .upload)
    (allowed : i.session.state.allows .upload = true) (limit : Nat) :
    i.read cfg limit setup =
      i.session.upload (min (min setup.length.toNat cfg.transferSize.toNat) cfg.controlBuffer)
          setup.length.toNat >>= fun result =>
        .done (some (match result.1 with
          | .ok bytes => .data bytes
          | .error _ => .refuse, i.withSession result.2)) := by
  have hroom : (min setup.length cfg.transferSize).toNat =
      min setup.length.toNat cfg.transferSize.toNat := by
    change (if setup.length ≤ cfg.transferSize then setup.length else cfg.transferSize).toNat = _
    rw [min_def, apply_ite UInt16.toNat]
    rfl
  rw [read, if_pos addressed, kind, classRead, Session.request_of_allows code allowed]
  simp only [Interface.upload, hroom, map_eq_pure_bind, bind_bind]
  rfl

end Usb.Interface

namespace Session

open Dialogue

/-- Uploads stream the zone. The bytes that were returned since it was loaded are as many of
its first as there was room for. The next upload returns what there is room for, and no more
than is left; where a read fails nothing moves, but for the error state. A request of the class
is such an upload, with as much room as the host asks for, a transfer carries and the control
buffer holds. -/
theorem zone_streamed (h : Streams cfg zone f s pieces) :
    streamed pieces = f.stored zone.chip zone.start.toNat
        (min (zone.stop.toNat - zone.start.toNat) (roomFor pieces)) ∧
      (∀ limit room requested t x s',
        Ends (s.perform cfg limit (.upload room requested)) t (some (.uploaded x, s')) →
        match x with
        | .ok bytes =>
            bytes.length =
                min room (zone.stop.toNat - zone.start.toNat - (streamed pieces).length) ∧
              s'.state =
                if 0 < bytes.length ∧ bytes.length = requested then .uploadIdle else .idle
        | .error e => (∃ fault, e = .flash fault) ∧ s' = s.fail e) ∧
      ∀ (limit : Nat) (i : Usb.Interface) (setup : Usb.Setup), i.session = s →
        setup.kind = .classSpecific → i.addressed setup = true →
        Request.ofCode? setup.request = some .upload → s.state.allows .upload = true →
        i.read cfg limit setup =
          s.upload (min (min setup.length.toNat cfg.transferSize.toNat) cfg.controlBuffer)
              setup.length.toNat >>= fun result =>
            .done (some (match result.1 with
              | .ok bytes => .data bytes
              | .error _ => .refuse, i.withSession result.2)) := by
  have hs := h.onStream
  refine ⟨hs.streamed_eq, fun limit room requested t x s' hends => ?_, ?_⟩
  · cases performs_of_ends hends with
    | upload uploads =>
        cases x with
        | ok bytes =>
            obtain ⟨-, hlength, hstate⟩ := uploads.of_ok
            exact ⟨hlength.trans (hs.uploadLength_eq room), hstate⟩
        | error e => exact uploads.of_error
  · rintro limit i setup rfl kind addressed code allowed
    exact Usb.Interface.read_upload kind addressed code allowed limit

/-- Two uploads of 200 bytes each read the smallest zone of the reference board. The read that
fails between them does not count, and the second upload is cut off at the end of the zone. -/
theorem zone_streamed_resumed :
    ∃ (f : Flash) (s s' : Session) (t : List Exchange) (first second : Bytes),
      let zone : Zone := ⟨.cartridge, 0, 0x100, "RTC"⟩
      Streams {} zone f s [⟨200, first⟩] ∧ first = f.stored .cartridge 0 200 ∧
        Ends (s.perform {} 0 (.upload 200 200)) t (some (.uploaded (.ok second), s')) ∧
        second.length = 56 ∧ s'.state = .idle := by
  let zone : Zone := ⟨.cartridge, 0, 0x100, "RTC"⟩
  let f : Flash := ⟨.internal, fun _ x => UInt8.ofNat x⟩
  let s₁ := (initial {}).loaded {} 6 zone
  let s₂ := { s₁ with
    engine := { s₁.engine with readAt := 200 }
    state := .uploadIdle }
  let s₃ := (s₂.fail (.flash .bus)).clearStatus
  let first : Bytes.OfLength (s₁.uploadLength 200) :=
    ⟨f.stored .cartridge 0 (s₁.uploadLength 200), f.length_stored _ _ _⟩
  let second : Bytes.OfLength (s₃.uploadLength 200) := ⟨List.replicate 56 0, by decide +kernel⟩
  have hfirst : Uploads s₁ 200 200 [⟨.select .cartridge, ()⟩,
      ⟨.read 0 (s₁.uploadLength 200), .ok first⟩] (.ok first.val) s₂ :=
    .read (by decide +kernel) first
  have hunread : Uploads s₂ 200 200 [⟨.select .cartridge, ()⟩,
      ⟨.read 200 (s₂.uploadLength 200), .error .bus⟩] (.error (.flash .bus))
      (s₂.fail (.flash .bus)) := .unread (by decide +kernel) .bus
  obtain ⟨s', hsecond⟩ : ∃ s', Uploads s₃ 200 200 [⟨.select .cartridge, ()⟩,
      ⟨.read 200 (s₃.uploadLength 200), .ok second⟩] (.ok second.val) s' :=
    ⟨_, .read (by decide +kernel) second⟩
  have hreads : f.Backs [⟨.select .cartridge, ()⟩,
      ⟨.read 0 (s₁.uploadLength 200), .ok first⟩] := by
    have hrun : Flash.Run f [⟨.select .cartridge, ()⟩,
        ⟨.read 0 (s₁.uploadLength 200), .ok first⟩] { f with selected := .cartridge } :=
      .cons (.select f .cartridge)
        (.cons (.read fun _ _ _ heq => by cases heq; rfl) (.nil _))
    exact hrun.backs (by simp [Command.Changes])
  have hfails : f.Backs [⟨.select .cartridge, ()⟩,
      ⟨.read 200 (s₂.uploadLength 200), .error .bus⟩] := by
    have hrun : Flash.Run f [⟨.select .cartridge, ()⟩,
        ⟨.read 200 (s₂.uploadLength 200), .error .bus⟩] { f with selected := .cartridge } :=
      .cons (.select f .cartridge) (.cons (.read fun _ _ _ heq => by cases heq) (.nil _))
    exact hrun.backs (by simp [Command.Changes])
  have hstreams₁ : Streams {} zone f s₁ [] := .loaded rfl
  have hstreams₂ : Streams {} zone f s₂ [⟨200, first.val⟩] :=
    .perform hstreams₁ id (hfirst.ends {} 0) hreads
  have hstreams₃ : Streams {} zone f s₃ [⟨200, first.val⟩] := by
    have hfailed : Streams {} zone f (s₂.fail (.flash .bus)) [⟨200, first.val⟩] :=
      .perform hstreams₂ id (hunread.ends {} 0) hfails
    have hclear : Ends ((s₂.fail (.flash .bus)).perform {} 0 .clearStatus) []
        (some (.quiet, s₃)) := .done _
    exact .perform hfailed id hclear (Flash.Run.nil f |>.backs (by simp))
  obtain ⟨hstored, hnext, -⟩ := zone_streamed hstreams₃
  obtain ⟨-, hstate⟩ := hnext 0 200 200 _ _ _ (hsecond.ends {} 0)
  have hfull : first.val = f.stored .cartridge 0 200 := by
    simpa [zone, streamed, roomFor] using hstored
  have hshort : second.val.length = 56 := List.length_replicate
  rw [hshort, if_neg (by decide)] at hstate
  exact ⟨f, s₃, s', _, first.val, second.val, hstreams₃, hfull, hsecond.ends {} 0,
    hshort, hstate⟩

end Session

end DfuLoader
