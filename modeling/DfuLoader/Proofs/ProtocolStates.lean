import DfuLoader.Proofs.InterfaceRuns
import DfuLoader.Proofs.ManifestPolicy

/-!
# The states of the protocol

A session behind an interface keeps seven of the states of the protocol; in each of them some
request is served (`State.exists_allows`). The others are at most reported. What the state says
about the rest of the session is `Coherent`: whether there is an error, whether the image is
complete, whether the next block may come, and that nothing is loaded before the device is
configured. Each of these relies on some of the others, and all of them hold as long as a
request is served only in a state that allows it (`Performs.coherent`).
-/

namespace DfuLoader

def State.kept : List State :=
  [appDetach, idle, downloadSync, downloadIdle, manifestSync, uploadIdle, error]

theorem State.exists_allows {state : State} (h : state ∈ kept) :
    ∃ r, state.allows r = true := by
  refine ⟨.getState, ?_⟩
  revert state
  decide

namespace Session

open Dialogue

/-- The rest of the session agrees with its state. -/
structure Coherent (cfg : Config) (s : Session) : Prop where
  kept : s.state ∈ State.kept
  failed : s.status = .errUnknown ↔ s.state = .error
  sound : s.state ≠ .error → s.status = .ok
  complete : s.state = .manifestSync → s.endOfImage = true
  incomplete : s.state = .downloadSync ∨ s.state = .downloadIdle → s.endOfImage = false
  free : s.state = .downloadIdle → s.buffer.committed < 2
  vacant : s.state = .appDetach →
    s.buffer.isEmpty = true ∧ s.engine = .unloaded cfg.maxAttempts

variable {cfg : Config} {limit : Nat} {s s' : Session} {t : List Exchange}

theorem coherent_initial (cfg : Config) : Coherent cfg (.initial cfg) := by
  constructor <;> simp [initial, State.kept, BlockRing.isEmpty_iff, BlockRing.empty]

theorem coherent_restarted (cfg : Config) (s : Session) : Coherent cfg (s.restarted cfg) := by
  constructor <;> simp [restarted, State.kept, BlockRing.isEmpty_clear]

theorem coherent_of_waits (hstate : s.state = .idle ∨ s.state = .uploadIdle)
    (hstatus : s.status = .ok) : Coherent cfg s := by
  constructor <;> rcases hstate with hstate | hstate <;> simp [hstate, hstatus, State.kept]

theorem coherent_fail (cfg : Config) (s : Session) {e : SessionError}
    (he : e.status = .errUnknown) : Coherent cfg (s.fail e) := by
  constructor <;> simp [fail, he, State.kept]

theorem Coherent.of_eq (hs : Coherent cfg s) (hpipeline : s'.toPipeline = s.toPipeline)
    (hstate : s'.state = s.state) (hstatus : s'.status = s.status)
    (hend : s'.endOfImage = s.endOfImage) : Coherent cfg s' := by
  obtain ⟨_, _, _, _, _, _, _⟩ := s'
  cases hpipeline
  cases hstate
  cases hstatus
  cases hend
  exact ⟨hs.kept, hs.failed, hs.sound, hs.complete, hs.incomplete, hs.free, hs.vacant⟩

theorem commitTail_status (s : Session) : s.commitTail.status = s.status := by
  rw [s.commitTail_frame]
  rfl

theorem Steps.status {k : Tick} (h : Steps cfg s t k s') : s'.status = s.status := by
  rw [h.frame]
  rfl

theorem Steps.coherent {k : Tick} (h : Steps cfg s t k s') (hlocated : Located cfg s)
    (hs : Coherent cfg s) : Coherent cfg s' := by
  obtain ⟨-, hstate, hend⟩ := h.fields
  have hstatus := h.status
  constructor
  case kept => rw [hstate]; exact hs.kept
  case failed => rw [hstate, hstatus]; exact hs.failed
  case sound => rw [hstate, hstatus]; exact hs.sound
  case complete => rw [hstate, hend]; exact hs.complete
  case incomplete => rw [hstate, hend]; exact hs.incomplete
  case free =>
    intro hidle
    rw [hstate] at hidle
    -- a step commits a block at the end of an image only
    have hle := h.committed_le (hs.incomplete (.inr hidle))
    exact hle.trans_lt (hs.free hidle)
  case vacant =>
    intro hdetach
    rw [hstate] at hdetach
    rw [(h.eq_of_isEmpty hlocated (hs.vacant hdetach).1).2.2]
    exact hs.vacant hdetach

theorem Downloads.coherent {bytes : Bytes} {x : Except SessionError Unit}
    (h : Downloads cfg s bytes x s') (hstatus : s.status = .ok) : Coherent cfg s' := by
  cases h with
  | ended none_left => constructor <;> simp [hstatus, State.kept]
  | overflowed some_left past => exact coherent_fail cfg s rfl
  | crowded some_left inside full => exact coherent_fail cfg s rfl
  | @taken some_left receiveAt buffer inside receiveAt_eq append =>
      have hsame : ((s.received buffer receiveAt).closedIfShort cfg bytes.length).status = .ok :=
        closedIfShort_of (s := s.received buffer receiveAt) (P := fun s' => s'.status = .ok)
          ((commitTail_status _).trans hstatus) hstatus _
      have hend : ((s.received buffer receiveAt).closedIfShort cfg bytes.length).endOfImage =
          false := (closedIfShort_fields _ _).2
      constructor <;> simp [hsame, hend, State.kept]

theorem Uploads.coherent {room requested : Nat} {x : Except SessionError Bytes}
    (h : Uploads s room requested t x s') (hstatus : s.status = .ok) : Coherent cfg s' := by
  cases h with
  | finished none_left => exact coherent_of_waits (.inl rfl) hstatus
  | unread some_left fault => exact coherent_fail cfg s rfl
  | read some_left bytes =>
      refine coherent_of_waits ?_ hstatus
      change (if _ then State.uploadIdle else State.idle) = _ ∨
        (if _ then State.uploadIdle else State.idle) = _
      split
      · exact .inr rfl
      · exact .inl rfl

theorem Reports.coherent {report : StatusReport} (h : Reports cfg limit s t (some (report, s')))
    (hs : Coherent cfg s) : Coherent cfg s' := by
  cases h with
  | ready state free =>
      have hstatus : s.status = .ok := hs.sound (by simp [state])
      have hend : s.endOfImage = false := hs.incomplete (.inl state)
      constructor <;> simp [hstatus, hend, free, State.kept]
  | drained state policy drains =>
      have hidle : ({ s with state := .idle } : Session).status = .ok := hs.sound (by simp [state])
      obtain ⟨⟨hstate, hstatus⟩, -⟩ :=
        drains.preserves (P := fun s => s.state = .idle ∧ s.status = .ok)
          (fun steps h => ⟨steps.fields.2.1.trans h.1, steps.status.trans h.2⟩) ⟨rfl, hidle⟩ rfl
      exact coherent_of_waits (.inl hstate) hstatus
  | finished state policy empty =>
      refine coherent_of_waits (.inl rfl) ?_
      change s.commitImageTail.status = .ok
      rw [s.commitImageTail_frame]
      exact hs.sound (by simp [state])
  | manifesting state policy queued =>
      obtain ⟨-, hstate, hend⟩ := s.commitImageTail_fields
      have hstatus : s.commitImageTail.status = .ok := by
        rw [s.commitImageTail_frame]
        exact hs.sound (by simp [state])
      have hcomplete := hs.complete state
      constructor <;> simp [hstate, hend, hstatus, hcomplete, state, State.kept]
  | crowded _ _ | other _ _ => exact hs

theorem Coherent.status_eq (hs : Coherent cfg s) {r : Request} (hallows : s.state.allows r = true)
    (hr : State.error.allows r = false) : s.status = .ok := by
  refine hs.sound fun hstate => ?_
  rw [hstate, hr] at hallows
  cases hallows

theorem Performs.coherent {op : Operation} {a : Answer}
    (h : Performs cfg limit s op t (some (a, s'))) (hop : op.Admitted s)
    (hlocated : Located cfg s) (hs : Coherent cfg s) : Coherent cfg s' := by
  cases h with
  | configured state known => exact coherent_of_waits (.inl rfl) rfl
  | selected known => exact coherent_of_waits (.inl rfl) rfl
  | refused code => exact coherent_fail cfg s rfl
  | fail e =>
      obtain rfl : e = .protocolViolation := hop
      exact coherent_fail cfg s rfl
  | download downloads => exact downloads.coherent (hs.status_eq hop rfl)
  | upload uploads => exact uploads.coherent (hs.status_eq hop rfl)
  | reported reports => exact reports.coherent hs
  | clearStatus => exact coherent_of_waits (.inl rfl) rfl
  | abort =>
      -- only clearing the status leaves an error, since no other request is served in it
      exact coherent_of_waits (.inl rfl) (hs.status_eq (r := .abort) hop rfl)
  | reset state => exact coherent_restarted cfg s
  | ticked due steps => exact steps.coherent hlocated (hs.of_eq rfl rfl rfl rfl)
  | unconfigured | unselected _ | allowed _ _ | detach | getState | unreset _ | polled _
  | detached _ | throttled _ => exact hs.of_eq rfl rfl rfl rfl

end Session

namespace Usb

namespace Interface

open Session

variable {cfg : Config} {numbering : Numbering} {i : Interface}

/-- Whatever calls lead to an interface, its session is in one of the states that are kept, in
which some request is served, and coherent with it. -/
theorem protocol_states (h : Reachable cfg numbering i) :
    Coherent cfg i.session ∧ ∃ r, i.session.state.allows r = true := by
  have hcoherent : Coherent cfg i.session := by
    refine h.induction (coherent_initial cfg) ?_
    rintro s s' hreachable hs ⟨op, hop, limit, t, a, hperform⟩
    exact (performs_of_ends hperform).coherent hop hreachable.located hs
  exact ⟨hcoherent, State.exists_allows hcoherent.kept⟩

/-- Where an image is complete but not yet written, the session is without an error. -/
theorem protocol_states_halfImage :
    (halfImage {}).state = .manifestSync ∧ (halfImage {}).endOfImage = true ∧
      (halfImage {}).status = .ok := by
  have hstates := protocol_states (reachable_halfImage ⟨0, 4⟩)
  exact ⟨rfl, hstates.1.complete rfl, hstates.1.sound (by decide)⟩

end Interface

end Usb

end DfuLoader
