import DfuLoader.Proofs.CheckedEngine
import DfuLoader.Proofs.Confinement
import DfuLoader.Proofs.HealthyBoard
import DfuLoader.Session.Operation

/-!
# No operation traps

The operations of a session in the arithmetic that traps. Where the zones end at or before
`0xFFFFF000`, no list of operations on a reachable session traps, whatever the board
replies: what it does is what `performAll` does (`performAll_never_traps`). That covers the
comparisons as well, for every window that is compared could be compared by reading it back
without a trap.
-/

namespace DfuLoader

open Trap Guarded Dialogue

namespace Command

def isVerify : Command → Bool
  | .verify _ _ => true
  | _ => false

theorem isVerify_iff {c : Command} :
    c.isVerify = true ↔ ∃ start wanted, c = .verify start wanted := by
  cases c <;> simp [isVerify]

end Command

namespace Session

/-- The bytes of a download are counted in 32 bits. -/
def Operation.Counted : Operation → Prop
  | .download bytes => bytes.length < 2 ^ 32
  | _ => True

def checkedCommitTail (s : Session) : Except Trap Session :=
  if s.buffer.fill = 0 then return s
  else do
    match ← s.buffer.checkedCommit with
    | none => return s
    | some buffer =>
        let engine ← s.engine.checkedSkipPadding
        return { s with buffer := buffer, engine := engine }

def checkedCommitImageTail (s : Session) : Except Trap Session :=
  if s.endOfImage then s.checkedCommitTail else return s

def checkedDownload (cfg : Config) (s : Session) (bytes : Bytes) :
    Except Trap (Except SessionError Unit × Session) :=
  if bytes.isEmpty then return (.ok (), { s with endOfImage := true, state := .manifestSync })
  else do
    let length ← narrow 32 bytes.length
    match (s.engine.receiveAt.add? length).filter (· ≤ s.engine.zoneEnd) with
    | none => return (.error .rangeOverflow, s.fail .rangeOverflow)
    | some receiveAt =>
        match ← s.buffer.checkedAppend bytes with
        | none => return (.error .protocolViolation, s.fail .protocolViolation)
        | some buffer =>
            let s := s.received buffer receiveAt
            let s ← if bytes.length < cfg.transferSize.toNat then s.checkedCommitTail else pure s
            return (.ok (), { s with state := .downloadSync })

def checkedUpload (s : Session) (room requested : Nat) :
    Guarded (Except SessionError Bytes × Session) :=
  if s.uploadLength room = 0 then ask (.done (.ok [], { s with state := .idle }))
  else do
    ask (Dialogue.select s.engine.chip)
    let length ← check (front room (s.uploadLength room))
    match ← ask (Dialogue.read s.engine.readAt length) with
    | .error fault => ask (.done (.error (.flash fault), s.fail (.flash fault)))
    | .ok bytes =>
        let readAt ← check (advance s.engine.readAt length)
        ask (.done (.ok bytes.val, { s with
          engine := { s.engine with readAt := readAt }
          state := if length = requested then .uploadIdle else .idle }))

def checkedStep (cfg : Config) (s : Session) : Guarded (Tick × Session) := do
  let s ← check s.checkedCommitImageTail
  let (tick, pipeline) ← s.toPipeline.checkedTick cfg
  ask (.done (tick, s.withPipeline pipeline))

def checkedTick (cfg : Config) (s : Session) : Guarded (Tick × Session) :=
  if s.skipped < cfg.skipTicks then do
    let skipped ← check (add 8 s.skipped.toNat 1)
    ask (.done (.throttled, { s with skipped := UInt8.ofNat skipped }))
  else { s with skipped := 0 }.checkedStep cfg

def checkedDrain (cfg : Config) : Nat → Session → Guarded (Option Session)
  | 0, s => ask (.done (if s.buffer.isEmpty then some s else none))
  | limit + 1, s =>
      if s.buffer.isEmpty then ask (.done (some s))
      else do
        let (_, s) ← s.checkedStep cfg
        checkedDrain cfg limit s

def checkedManifest (cfg : Config) (limit : Nat) (s : Session) :
    Guarded (Option (StatusReport × Session)) :=
  match cfg.manifest with
  | .drain => do
      let some s ← { s with state := .idle }.checkedDrain cfg limit | ask (.done none)
      let s := s.rewind cfg
      ask (.done (some (s.report cfg .idle, s)))
  | .report => do
      let s ← check s.checkedCommitImageTail
      if s.buffer.isEmpty then
        let s := { s with state := .idle }.rewind cfg
        ask (.done (some (s.report cfg .idle, s)))
      else ask (.done (some (s.report cfg .manifest, s)))

def checkedGetStatus (cfg : Config) (limit : Nat) (s : Session) :
    Guarded (Option (StatusReport × Session)) :=
  match s.state with
  | .manifestSync => s.checkedManifest cfg limit
  | _ => ask (s.getStatus cfg limit)

/-- The other operations compute nothing. -/
def checkedPerform (cfg : Config) (limit : Nat) (op : Operation) (s : Session) :
    Guarded (Option (Answer × Session)) :=
  match op with
  | .download bytes => do
      let (result, s) ← check (s.checkedDownload cfg bytes)
      ask (.done (some (.downloaded result, s)))
  | .upload room requested => do
      let (result, s) ← s.checkedUpload room requested
      ask (.done (some (.uploaded result, s)))
  | .getStatus => do
      let some (report, s) ← s.checkedGetStatus cfg limit | ask (.done none)
      ask (.done (some (.reported report, s)))
  | .tick => do
      let (tick, s) ← s.checkedTick cfg
      ask (.done (some (.ticked tick, s)))
  | op => ask (s.perform cfg limit op)

def checkedPerformAll (cfg : Config) (limit : Nat) :
    List Operation → Session → Guarded (Option (List Answer × Session))
  | [], s => ask (.done (some ([], s)))
  | op :: ops, s => do
      let some (answer, s) ← s.checkedPerform cfg limit op | ask (.done none)
      let some (answers, s) ← checkedPerformAll cfg limit ops s | ask (.done none)
      ask (.done (some (answer :: answers, s)))

variable {cfg : Config} {limit : Nat} {s : Session} {z : Zone} {m n : Nat}

theorem start_le_receiveAt (h : s.Tracks z m n) (hfill : s.buffer.fill ≠ 0) :
    s.engine.zoneStart.toNat ≤ s.engine.receiveAt.toNat := by
  have hreceive := h.receive_eq
  have hpending := h.pending (Nat.pos_of_ne_zero hfill)
  rw [Zone.limit] at hreceive
  rw [h.steady.zoneStart_eq]
  omega

theorem checkedCommitTail_eq (h : s.Tracks z m n) : s.checkedCommitTail = .ok s.commitTail := by
  rw [checkedCommitTail, commitTail]
  split
  · rfl
  rename_i hfill
  rw [h.ring.toLaid.checkedCommit_eq, ok_bind]
  cases s.buffer.commit with
  | none => rfl
  | some buffer =>
      dsimp only
      rw [Engine.checkedSkipPadding_eq (start_le_receiveAt h hfill), ok_bind, pure_eq_ok]

theorem checkedCommitImageTail_eq (h : s.Tracks z m n) :
    s.checkedCommitImageTail = .ok s.commitImageTail := by
  rw [checkedCommitImageTail, commitImageTail]
  split
  · exact checkedCommitTail_eq h
  · rfl

theorem checkedDownload_eq (h : s.Tracks z m n) {bytes : Bytes} (hcounted : bytes.length < 2 ^ 32) :
    s.checkedDownload cfg bytes = .ok (s.download cfg bytes) := by
  rw [checkedDownload, download]
  split
  · rfl
  rename_i hempty
  have hbytes : bytes ≠ [] := fun hnil => hempty (by rw [hnil]; rfl)
  rw [narrow_eq_ok hcounted, ok_bind]
  cases hadd : (s.engine.receiveAt.add? bytes.length).filter (· ≤ s.engine.zoneEnd) with
  | none => rfl
  | some receiveAt =>
      obtain ⟨hreceive, hinside⟩ := Address.filter_add?_eq_some_iff.1 hadd
      dsimp only
      rw [h.ring.checkedAppend_eq, ok_bind]
      cases happend : s.buffer.append bytes with
      | none => rfl
      | some buffer =>
          have hreceived := tracks_received h hbytes hinside hreceive happend
          dsimp only
          rw [checkedCommitTail_eq hreceived]
          split <;> rfl

theorem checkedUpload_eq (s : Session) (room requested : Nat) :
    s.checkedUpload room requested = ask (s.upload room requested) := by
  rw [checkedUpload, upload, ← uploadLength]
  split
  · rfl
  rename_i hlength
  have hroom : s.uploadLength room ≤ room := Nat.min_le_left _ _
  have hend := Address.toNat_lt s.engine.zoneEnd
  have hleft : s.engine.readAt.toNat + s.uploadLength room < 2 ^ 32 := by
    rw [uploadLength, Address.toNat_subSat] at hlength ⊢
    omega
  refine ask_bind fun _ _ _ => ?_
  rw [front_eq_ok hroom, check_ok_bind]
  refine ask_bind fun _ reply _ => ?_
  cases reply with
  | error fault => rfl
  | ok bytes =>
      dsimp only
      rw [advance_eq_ok hleft, check_ok_bind]
      rfl

section Zones

variable (hzones : ∀ zone ∈ cfg.zones.zones, zone.stop.toNat ≤ 0xFFFFF000)

include hzones

/-- The zone that is worked on ends where the table ends, or it is vacant. -/
theorem Located.stop_le (h : Located cfg s) :
    ∃ z m n, s.Tracks z m n ∧ z.stop.toNat ≤ 0xFFFFF000 := by
  obtain ⟨zone, z, m, n, hzone, rfl | rfl, htracks⟩ := h
  · exact ⟨z, m, n, htracks, hzones z (List.mem_of_getElem? hzone)⟩
  · exact ⟨.vacant, m, n, htracks, by decide⟩

theorem checkedStep_eq (h : Located cfg s) : s.checkedStep cfg = ask (s.step cfg) := by
  obtain ⟨z, m, n, htracks, hz⟩ := h.stop_le hzones
  rw [checkedStep, checkedCommitImageTail_eq htracks, check_ok_bind,
    (tracks_commitImageTail htracks).checkedTick_eq hz]
  exact ask_bind fun _ _ _ => rfl

theorem checkedTick_eq (h : Located cfg s) : s.checkedTick cfg = ask (s.tick cfg) := by
  rw [checkedTick, tick]
  split
  · rename_i hskip
    have hnext : s.skipped.toNat + 1 < 2 ^ 8 := by
      have hlt := UInt8.lt_iff_toNat_lt.1 hskip
      have hbound := cfg.skipTicks.toNat_lt
      omega
    have hcount : UInt8.ofNat (s.skipped.toNat + 1) = s.skipped + 1 := by
      rw [UInt8.ofNat_add, UInt8.ofNat_toNat]
      rfl
    rw [add_eq_ok hnext, check_ok_bind, hcount]
    rfl
  · exact checkedStep_eq hzones (s := { s with skipped := 0 }) h

theorem checkedDrain_eq (h : Located cfg s) (limit : Nat) :
    checkedDrain cfg limit s = ask (s.drain cfg limit) := by
  induction limit generalizing s with
  | zero => rfl
  | succ limit ih =>
      rw [checkedDrain, drain]
      split
      · rfl
      · rw [checkedStep_eq hzones h]
        exact ask_bind fun _ _ hends => ih ((steps_of_ends hends).located h)

theorem checkedManifest_eq (h : Located cfg s) :
    s.checkedManifest cfg limit = ask (s.manifest cfg limit) := by
  rw [checkedManifest, manifest]
  cases cfg.manifest with
  | drain =>
      dsimp only
      rw [checkedDrain_eq hzones (s := { s with state := .idle }) h]
      refine ask_bind fun _ drained _ => ?_
      cases drained <;> rfl
  | report =>
      obtain ⟨z, m, n, htracks, -⟩ := h.stop_le hzones
      dsimp only
      rw [checkedCommitImageTail_eq htracks, check_ok_bind]
      split <;> rfl

theorem checkedGetStatus_eq (h : Located cfg s) :
    s.checkedGetStatus cfg limit = ask (s.getStatus cfg limit) := by
  rw [checkedGetStatus]
  split
  · rename_i hstate
    rw [getStatus, hstate]
    exact checkedManifest_eq hzones h
  · rfl

theorem checkedPerform_eq (h : Located cfg s) {op : Operation} (hcounted : op.Counted) :
    s.checkedPerform cfg limit op = ask (s.perform cfg limit op) := by
  cases op with
  | download bytes =>
      obtain ⟨z, m, n, htracks, -⟩ := h.stop_le hzones
      rw [checkedPerform, checkedDownload_eq htracks hcounted, check_ok_bind]
      rfl
  | upload room requested =>
      rw [checkedPerform, checkedUpload_eq]
      exact ask_bind fun _ _ _ => rfl
  | getStatus =>
      rw [checkedPerform, checkedGetStatus_eq hzones h]
      refine ask_bind fun _ reply _ => ?_
      cases reply <;> rfl
  | tick =>
      rw [checkedPerform, checkedTick_eq hzones h]
      exact ask_bind fun _ _ _ => rfl
  | configured | selectAlt _ | request _ | fail _ | detach | clearStatus | getState | abort
  | busReset | poll => rfl

theorem verify_lt (h : Located cfg s) {op : Operation} {t : List Exchange}
    {r : Option (Answer × Session)} (hends : Ends (s.perform cfg limit op) t r)
    {e : Exchange} (he : e ∈ t) {start : Address} {wanted : Bytes}
    (hverify : e.command = .verify start wanted) : start.toNat + wanted.length < 2 ^ 32 := by
  obtain ⟨zone, _, _, _, hzone, -, -⟩ := id h
  have hstop := hzones zone (List.mem_of_getElem? hzone)
  have hconfined := (performs_of_ends hends).confined h hzone hstop
  obtain ⟨pre, post, rfl⟩ := List.append_of_mem he
  have hinside := (hconfined pre e post rfl (by rw [hverify]; trivial)).2
  rw [hverify, Command.Within] at hinside
  omega

theorem checkedPerformAll_eq (h : Located cfg s) {ops : List Operation}
    (hcounted : ∀ op ∈ ops, op.Counted) :
    checkedPerformAll cfg limit ops s = ask (performAll cfg limit ops s) := by
  induction ops generalizing s with
  | nil => rfl
  | cons op ops ih =>
      rw [List.forall_mem_cons] at hcounted
      rw [checkedPerformAll, performAll, checkedPerform_eq hzones h hcounted.1]
      refine ask_bind fun t reply hends => ?_
      obtain - | ⟨answer, s'⟩ := reply
      · rfl
      · dsimp only
        rw [ih ((performs_of_ends hends).located h) hcounted.2]
        refine ask_bind fun _ rest _ => ?_
        cases rest <;> rfl

/-- No list of operations on a reachable session traps, and no comparison that it asks for
would if the window were compared by reading it back. -/
theorem performAll_never_traps (hs : Reachable cfg s) {ops : List Operation}
    (hcounted : ∀ op ∈ ops, op.Counted) (limit : Nat) :
    checkedPerformAll cfg limit ops s = ask (performAll cfg limit ops s) ∧
      ∀ t r, Ends (performAll cfg limit ops s) t r → ∀ e ∈ t, ∀ start wanted,
        e.command = .verify start wanted →
          Guarded.readback start wanted = ask (Dialogue.readback start wanted) := by
  refine ⟨checkedPerformAll_eq hzones hs.located hcounted, ?_⟩
  intro t r hends e he start wanted hverify
  obtain ⟨s₁, op, t₁, r₁, hs₁, hop, he⟩ := hs.exists_perform_of_mem hends he
  exact readback_eq (verify_lt hzones hs₁.located hop he hverify)

end Zones

/-- One more byte behind half an image, and a tick that compares the block. -/
theorem performAll_never_traps_halfImage :
    ∃ t r start wanted,
      Reachable {} (halfImage {}) ∧
        Ends (performAll {} 0 [.download [0x42], .tick] (halfImage {})) t r ∧
        (∃ e ∈ t, e.command = .verify start wanted) ∧
        checkedPerformAll {} 0 [.download [0x42], .tick] (halfImage {}) =
          ask (performAll {} 0 [.download [0x42], .tick] (halfImage {})) ∧
        Guarded.readback start wanted = ask (Dialogue.readback start wanted) := by
  have hzones : ∀ zone ∈ ({} : Config).zones.zones, zone.stop.toNat ≤ 0xFFFFF000 := by decide
  have hcounted : ∀ op ∈ [Operation.download [0x42], .tick], op.Counted := by
    simp [Operation.Counted]
  have hreachable : Reachable {} (halfImage {}) := reachable_halfImage rfl
  let run := performAll {} 0 [.download [0x42], .tick] (halfImage {})
  let x : TimedFlash := ⟨⟨.internal, fun _ _ => 0xff⟩, 0, false⟩
  have hends : Ends run _ _ := ends_run (TimedFlash.chips 0) run x
  have hcompared : (run.trace (TimedFlash.chips 0) x).any (fun e => e.command.isVerify) = true := by
    decide +kernel
  obtain ⟨e, he, hverify⟩ := List.any_eq_true.1 hcompared
  obtain ⟨start, wanted, hcommand⟩ := Command.isVerify_iff.1 hverify
  obtain ⟨hsame, hreadback⟩ := performAll_never_traps hzones hreachable hcounted 0
  exact ⟨_, _, start, wanted, hreachable, hends, ⟨e, he, hcommand⟩, hsame,
    hreadback _ _ hends e he start wanted hcommand⟩

end Session

end DfuLoader
