import DfuLoader.Proofs.Address
import DfuLoader.Proofs.RingQueue
import DfuLoader.Proofs.TickCases
import DfuLoader.Session.Operation

/-!
# What an operation can do

The outcomes of every operation on a session, with the exchanges that lead to them,
as `Ticks` lists those of a tick. `Performs cfg limit s op t r` says that the operation
may hold the exchanges `t` and come out as `r`, where `none` stands for a status request
that stopped waiting. Every run of an operation is among them (`performs_of_ends`).
-/

namespace DfuLoader

namespace Session

open Dialogue

def received (s : Session) (buffer : BlockRing) (receiveAt : Address) : Session :=
  { s with
    buffer := buffer
    engine := { s.engine with receiveAt := receiveAt }
    endOfImage := false }

def closedIfShort (cfg : Config) (s : Session) (length : Nat) : Session :=
  if length < cfg.transferSize.toNat then s.commitTail else s

/-! What holds of a session, and of the session with its block under way committed, holds
where the block may have been committed. -/

theorem commitImageTail_of {P : Session → Prop} {s : Session} (tail : P s.commitTail)
    (same : P s) : P s.commitImageTail := by
  rw [commitImageTail]
  split
  · exact tail
  · exact same

theorem closedIfShort_of {P : Session → Prop} {cfg : Config} {s : Session} (tail : P s.commitTail)
    (same : P s) (length : Nat) : P (s.closedIfShort cfg length) := by
  rw [closedIfShort]
  split
  · exact tail
  · exact same

def uploadLength (s : Session) (room : Nat) : Nat :=
  min room (Address.subSat s.engine.zoneEnd s.engine.readAt).toNat

inductive Downloads (cfg : Config) (s : Session) (bytes : Bytes) :
    Except SessionError Unit → Session → Prop
  | ended (none_left : bytes = []) :
      Downloads cfg s bytes (.ok ()) { s with endOfImage := true, state := .manifestSync }
  | overflowed (some_left : bytes ≠ [])
      (past : s.engine.zoneEnd.toNat < s.engine.receiveAt.toNat + bytes.length) :
      Downloads cfg s bytes (.error .rangeOverflow) (s.fail .rangeOverflow)
  | crowded (some_left : bytes ≠ [])
      (inside : s.engine.receiveAt.toNat + bytes.length ≤ s.engine.zoneEnd.toNat)
      (full : s.buffer.room < bytes.length) :
      Downloads cfg s bytes (.error .protocolViolation) (s.fail .protocolViolation)
  | taken (some_left : bytes ≠ []) {receiveAt : Address} {buffer : BlockRing}
      (inside : receiveAt.toNat ≤ s.engine.zoneEnd.toNat)
      (receiveAt_eq : receiveAt.toNat = s.engine.receiveAt.toNat + bytes.length)
      (append : s.buffer.append bytes = some buffer) :
      Downloads cfg s bytes (.ok ())
        { (s.received buffer receiveAt).closedIfShort cfg bytes.length with state := .downloadSync }

inductive Uploads (s : Session) (room requested : Nat) :
    List Exchange → Except SessionError Bytes → Session → Prop
  | finished (none_left : s.uploadLength room = 0) :
      Uploads s room requested [] (.ok []) { s with state := .idle }
  | unread (some_left : s.uploadLength room ≠ 0) (fault : Fault) :
      Uploads s room requested
        [⟨.select s.engine.chip, ()⟩, ⟨.read s.engine.readAt (s.uploadLength room), .error fault⟩]
        (.error (.flash fault)) (s.fail (.flash fault))
  | read (some_left : s.uploadLength room ≠ 0) (bytes : Bytes.OfLength (s.uploadLength room)) :
      Uploads s room requested
        [⟨.select s.engine.chip, ()⟩, ⟨.read s.engine.readAt (s.uploadLength room), .ok bytes⟩]
        (.ok bytes.val)
        { s with
          engine := { s.engine with
            readAt := s.engine.readAt + UInt32.ofNat (s.uploadLength room) }
          state := if s.uploadLength room = requested then .uploadIdle else .idle }

inductive Steps (cfg : Config) (s : Session) : List Exchange → Tick → Session → Prop
  | step {t : List Exchange} {k : Tick} {q : Pipeline}
      (ticks : Pipeline.Ticks cfg s.commitImageTail.toPipeline t k q) :
      Steps cfg s t k (s.commitImageTail.withPipeline q)

inductive Drains (cfg : Config) : Nat → Session → List Exchange → Option Session → Prop
  | empty (limit : Nat) {s : Session} (empty : s.buffer.isEmpty = true) :
      Drains cfg limit s [] (some s)
  | exhausted {s : Session} (queued : s.buffer.isEmpty = false) : Drains cfg 0 s [] none
  | step {limit : Nat} {s s' : Session} {t t' : List Exchange} {k : Tick} {r : Option Session}
      (queued : s.buffer.isEmpty = false) (steps : Steps cfg s t k s')
      (rest : Drains cfg limit s' t' r) : Drains cfg (limit + 1) s (t ++ t') r

inductive Reports (cfg : Config) (limit : Nat) (s : Session) :
    List Exchange → Option (StatusReport × Session) → Prop
  | ready (state : s.state = .downloadSync) (free : s.buffer.committed < 2) :
      Reports cfg limit s []
        (some (s.report cfg .downloadIdle, { s with state := .downloadIdle }))
  | crowded (state : s.state = .downloadSync) (full : ¬s.buffer.committed < 2) :
      Reports cfg limit s [] (some (s.report cfg .downloadBusy, s))
  | drained (state : s.state = .manifestSync) (policy : cfg.manifest = .drain)
      {t : List Exchange} {s' : Session}
      (drains : Drains cfg limit { s with state := .idle } t (some s')) :
      Reports cfg limit s t (some ((s'.rewind cfg).report cfg .idle, s'.rewind cfg))
  | waiting (state : s.state = .manifestSync) (policy : cfg.manifest = .drain)
      {t : List Exchange} (drains : Drains cfg limit { s with state := .idle } t none) :
      Reports cfg limit s t none
  | finished (state : s.state = .manifestSync) (policy : cfg.manifest = .report)
      (empty : s.commitImageTail.buffer.isEmpty = true) :
      Reports cfg limit s []
        (some (({ s.commitImageTail with state := .idle }.rewind cfg).report cfg .idle,
          { s.commitImageTail with state := .idle }.rewind cfg))
  | manifesting (state : s.state = .manifestSync) (policy : cfg.manifest = .report)
      (queued : s.commitImageTail.buffer.isEmpty = false) :
      Reports cfg limit s [] (some (s.commitImageTail.report cfg .manifest, s.commitImageTail))
  | other (sync : s.state ≠ .downloadSync) (manifest : s.state ≠ .manifestSync) :
      Reports cfg limit s [] (some (s.report cfg s.state, s))

def restarted (cfg : Config) (s : Session) : Session :=
  { s with
    state := .appDetach
    status := .ok
    skipped := 0
    endOfImage := false
    detachPending := false
    buffer := s.buffer.clear
    engine := .unloaded cfg.maxAttempts }

def loaded (cfg : Config) (s : Session) (alt : UInt8) (zone : Zone) : Session :=
  { s with
    alt := alt
    buffer := s.buffer.clear
    engine := .loaded zone cfg.maxAttempts
    endOfImage := false
    state := .idle
    status := .ok }

/-- No request has the code, or the state does not serve the one that has. -/
def Unserved (s : Session) (code : UInt8) : Prop :=
  ∀ r, Request.ofCode? code = some r → s.state.allows r = false

inductive Performs (cfg : Config) (limit : Nat) (s : Session) :
    Operation → List Exchange → Option (Answer × Session) → Prop
  | configured {zone : Zone} (state : s.state = .appDetach)
      (known : cfg.zones.get? 0 = some zone) :
      Performs cfg limit s .configured [] (some (.quiet, s.loaded cfg 0 zone))
  | unconfigured : Performs cfg limit s .configured [] (some (.quiet, s))
  | selected {alt : UInt8} {zone : Zone} (known : cfg.zones.get? alt = some zone) :
      Performs cfg limit s (.selectAlt alt) [] (some (.selected true, s.loaded cfg alt zone))
  | unselected {alt : UInt8} (unknown : cfg.zones.get? alt = none) :
      Performs cfg limit s (.selectAlt alt) [] (some (.selected false, s))
  | allowed (code : UInt8) (r : Request) :
      Performs cfg limit s (.request code) [] (some (.requested (.ok r), s))
  | refused (code : UInt8) :
      Performs cfg limit s (.request code) []
        (some (.requested (.error .protocolViolation), s.fail .protocolViolation))
  | fail (e : SessionError) :
      Performs cfg limit s (.fail e) [] (some (.failed e, s.fail e))
  | detach : Performs cfg limit s .detach [] (some (.quiet, s.detach))
  | download {bytes : Bytes} {x : Except SessionError Unit} {s' : Session}
      (downloads : Downloads cfg s bytes x s') :
      Performs cfg limit s (.download bytes) [] (some (.downloaded x, s'))
  | upload {room requested : Nat} {t : List Exchange} {x : Except SessionError Bytes}
      {s' : Session} (uploads : Uploads s room requested t x s') :
      Performs cfg limit s (.upload room requested) t (some (.uploaded x, s'))
  | reported {t : List Exchange} {report : StatusReport} {s' : Session}
      (reports : Reports cfg limit s t (some (report, s'))) :
      Performs cfg limit s .getStatus t (some (.reported report, s'))
  | unreported {t : List Exchange} (reports : Reports cfg limit s t none) :
      Performs cfg limit s .getStatus t none
  | clearStatus : Performs cfg limit s .clearStatus [] (some (.quiet, s.clearStatus))
  | getState : Performs cfg limit s .getState [] (some (.state s.state, s))
  | abort : Performs cfg limit s .abort [] (some (.quiet, s.abort))
  | unreset (state : s.state = .appDetach) :
      Performs cfg limit s .busReset [] (some (.quiet, s))
  | reset (state : s.state ≠ .appDetach) :
      Performs cfg limit s .busReset [⟨.reboot, ()⟩] (some (.quiet, s.restarted cfg))
  | polled (pending : s.detachPending = false) :
      Performs cfg limit s .poll [] (some (.quiet, s))
  | detached (pending : s.detachPending = true) :
      Performs cfg limit s .poll [⟨.reboot, ()⟩]
        (some (.quiet, { s with detachPending := false }))
  | throttled (skip : s.skipped < cfg.skipTicks) :
      Performs cfg limit s .tick []
        (some (.ticked .throttled, { s with skipped := s.skipped + 1 }))
  | ticked (due : ¬s.skipped < cfg.skipTicks) {t : List Exchange} {k : Tick} {s' : Session}
      (steps : Steps cfg { s with skipped := 0 } t k s') :
      Performs cfg limit s .tick t (some (.ticked k, s'))

variable {cfg : Config} {limit : Nat} {s s' : Session} {t : List Exchange}

theorem request_of_allows {code : UInt8} {r : Request} (hcode : Request.ofCode? code = some r)
    (h : s.state.allows r = true) : s.request code = (.ok r, s) := by
  rw [request, hcode]
  exact if_pos h

theorem request_of_unserved {code : UInt8} (h : s.Unserved code) :
    s.request code = (.error .protocolViolation, s.fail .protocolViolation) := by
  rw [request]
  cases hcode : Request.ofCode? code with
  | none => rfl
  | some r => exact if_neg (by simp [h r hcode])

theorem allows_or_unserved (s : Session) (code : UInt8) :
    (∃ r, Request.ofCode? code = some r ∧ s.state.allows r = true) ∨ s.Unserved code := by
  by_cases h : ∃ r, Request.ofCode? code = some r ∧ s.state.allows r = true
  · exact .inl h
  · refine .inr fun r hcode => ?_
    by_contra hallows
    exact h ⟨r, hcode, by simpa using hallows⟩

theorem downloads_of_eq {bytes : Bytes} {x : Except SessionError Unit}
    (h : s.download cfg bytes = (x, s')) : Downloads cfg s bytes x s' := by
  rw [download] at h
  by_cases hbytes : bytes = []
  · subst hbytes
    cases h
    exact .ended rfl
  rw [if_neg (by simpa using hbytes)] at h
  cases hadd : (s.engine.receiveAt.add? bytes.length).filter (· ≤ s.engine.zoneEnd) with
  | none =>
      rw [hadd] at h
      cases h
      exact .overflowed hbytes (Address.filter_add?_eq_none_iff.1 hadd)
  | some receiveAt =>
      rw [hadd] at h
      obtain ⟨hreceive, hinside⟩ := Address.filter_add?_eq_some_iff.1 hadd
      cases happend : s.buffer.append bytes with
      | none =>
          rw [happend] at h
          cases h
          refine .crowded hbytes (by omega) ?_
          by_contra hroom
          obtain ⟨buffer, hbuffer⟩ := BlockRing.append_eq_some_iff.2 (not_lt.1 hroom)
          rw [happend] at hbuffer
          cases hbuffer
      | some buffer =>
          rw [happend] at h
          cases h
          exact .taken hbytes hinside hreceive happend

theorem exists_taken (cfg : Config) {bytes : Bytes} (some_left : bytes ≠ [])
    (inside : s.engine.receiveAt.toNat + bytes.length ≤ s.engine.zoneEnd.toNat)
    (room : bytes.length ≤ s.buffer.room) :
    ∃ receiveAt buffer, receiveAt.toNat ≤ s.engine.zoneEnd.toNat ∧
      receiveAt.toNat = s.engine.receiveAt.toNat + bytes.length ∧
      s.buffer.append bytes = some buffer ∧ s.download cfg bytes =
        (.ok (), { (s.received buffer receiveAt).closedIfShort cfg bytes.length with
          state := .downloadSync }) := by
  obtain ⟨x, s', hdownload⟩ : ∃ x s', s.download cfg bytes = (x, s') := ⟨_, _, rfl⟩
  rw [hdownload]
  cases downloads_of_eq hdownload with
  | ended none_left => exact absurd none_left some_left
  | overflowed _ past => exact absurd past (not_lt.2 inside)
  | crowded _ _ full => exact absurd full (not_lt.2 room)
  | taken _ inside receiveAt_eq append => exact ⟨_, _, inside, receiveAt_eq, append, rfl⟩

theorem uploads_of_ends {room requested : Nat} {x : Except SessionError Bytes}
    (h : Ends (s.upload room requested) t (x, s')) : Uploads s room requested t x s' := by
  rw [upload, ← uploadLength] at h
  by_cases hlength : s.uploadLength room = 0
  · rw [if_pos hlength] at h
    cases h
    exact .finished hlength
  rw [if_neg hlength, Dialogue.select, command, ask_bind, ends_ask] at h
  obtain ⟨_, t', rfl, h⟩ := h
  rw [done_bind, ends_bind] at h
  obtain ⟨t₁, t₂, reply, rfl, hread, h⟩ := h
  rw [Dialogue.read, ends_command] at hread
  subst hread
  cases reply with
  | error fault =>
      cases h
      exact .unread hlength fault
  | ok bytes =>
      cases h
      exact .read hlength bytes

theorem exists_ends_upload (room requested : Nat) (hlength : s.uploadLength room ≠ 0)
    (bytes : Bytes.OfLength (s.uploadLength room)) :
    ∃ r, Ends (s.upload room requested) [⟨.select s.engine.chip, ()⟩,
      ⟨.read s.engine.readAt (s.uploadLength room), .ok bytes⟩] r := by
  rw [upload, ← uploadLength, if_neg hlength]
  exact ⟨_, .ask (.select s.engine.chip) _ ()
    (.ask (.read s.engine.readAt (s.uploadLength room)) _ (.ok bytes) (.done _))⟩

theorem steps_of_ends {k : Tick} (h : Ends (s.step cfg) t (k, s')) : Steps cfg s t k s' := by
  rw [step, ends_bind] at h
  obtain ⟨t₁, t₂, ⟨k', q⟩, rfl, hticks, h⟩ := h
  cases h
  rw [List.append_nil]
  exact .step (Pipeline.ends_tick.1 hticks)

theorem Steps.ends {k : Tick} (h : Steps cfg { s with skipped := 0 } t k s')
    (due : ¬s.skipped < cfg.skipTicks) (limit : Nat) :
    Ends (s.perform cfg limit .tick) t (some (.ticked k, s')) := by
  cases h with
  | step ticks =>
      have hstep : Ends ({ s with skipped := 0 }.step cfg) (t ++ []) (k, _) :=
        ends_bind.2 ⟨t, [], _, rfl, Pipeline.ends_tick.2 ticks, .done _⟩
      rw [perform, Session.tick, if_neg due]
      rw [List.append_nil] at hstep
      exact ends_bind.2 ⟨t, [], _, (List.append_nil t).symm, hstep, .done _⟩

theorem toNat_skipped_add_one (h : s.skipped < cfg.skipTicks) :
    (s.skipped + 1).toNat = s.skipped.toNat + 1 := by
  have hlt := UInt8.lt_iff_toNat_lt.1 h
  have hbound := cfg.skipTicks.toNat_lt
  rw [UInt8.toNat_add, UInt8.toNat_one]
  omega

/-- Ticks are only skipped so often: what a skipped tick keeps is also so when one is due. -/
theorem exists_due (cfg : Config) {P : Session → Prop} (h : P s)
    (hskip : ∀ s s', P s → Ends (s.perform cfg 0 .tick) [] (some (.ticked .throttled, s')) → P s') :
    ∃ skipped, P { s with skipped := skipped } ∧ ¬skipped < cfg.skipTicks := by
  generalize hgap : cfg.skipTicks.toNat - s.skipped.toNat = gap
  induction gap generalizing s with
  | zero =>
      refine ⟨s.skipped, h, ?_⟩
      rw [UInt8.lt_iff_toNat_lt]
      omega
  | succ gap ih =>
      have hlt : s.skipped < cfg.skipTicks := by
        rw [UInt8.lt_iff_toNat_lt]
        omega
      have hthrottled : Ends (s.perform cfg 0 .tick) []
          (some (.ticked .throttled, { s with skipped := s.skipped + 1 })) := by
        rw [perform, Session.tick, if_pos hlt]
        exact .done _
      have hnext := toNat_skipped_add_one hlt
      refine ih (s := { s with skipped := s.skipped + 1 }) (hskip s _ h hthrottled) ?_
      change cfg.skipTicks.toNat - (s.skipped + 1).toNat = gap
      omega

theorem download_nil (cfg : Config) (s : Session) :
    s.download cfg [] = (.ok (), { s with endOfImage := true, state := .manifestSync }) := rfl

theorem ends_download (cfg : Config) (limit : Nat) (s : Session) (bytes : Bytes) :
    Ends (s.perform cfg limit (.download bytes)) []
      (some (.downloaded (s.download cfg bytes).1, (s.download cfg bytes).2)) :=
  .done _

theorem ends_download_nil (cfg : Config) (limit : Nat) (s : Session) :
    Ends (s.perform cfg limit (.download [])) []
      (some (.downloaded (.ok ()), { s with endOfImage := true, state := .manifestSync })) :=
  .done _

theorem selectAlt_eq_some_iff {alt : UInt8} :
    s.selectAlt cfg alt = some s' ↔
      ∃ zone, cfg.zones.get? alt = some zone ∧ s' = s.loaded cfg alt zone := by
  rw [selectAlt, Option.map_eq_some_iff]
  constructor
  · rintro ⟨zone, hzone, rfl⟩
    exact ⟨zone, hzone, rfl⟩
  · rintro ⟨zone, hzone, rfl⟩
    exact ⟨zone, hzone, rfl⟩

theorem drains_of_ends {r : Option Session} (h : Ends (s.drain cfg limit) t r) :
    Drains cfg limit s t r := by
  induction limit generalizing s t with
  | zero =>
      rw [drain] at h
      cases hempty : s.buffer.isEmpty with
      | true =>
          rw [hempty] at h
          cases h
          exact .empty 0 hempty
      | false =>
          rw [hempty] at h
          cases h
          exact .exhausted hempty
  | succ limit ih =>
      rw [drain] at h
      cases hempty : s.buffer.isEmpty with
      | true =>
          rw [hempty] at h
          cases h
          exact .empty _ hempty
      | false =>
          rw [hempty, if_neg (by simp), ends_bind] at h
          obtain ⟨t₁, t₂, ⟨k, s'⟩, rfl, hstep, hrest⟩ := h
          exact .step hempty (steps_of_ends hstep) (ih hrest)

theorem reports_of_ends {r : Option (StatusReport × Session)}
    (h : Ends (s.getStatus cfg limit) t r) : Reports cfg limit s t r := by
  rw [getStatus] at h
  by_cases hsync : s.state = .downloadSync
  · rw [hsync] at h
    by_cases hfree : s.buffer.committed < 2
    · simp only [if_pos hfree] at h
      cases h
      exact .ready hsync hfree
    · simp only [if_neg hfree] at h
      cases h
      exact .crowded hsync hfree
  by_cases hmanifest : s.state = .manifestSync
  · rw [hmanifest] at h
    change Ends (s.manifest cfg limit) t r at h
    rw [manifest] at h
    cases hpolicy : cfg.manifest with
    | drain =>
        rw [hpolicy] at h
        simp only [ends_bind] at h
        obtain ⟨t₁, t₂, r', rfl, hdrain, h⟩ := h
        have hdrains := drains_of_ends hdrain
        cases r' with
        | none =>
            cases h
            rw [List.append_nil]
            exact .waiting hmanifest hpolicy hdrains
        | some s' =>
            cases h
            rw [List.append_nil]
            exact .drained hmanifest hpolicy hdrains
    | report =>
        rw [hpolicy] at h
        cases hempty : s.commitImageTail.buffer.isEmpty with
        | true =>
            simp only [hempty, if_true] at h
            cases h
            exact .finished hmanifest hpolicy hempty
        | false =>
            simp only [hempty] at h
            cases h
            exact .manifesting hmanifest hpolicy hempty
  have hother : Ends (pure (some (s.report cfg s.state, s)) : Dialogue _) t r := by
    cases hstate : s.state <;> simp_all
  cases hother
  exact .other hsync hmanifest

theorem performs_of_ends {op : Operation} {r : Option (Answer × Session)}
    (h : Ends (s.perform cfg limit op) t r) : Performs cfg limit s op t r := by
  cases op with
  | configured =>
      cases h
      rw [Session.configured]
      split
      · rename_i hstate
        rw [selectAlt]
        cases hzone : cfg.zones.get? 0 with
        | none => exact .unconfigured
        | some zone => exact .configured hstate hzone
      · exact .unconfigured
  | selectAlt alt =>
      rw [perform, selectAlt] at h
      cases hzone : cfg.zones.get? alt with
      | none =>
          rw [hzone] at h
          cases h
          exact .unselected hzone
      | some zone =>
          rw [hzone] at h
          cases h
          exact .selected hzone
  | request code =>
      rw [perform] at h
      obtain ⟨r, hcode, hallows⟩ | hunserved := s.allows_or_unserved code
      · rw [request_of_allows hcode hallows] at h
        cases h
        exact .allowed code r
      · rw [request_of_unserved hunserved] at h
        cases h
        exact .refused code
  | fail e =>
      cases h
      exact .fail e
  | detach =>
      cases h
      exact .detach
  | download bytes =>
      cases h
      exact .download (downloads_of_eq rfl)
  | upload room requested =>
      rw [perform, ends_bind] at h
      obtain ⟨t₁, t₂, ⟨x, s'⟩, rfl, hupload, h⟩ := h
      cases h
      rw [List.append_nil]
      exact .upload (uploads_of_ends hupload)
  | getStatus =>
      rw [perform, ends_bind] at h
      obtain ⟨t₁, t₂, r', rfl, hstatus, h⟩ := h
      cases r' with
      | none =>
          cases h
          rw [List.append_nil]
          exact .unreported (reports_of_ends hstatus)
      | some r' =>
          cases h
          rw [List.append_nil]
          exact .reported (reports_of_ends hstatus)
  | clearStatus =>
      cases h
      exact .clearStatus
  | getState =>
      cases h
      exact .getState
  | abort =>
      cases h
      exact .abort
  | busReset =>
      rw [perform, Session.busReset] at h
      split at h
      · rename_i hstate
        cases h
        exact .unreset hstate
      · rename_i hstate
        rw [reboot, command, ask_bind, ask_bind, ends_ask] at h
        obtain ⟨_, t', rfl, h⟩ := h
        cases h
        exact .reset hstate
  | poll =>
      rw [perform, Session.poll] at h
      split at h
      · rename_i hpending
        rw [reboot, command, ask_bind, ask_bind, ends_ask] at h
        obtain ⟨_, t', rfl, h⟩ := h
        cases h
        exact .detached hpending
      · rename_i hpending
        cases h
        exact .polled (Bool.not_eq_true _ ▸ hpending)
  | tick =>
      rw [perform, ends_bind] at h
      obtain ⟨t₁, t₂, ⟨k, s'⟩, rfl, htick, h⟩ := h
      cases h
      rw [List.append_nil]
      rw [Session.tick] at htick
      split at htick
      · rename_i hskip
        cases htick
        exact .throttled hskip
      · rename_i hdue
        exact .ticked hdue (steps_of_ends htick)

end Session

end DfuLoader
