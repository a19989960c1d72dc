import DfuLoader.Proofs.ProtocolStates

/-!
# Loading a zone

A zone is loaded when the device is configured, when the host selects one, and when an image is
written. A session that is open for data should be on the zone of its alternate setting then
(`Ready`), but there is a way around all three: a request that is refused before the device is
configured takes the session to the error state, from which the host may clear the status, and
the session is idle with no zone (`Vacant`). The device being configured does nothing then, and
every byte of a download is past the end. There is no other way: on a run with no such request,
whatever is open is ready. And the way is open on every board, so all sessions are ready only
where there is nothing to load (`loadsZones_iff`).
-/

namespace DfuLoader

structure Engine.On (e : Engine) (zone : Zone) : Prop where
  zoneStart_eq : e.zoneStart = zone.start
  zoneEnd_eq : e.zoneEnd = zone.stop
  chip_eq : e.chip = zone.chip

theorem Engine.On.of_tracks {z zone : Zone} {m n m' n' : Nat} {p q : Pipeline}
    (hon : p.engine.On zone) (hp : p.Tracks z m n) (hq : q.Tracks z m' n') : q.engine.On zone where
  zoneStart_eq := by rw [hq.steady.zoneStart_eq, ← hp.steady.zoneStart_eq, hon.zoneStart_eq]
  zoneEnd_eq := by rw [hq.steady.zoneEnd_eq, ← hp.steady.zoneEnd_eq, hon.zoneEnd_eq]
  chip_eq := by rw [hq.steady.chip_eq, ← hp.steady.chip_eq, hon.chip_eq]

namespace Session

open Dialogue Relation

def Open (s : Session) : Prop :=
  s.state.allows .download = true ∨ s.state.allows .upload = true

def OnZone (cfg : Config) (s : Session) : Prop :=
  ∃ zone, cfg.zones.get? s.alt = some zone ∧ s.engine.On zone

def Operation.Feeds : Operation → Prop
  | .download bytes => bytes ≠ []
  | _ => False

/-- The session was not fed since its engine was last loaded, be it with no zone. -/
inductive Unfed (cfg : Config) : Session → Prop
  | loaded {s : Session} {zone : Zone} (reachable : Reachable cfg s)
      (engine : s.engine = .loaded zone cfg.maxAttempts) (empty : s.buffer.isEmpty = true) :
      Unfed cfg s
  | perform {s s' : Session} {limit : Nat} {op : Operation} {t : List Exchange} {a : Answer}
      (unfed : Unfed cfg s) (quiet : ¬op.Feeds)
      (ends : Ends (s.perform cfg limit op) t (some (a, s'))) : Unfed cfg s'

/-- The session is on the zone of its alternate setting, and the first download is not refused
for its range if it ends in that zone. -/
def Ready (cfg : Config) (s : Session) : Prop :=
  ∃ zone, cfg.zones.get? s.alt = some zone ∧ s.engine.On zone ∧
    (Unfed cfg s → ∀ bytes : Bytes, zone.start.toNat + bytes.length ≤ zone.stop.toNat →
      (s.download cfg bytes).1 ≠ .error .rangeOverflow)

/-- No zone is loaded and nothing is queued. -/
structure Vacant (cfg : Config) (s : Session) : Prop where
  engine_eq : s.engine = .unloaded cfg.maxAttempts
  empty : s.buffer.isEmpty = true
  state : s.state = .appDetach ∨ s.state = .idle ∨ s.state = .manifestSync ∨ s.state = .error

variable {cfg : Config} {limit : Nat} {s s' : Session} {t : List Exchange}

/-! Until it is fed, a session receives at the start of its zone. -/

structure Blank (s : Session) : Prop where
  receiveAt_eq : s.engine.receiveAt = s.engine.zoneStart
  empty : s.buffer.isEmpty = true

theorem Blank.rewind (hs : s.Blank) : (s.rewind cfg).Blank := by
  refine ⟨?_, hs.empty⟩
  rw [Session.rewind]
  dsimp only
  split
  · rfl
  · exact hs.receiveAt_eq

theorem Steps.blank {k : Tick} (h : Steps cfg s t k s') (hlocated : Located cfg s)
    (hs : s.Blank) : s'.Blank := by
  rw [(h.eq_of_isEmpty hlocated hs.empty).2.2]
  exact hs

theorem Reports.blank {report : StatusReport} (h : Reports cfg limit s t (some (report, s')))
    (hlocated : Located cfg s) (hs : s.Blank) : s'.Blank := by
  cases h with
  | ready state free => exact ⟨hs.receiveAt_eq, hs.empty⟩
  | drained state policy drains =>
      obtain ⟨⟨-, hdrained⟩, -⟩ := drains.preserves (P := fun s => Located cfg s ∧ s.Blank)
        (fun steps h => ⟨steps.located h.1, steps.blank h.1 h.2⟩)
        ⟨hlocated, hs.receiveAt_eq, hs.empty⟩ rfl
      exact hdrained.rewind
  | finished state policy empty =>
      rw [commitImageTail_of_isEmpty hs.empty]
      exact Blank.rewind ⟨hs.receiveAt_eq, hs.empty⟩
  | manifesting state policy queued =>
      rw [commitImageTail_of_isEmpty hs.empty]
      exact hs
  | crowded _ _ | other _ _ => exact hs

theorem Performs.blank {op : Operation} {a : Answer}
    (h : Performs cfg limit s op t (some (a, s'))) (quiet : ¬op.Feeds) (hlocated : Located cfg s)
    (hs : s.Blank) : s'.Blank := by
  cases h with
  | configured state known => exact ⟨rfl, BlockRing.isEmpty_clear _⟩
  | selected known => exact ⟨rfl, BlockRing.isEmpty_clear _⟩
  | reset state => exact ⟨rfl, BlockRing.isEmpty_clear _⟩
  | @download bytes _ _ downloads =>
      obtain rfl : bytes = [] := not_not.1 quiet
      cases downloads with
      | ended none_left => exact ⟨hs.receiveAt_eq, hs.empty⟩
      | overflowed some_left past => exact absurd rfl some_left
      | crowded some_left inside full => exact absurd rfl some_left
      | taken some_left inside receiveAt_eq append => exact absurd rfl some_left
  | upload uploads => cases uploads <;> exact ⟨hs.receiveAt_eq, hs.empty⟩
  | reported reports => exact reports.blank hlocated hs
  | ticked due steps => exact steps.blank hlocated ⟨hs.receiveAt_eq, hs.empty⟩
  | unconfigured | unselected _ | allowed _ _ | refused _ | fail _ | detach | clearStatus
  | getState | abort | unreset _ | polled _ | detached _ | throttled _ =>
      exact ⟨hs.receiveAt_eq, hs.empty⟩

theorem Unfed.blank (h : Unfed cfg s) : Reachable cfg s ∧ s.Blank := by
  induction h with
  | @loaded s zone reachable engine empty =>
      refine ⟨reachable, ?_, empty⟩
      rw [engine]
      rfl
  | perform _ quiet ends ih =>
      exact ⟨.perform ih.1 ends, (performs_of_ends ends).blank quiet ih.1.located ih.2⟩

theorem OnZone.ready (h : OnZone cfg s) : Ready cfg s := by
  obtain ⟨zone, hzone, hon⟩ := h
  refine ⟨zone, hzone, hon, ?_⟩
  intro hunfed bytes hinside hrefused
  have hreceive := hunfed.blank.2.receiveAt_eq
  obtain ⟨x, s', hdownload⟩ : ∃ x s', s.download cfg bytes = (x, s') := ⟨_, _, rfl⟩
  rw [hdownload] at hrefused
  have hdownloads := downloads_of_eq hdownload
  cases hdownloads with
  | overflowed some_left past =>
      rw [hreceive, hon.zoneStart_eq, hon.zoneEnd_eq] at past
      omega
  | ended _ | crowded _ _ _ | taken _ _ _ _ => cases hrefused

/-! A session stays on its zone until the bus is reset. -/

theorem OnZone.of_eq (hs : OnZone cfg s) (halt : s'.alt = s.alt)
    (hengine : ∃ receiveAt readAt,
      s'.engine = { s.engine with receiveAt := receiveAt, readAt := readAt }) :
    OnZone cfg s' := by
  obtain ⟨zone, hzone, hon⟩ := hs
  obtain ⟨_, _, hengine⟩ := hengine
  refine ⟨zone, by rw [halt, hzone], ?_⟩
  rw [hengine]
  exact ⟨hon.zoneStart_eq, hon.zoneEnd_eq, hon.chip_eq⟩

theorem onZone_loaded {alt : UInt8} {zone : Zone} (hzone : cfg.zones.get? alt = some zone)
    (s : Session) : OnZone cfg (s.loaded cfg alt zone) := ⟨zone, hzone, rfl, rfl, rfl⟩

theorem Located.onZone_rewind (hs : Located cfg s) : OnZone cfg (s.rewind cfg) := by
  obtain ⟨zone, _, _, _, hzone, -, -⟩ := hs
  refine ⟨zone, hzone, ?_⟩
  simp only [Session.rewind, hzone]
  exact ⟨rfl, rfl, rfl⟩

/-- An image that is written leaves the zone loaded again. -/
theorem Drains.onZone_rewind (h : Drains cfg limit s t (some s')) (hs : Located cfg s) :
    OnZone cfg (s'.rewind cfg) :=
  (h.preserves (P := Located cfg) Steps.located hs rfl).1.onZone_rewind

theorem OnZone.commitImageTail (hs : OnZone cfg s) : OnZone cfg s.commitImageTail := by
  obtain ⟨receiveAt, hengine⟩ := s.engine_commitImageTail
  exact hs.of_eq s.commitImageTail_fields.1 ⟨receiveAt, s.engine.readAt, hengine⟩

theorem Steps.onZone {k : Tick} (h : Steps cfg s t k s') (hlocated : Located cfg s)
    (hs : OnZone cfg s) : OnZone cfg s' := by
  obtain ⟨zone, hzone, hon⟩ := hs
  obtain ⟨_, _, _, _, -, -, htracks⟩ := hlocated
  exact ⟨zone, by rw [h.fields.1, hzone], hon.of_tracks htracks (h.tracks htracks)⟩

theorem Downloads.onZone {bytes : Bytes} {x : Except SessionError Unit}
    (h : Downloads cfg s bytes x s') (hs : OnZone cfg s) : OnZone cfg s' := by
  cases h with
  | ended _ | overflowed _ _ | crowded _ _ _ => exact hs
  | @taken some_left receiveAt buffer inside receiveAt_eq append =>
      obtain ⟨_, hengine⟩ := engine_closedIfShort cfg (s.received buffer receiveAt) bytes.length
      exact hs.of_eq (closedIfShort_fields _ _).1 ⟨_, _, hengine⟩

theorem Reports.onZone {report : StatusReport} (h : Reports cfg limit s t (some (report, s')))
    (hlocated : Located cfg s) (hs : OnZone cfg s) : OnZone cfg s' := by
  cases h with
  | drained state policy drains => exact drains.onZone_rewind hlocated
  | finished state policy empty => exact Located.onZone_rewind hlocated.commitImageTail
  | manifesting state policy queued => exact hs.commitImageTail
  | ready _ _ | crowded _ _ | other _ _ => exact hs

theorem vacant_restarted (cfg : Config) (s : Session) : Vacant cfg (s.restarted cfg) :=
  ⟨rfl, BlockRing.isEmpty_clear _, .inl rfl⟩

/-- Only a reset takes a session off its zone. -/
theorem Performs.onZone {op : Operation} {a : Answer}
    (h : Performs cfg limit s op t (some (a, s'))) (hlocated : Located cfg s)
    (hs : OnZone cfg s) : OnZone cfg s' ∨ Vacant cfg s' ∧ s'.state = .appDetach := by
  cases h with
  | configured state known => exact .inl (onZone_loaded known s)
  | selected known => exact .inl (onZone_loaded known s)
  | download downloads => exact .inl (downloads.onZone hs)
  | upload uploads =>
      refine .inl ?_
      cases uploads with
      | finished _ | unread _ _ => exact hs
      | read some_left bytes => exact hs.of_eq rfl ⟨_, _, rfl⟩
  | reported reports => exact .inl (reports.onZone hlocated hs)
  | reset state => exact .inr ⟨vacant_restarted cfg s, rfl⟩
  | ticked due steps => exact .inl (steps.onZone hlocated hs)
  | unconfigured | unselected _ | allowed _ _ | refused _ | fail _ | detach | clearStatus
  | getState | abort | unreset _ | polled _ | detached _ | throttled _ => exact .inl hs

/-! With no zone there is nothing to receive or to read, until a zone is loaded. -/

theorem Vacant.zoneEnd_lt (hs : Vacant cfg s) {bytes : Bytes} (hbytes : bytes ≠ []) :
    s.engine.zoneEnd.toNat < s.engine.receiveAt.toNat + bytes.length := by
  rw [hs.engine_eq]
  have hpos := List.length_pos_iff.2 hbytes
  change 0 < 0 + bytes.length
  omega

theorem Vacant.uploadLength_eq (hs : Vacant cfg s) (room : Nat) : s.uploadLength room = 0 := by
  rw [uploadLength, hs.engine_eq]
  exact Nat.min_zero room

theorem Vacant.download_eq (hs : Vacant cfg s) {bytes : Bytes} (hbytes : bytes ≠ []) :
    s.download cfg bytes = (.error .rangeOverflow, s.fail .rangeOverflow) := by
  obtain ⟨x, s', hdownload⟩ : ∃ x s', s.download cfg bytes = (x, s') := ⟨_, _, rfl⟩
  have hpast := hs.zoneEnd_lt hbytes
  have hdownloads := downloads_of_eq hdownload
  rw [hdownload]
  cases hdownloads with
  | overflowed some_left past => rfl
  | ended none_left => exact absurd none_left hbytes
  | crowded some_left inside full => omega
  | taken some_left inside receiveAt_eq append => omega

theorem Vacant.upload_eq (hs : Vacant cfg s) (room requested : Nat) :
    s.upload room requested = .done (.ok [], { s with state := .idle }) := by
  have hlength := hs.uploadLength_eq room
  rw [uploadLength] at hlength
  rw [upload, if_pos hlength]
  rfl

theorem Vacant.of_state (hs : Vacant cfg s) (hpipeline : s'.toPipeline = s.toPipeline)
    (hstate : s'.state = .idle ∨ s'.state = .manifestSync ∨ s'.state = .error) :
    Vacant cfg s' := by
  obtain ⟨_, _, _, _, _, _, _⟩ := s'
  cases hpipeline
  exact ⟨hs.engine_eq, hs.empty, .inr hstate⟩

theorem Downloads.vacant {bytes : Bytes} {x : Except SessionError Unit}
    (h : Downloads cfg s bytes x s') (hs : Vacant cfg s) : Vacant cfg s' := by
  cases h with
  | ended none_left => exact hs.of_state rfl (.inr (.inl rfl))
  | overflowed some_left past => exact hs.of_state rfl (.inr (.inr rfl))
  | crowded some_left inside full => exact hs.of_state rfl (.inr (.inr rfl))
  | taken some_left inside receiveAt_eq append =>
      have hpast := hs.zoneEnd_lt some_left
      omega

/-- A status request loads the zone if it ends an image, and otherwise changes nothing. -/
theorem Reports.vacant {report : StatusReport} (h : Reports cfg limit s t (some (report, s')))
    (hlocated : Located cfg s) (hs : Vacant cfg s) : OnZone cfg s' ∨ s' = s := by
  have hsync : s.state ≠ .downloadSync := by
    rcases hs.state with hstate | hstate | hstate | hstate <;> simp [hstate]
  cases h with
  | ready state free => exact absurd state hsync
  | crowded state full => exact absurd state hsync
  | drained state policy drains => exact .inl (drains.onZone_rewind hlocated)
  | finished state policy empty => exact .inl (Located.onZone_rewind hlocated.commitImageTail)
  | manifesting state policy queued =>
      -- with nothing queued, manifestation is over at once
      rw [isEmpty_commitImageTail, hs.empty] at queued
      cases queued
  | other sync manifest => exact .inr rfl

/-- A session with no zone gets one or stays without. While it waits to be configured, it does
so or is refused something. -/
theorem Performs.vacant {op : Operation} {a : Answer}
    (h : Performs cfg limit s op t (some (a, s'))) (hop : op.Admitted s)
    (hlocated : Located cfg s) (hs : Vacant cfg s) :
    OnZone cfg s' ∨
      Vacant cfg s' ∧ (s.state = .appDetach → s'.state = .appDetach ∨ s'.state = .error) := by
  -- what is served in another state only says nothing about one that waits
  have hwaits {r : Request} (hallows : s.state.allows r = true)
      (hr : State.appDetach.allows r = false) (hstate : s.state = .appDetach) :
      s'.state = .appDetach ∨ s'.state = .error := by
    rw [hstate, hr] at hallows
    cases hallows
  cases h with
  | configured state known => exact .inl (onZone_loaded known s)
  | selected known => exact .inl (onZone_loaded known s)
  | refused code => exact .inr ⟨hs.of_state rfl (.inr (.inr rfl)), fun _ => .inr rfl⟩
  | fail e => exact .inr ⟨hs.of_state rfl (.inr (.inr rfl)), fun _ => .inr rfl⟩
  | download downloads => exact .inr ⟨downloads.vacant hs, hwaits (r := .download) hop rfl⟩
  | @upload room _ _ _ _ uploads =>
      have hlength := hs.uploadLength_eq room
      refine .inr ⟨?_, hwaits (r := .upload) hop rfl⟩
      cases uploads with
      | finished none_left => exact hs.of_state rfl (.inl rfl)
      | unread some_left fault => exact absurd hlength some_left
      | read some_left bytes => exact absurd hlength some_left
  | reported reports =>
      rcases reports.vacant hlocated hs with hon | rfl
      · exact .inl hon
      · exact .inr ⟨hs, .inl⟩
  | clearStatus =>
      exact .inr ⟨hs.of_state rfl (.inl rfl), hwaits (r := .clearStatus) hop rfl⟩
  | abort => exact .inr ⟨hs.of_state rfl (.inl rfl), hwaits (r := .abort) hop rfl⟩
  | reset state => exact .inr ⟨vacant_restarted cfg s, fun _ => .inl rfl⟩
  | ticked due steps =>
      rw [(steps.eq_of_isEmpty hlocated hs.empty).2.2]
      exact .inr ⟨⟨hs.engine_eq, hs.empty, hs.state⟩, .inl⟩
  | unconfigured | unselected _ | allowed _ _ | detach | getState | unreset _ | polled _
  | detached _ | throttled _ => exact .inr ⟨⟨hs.engine_eq, hs.empty, hs.state⟩, .inl⟩

theorem vacant_initial (cfg : Config) : Vacant cfg (.initial cfg) := ⟨rfl, rfl, .inl rfl⟩

/-- One step between the two. -/
theorem Advances.onZone_or_vacant (h : Advances cfg s s') (hreachable : Reachable cfg s)
    (hs : OnZone cfg s ∨ Vacant cfg s) : OnZone cfg s' ∨ Vacant cfg s' := by
  obtain ⟨op, hop, limit, t, a, hperform⟩ := h
  have hperforms := performs_of_ends hperform
  rcases hs with hon | hvacant
  · exact (hperforms.onZone hreachable.located hon).imp_right And.left
  · exact (hperforms.vacant hop hreachable.located hvacant).imp_right And.left

/-- One step where nothing is refused while the session waits to be configured. -/
theorem Advances.onZone_or_waits (h : Advances cfg s s') (hreachable : Reachable cfg s)
    (hserved : s.state = .appDetach → s'.state ≠ .error)
    (hs : OnZone cfg s ∨ Vacant cfg s ∧ s.state = .appDetach) :
    OnZone cfg s' ∨ Vacant cfg s' ∧ s'.state = .appDetach := by
  obtain ⟨op, hop, limit, t, a, hperform⟩ := h
  have hperforms := performs_of_ends hperform
  rcases hs with hon | ⟨hvacant, hstate⟩
  · exact hperforms.onZone hreachable.located hon
  · rcases hperforms.vacant hop hreachable.located hvacant with hon | ⟨hvacant', hstate'⟩
    · exact .inl hon
    · exact .inr ⟨hvacant', (hstate' hstate).resolve_right (hserved hstate)⟩

theorem Vacant.idle (hs : Vacant cfg s) (hopen : s.Open) : s.state = .idle := by
  rcases hs.state with hstate | hstate | hstate | hstate
  · rw [Open, hstate] at hopen
    exact absurd hopen (by decide)
  · exact hstate
  · rw [Open, hstate] at hopen
    exact absurd hopen (by decide)
  · rw [Open, hstate] at hopen
    exact absurd hopen (by decide)

end Session

namespace Usb

namespace Interface

open Session Relation

/-- Whatever calls lead to an interface, its session is ready if it is open for data. -/
def LoadsZones (cfg : Config) : Prop :=
  ∀ {numbering : Numbering} {i : Interface},
    Reachable cfg numbering i → i.session.Open → Ready cfg i.session

def CallsInOrder (cfg : Config) (i i' : Interface) : Prop :=
  Calls cfg i i' ∧ (i.session.state = .appDetach → i'.session.state ≠ .error)

variable {cfg : Config} {numbering : Numbering} {i : Interface}

theorem Reachable.onZone_or_vacant (h : Reachable cfg numbering i) :
    OnZone cfg i.session ∨ Vacant cfg i.session := by
  refine h.induction (P := fun s => OnZone cfg s ∨ Vacant cfg s) (.inr (vacant_initial cfg)) ?_
  intro s s' hreachable hs hadvances
  exact hadvances.onZone_or_vacant hreachable hs

theorem onZone_or_waits_of_run (h : ReflTransGen (CallsInOrder cfg) (attach cfg numbering).1 i) :
    Session.Reachable cfg i.session ∧
      (OnZone cfg i.session ∨ Vacant cfg i.session ∧ i.session.state = .appDetach) := by
  induction h with
  | refl => exact ⟨.initial, .inr ⟨vacant_initial cfg, rfl⟩⟩
  | tail _ hcall ih =>
      obtain ⟨hcall, hserved⟩ := hcall
      rcases hcall.advances with hsame | hadvances
      · rw [hsame]
        exact ih
      · exact ⟨hadvances.reachable ih.1, hadvances.onZone_or_waits ih.1 hserved ih.2⟩

/-- The way around loading a zone: select one, reset the bus, have a request refused before the
device is configured, and clear the status. -/
theorem exists_bypassed {alt : UInt8} {zone : Zone} (hzone : cfg.zones.get? alt = some zone) :
    ∃ i, Reachable cfg ⟨0, 4⟩ i ∧ i.session.Open ∧ i.session.alt = alt ∧
      i.session.engine = .unloaded cfg.maxAttempts := by
  let i := (attach cfg ⟨0, 4⟩).1
  let loaded := (Session.initial cfg).loaded cfg alt zone
  let refused := (loaded.restarted cfg).fail .protocolViolation
  let clear : Setup := ⟨.hostToDevice, .classSpecific, .interface, 4, 0, 0, 0⟩
  have hselect : Calls cfg i (i.withSession loaded) :=
    Calls.selected (Session.selectAlt_eq_some_iff.2 ⟨zone, hzone, rfl⟩)
  have hreset : Calls cfg (i.withSession loaded) (i.withSession (loaded.restarted cfg)) :=
    Calls.restarted (by simp [withSession, loaded, Session.loaded])
  have hrefused : Calls cfg (i.withSession (loaded.restarted cfg)) (i.withSession refused) :=
    Calls.refused cfg _
  have hperform : Dialogue.Ends (refused.perform cfg 0 (clear.operation cfg [] .clearStatus)) []
      (some (.quiet, refused.clearStatus)) := .done _
  have hcleared : Calls cfg (i.withSession refused) (i.withSession refused.clearStatus) :=
    Calls.request rfl rfl rfl rfl rfl hperform
  refine ⟨i.withSession refused.clearStatus, ?_, .inl rfl, rfl, rfl⟩
  exact (((ReflTransGen.single hselect).tail hreset).tail hrefused).tail hcleared

/-- A zone that is anything at all can be passed by. -/
theorem not_loadsZones {zone : Zone} (hmem : zone ∈ cfg.zones.zones)
    (hzone : ¬(zone.chip = .internal ∧ zone.start = 0 ∧ zone.stop = 0)) : ¬LoadsZones cfg := by
  intro hloads
  obtain ⟨alt, hget⟩ := ZoneTable.exists_get?_of_mem hmem
  obtain ⟨i, hreachable, hopen, halt, hengine⟩ := exists_bypassed hget
  obtain ⟨zone', hget', hon, -⟩ := hloads hreachable hopen
  rw [halt, hget] at hget'
  obtain rfl := Option.some.inj hget'
  rw [hengine] at hon
  exact hzone ⟨hon.chip_eq.symm, hon.zoneStart_eq.symm, hon.zoneEnd_eq.symm⟩

/-- What is open for data is ready if no request was refused before the device was configured.
Otherwise it may as well be idle with no zone, and then refuses every byte and reads back none.
So the sessions of a board are ready whenever they are open exactly if all of its zones are as
good as none. -/
theorem loadsZones_iff (cfg : Config) :
    (∀ {numbering : Numbering} {i : Interface},
      ReflTransGen (CallsInOrder cfg) (attach cfg numbering).1 i → i.session.Open →
      Ready cfg i.session) ∧
    (∀ {numbering : Numbering} {i : Interface},
      Reachable cfg numbering i → i.session.Open →
      Ready cfg i.session ∨
        i.session.state = .idle ∧ i.session.engine = .unloaded cfg.maxAttempts ∧
          (∀ bytes ≠ [], i.session.download cfg bytes =
            (.error .rangeOverflow, i.session.fail .rangeOverflow)) ∧
          ∀ room requested, i.session.upload room requested = .done (.ok [], i.session)) ∧
    (LoadsZones cfg ↔
      ∀ zone ∈ cfg.zones.zones, zone.chip = .internal ∧ zone.start = 0 ∧ zone.stop = 0) := by
  refine ⟨?_, ?_, ?_⟩
  · intro numbering i hrun hopen
    obtain ⟨-, hon | ⟨-, hstate⟩⟩ := onZone_or_waits_of_run hrun
    · exact hon.ready
    · rw [Open, hstate] at hopen
      exact absurd hopen (by decide)
  · intro numbering i hreachable hopen
    rcases hreachable.onZone_or_vacant with hon | hvacant
    · exact .inl hon.ready
    · have hidle := hvacant.idle hopen
      refine .inr ⟨hidle, hvacant.engine_eq, fun bytes hbytes => hvacant.download_eq hbytes, ?_⟩
      intro room requested
      rw [hvacant.upload_eq, ← hidle]
  · constructor
    · intro hloads zone hmem
      by_contra hzone
      exact not_loadsZones hmem hzone hloads
    · intro hzones numbering i hreachable hopen
      rcases hreachable.onZone_or_vacant with hon | hvacant
      · exact hon.ready
      · obtain ⟨zone, _, _, _, hget, -, -⟩ := hreachable.session.located
        have hzone := hzones zone (List.mem_of_getElem? hget)
        refine OnZone.ready ⟨zone, hget, ?_⟩
        rw [hvacant.engine_eq]
        exact ⟨hzone.2.1.symm, hzone.2.2.symm, hzone.1.symm⟩

/-- The first zone of the reference board has bytes. -/
theorem not_loadsZones_reference : ¬LoadsZones {} :=
  not_loadsZones (List.mem_of_getElem? (i := 0) rfl) (by decide)

end Interface

end Usb

end DfuLoader
