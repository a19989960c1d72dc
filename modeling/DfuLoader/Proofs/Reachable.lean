import DfuLoader.Proofs.Tracking

/-!
# Reachable sessions

A session is `Reachable` if some board lets some operations lead to it from power-on.
Its engine then works on the zone of the alternate setting, or on no zone at all
(`Located`), whichever way the session was configured, switched, drained or reset.
-/

namespace DfuLoader

/-- What the engine works on while no zone is loaded. -/
def Zone.vacant : Zone := ⟨.internal, 0, 0, ""⟩

theorem ZoneTable.get?_zero (table : ZoneTable) :
    ∃ zone, table.get? 0 = some zone := by
  obtain ⟨zone, rest, h⟩ := List.exists_cons_of_ne_nil table.nonempty
  exact ⟨zone, by rw [ZoneTable.get?, h]; rfl⟩

theorem ZoneTable.exists_get?_of_mem {table : ZoneTable} {zone : Zone} (h : zone ∈ table.zones) :
    ∃ alt, table.get? alt = some zone := by
  obtain ⟨i, hi, hget⟩ := List.mem_iff_getElem.1 h
  have hlength := table.length_le
  rw [maxZones] at hlength
  have halt : (UInt8.ofNat i).toNat = i := UInt8.toNat_ofNat_of_lt' (by change i < 256; omega)
  refine ⟨UInt8.ofNat i, ?_⟩
  rw [ZoneTable.get?, halt, List.getElem?_eq_getElem hi, hget]

namespace Session

open Dialogue

inductive Reachable (cfg : Config) : Session → Prop
  | initial : Reachable cfg (.initial cfg)
  | perform {s s' : Session} {limit : Nat} {op : Operation} {t : List Exchange} {a : Answer}
      (reachable : Reachable cfg s) (ends : Ends (s.perform cfg limit op) t (some (a, s'))) :
      Reachable cfg s'

/-- The engine works on a zone of the alternate setting, or on none. -/
def Located (cfg : Config) (s : Session) : Prop :=
  ∃ zone z m n, cfg.zones.get? s.alt = some zone ∧ (z = zone ∨ z = .vacant) ∧ s.Tracks z m n

variable {cfg : Config} {limit : Nat} {s s' : Session} {t : List Exchange}

theorem located_initial (cfg : Config) : Located cfg (.initial cfg) := by
  obtain ⟨zone, hzone⟩ := cfg.zones.get?_zero
  exact ⟨zone, .vacant, 0, 0, hzone, .inr rfl,
    Pipeline.tracks_loaded .vacant cfg.maxAttempts BlockRing.wellFormed_empty rfl⟩

theorem located_of_loaded {zone : Zone} (hzone : cfg.zones.get? s.alt = some zone)
    (hring : s.buffer.WellFormed) (hempty : s.buffer.isEmpty = true)
    (hengine : s.engine = .loaded zone cfg.maxAttempts ∨
      s.engine = .loaded .vacant cfg.maxAttempts) :
    Located cfg s := by
  rcases hengine with hengine | hengine
  · have htracks := Pipeline.tracks_loaded zone cfg.maxAttempts hring hempty
    rw [← hengine] at htracks
    exact ⟨zone, zone, 0, 0, hzone, .inl rfl, htracks⟩
  · have htracks := Pipeline.tracks_loaded .vacant cfg.maxAttempts hring hempty
    rw [← hengine] at htracks
    exact ⟨zone, .vacant, 0, 0, hzone, .inr rfl, htracks⟩

theorem Located.wellFormed (h : Located cfg s) : s.buffer.WellFormed := by
  obtain ⟨_, _, _, _, -, -, htracks⟩ := h
  exact htracks.ring

theorem Located.rewind (h : Located cfg s) (hempty : s.buffer.isEmpty = true) :
    Located cfg (s.rewind cfg) := by
  have hring := h.wellFormed
  obtain ⟨zone, _, _, _, hzone, -, -⟩ := h
  refine located_of_loaded (s := s.rewind cfg) hzone hring hempty (.inl ?_)
  simp only [Session.rewind, hzone]

theorem Located.commitImageTail (h : Located cfg s) : Located cfg s.commitImageTail := by
  obtain ⟨zone, z, m, n, hzone, hz, htracks⟩ := h
  exact ⟨zone, z, m, n, by rw [s.commitImageTail_fields.1, hzone], hz,
    tracks_commitImageTail htracks⟩

theorem Downloads.located {bytes : Bytes} {x : Except SessionError Unit}
    (h : Downloads cfg s bytes x s') (hs : Located cfg s) : Located cfg s' := by
  obtain ⟨zone, z, m, n, hzone, hz, htracks⟩ := hs
  cases h with
  | ended none_left => exact ⟨zone, z, m, n, hzone, hz, htracks⟩
  | overflowed some_left past => exact ⟨zone, z, m, n, hzone, hz, htracks⟩
  | crowded some_left inside full => exact ⟨zone, z, m, n, hzone, hz, htracks⟩
  | taken some_left inside receiveAt_eq append =>
      have hreceived := tracks_received htracks some_left inside receiveAt_eq append
      refine ⟨zone, z, m, n, ?_, hz, tracks_closedIfShort hreceived _⟩
      rw [← hzone]
      exact congrArg cfg.zones.get? (closedIfShort_fields _ _).1

theorem Steps.located {k : Tick} (h : Steps cfg s t k s') (hs : Located cfg s) :
    Located cfg s' := by
  obtain ⟨zone, z, m, n, hzone, hz, htracks⟩ := hs
  exact ⟨zone, z, _, _, by rw [h.fields.1, hzone], hz, h.tracks htracks⟩

theorem Reports.located {report : StatusReport}
    (h : Reports cfg limit s t (some (report, s'))) (hs : Located cfg s) : Located cfg s' := by
  cases h with
  | ready state free => exact hs
  | crowded state full => exact hs
  | drained state policy drains =>
      obtain ⟨hdrained, hempty⟩ := drains.preserves (P := Located cfg) Steps.located hs rfl
      exact hdrained.rewind hempty
  | finished state policy empty => exact (Located.commitImageTail hs).rewind empty
  | manifesting state policy queued => exact Located.commitImageTail hs
  | other sync manifest => exact hs

theorem Performs.located {op : Operation} {a : Answer}
    (h : Performs cfg limit s op t (some (a, s'))) (hs : Located cfg s) : Located cfg s' := by
  cases h with
  | configured state known =>
      exact located_of_loaded known hs.wellFormed.clear (BlockRing.isEmpty_clear _) (.inl rfl)
  | selected known =>
      exact located_of_loaded known hs.wellFormed.clear (BlockRing.isEmpty_clear _) (.inl rfl)
  | download downloads => exact downloads.located hs
  | upload uploads =>
      obtain ⟨zone, z, m, n, hzone, hz, htracks⟩ := hs
      cases uploads with
      | finished none_left => exact ⟨zone, z, m, n, hzone, hz, htracks⟩
      | unread some_left fault => exact ⟨zone, z, m, n, hzone, hz, htracks⟩
      | read some_left bytes => exact ⟨zone, z, m, n, hzone, hz, tracks_uploaded htracks some_left⟩
  | reported reports => exact reports.located hs
  | reset state =>
      obtain ⟨zone, _, _, _, hzone, -, -⟩ := id hs
      exact located_of_loaded hzone hs.wellFormed.clear (BlockRing.isEmpty_clear _) (.inr rfl)
  | ticked due steps => exact steps.located hs
  | unconfigured | unselected _ | allowed _ _ | refused _ | fail _ | detach | clearStatus
  | getState | abort | unreset _ | polled _ | detached _ | throttled _ => exact hs

theorem Reachable.located (h : Reachable cfg s) : Located cfg s := by
  induction h with
  | initial => exact located_initial cfg
  | perform _ ends ih => exact (performs_of_ends ends).located ih

theorem Reachable.exists_perform_of_mem (h : Reachable cfg s) {ops : List Operation}
    {r : Option (List Answer × Session)} (hends : Ends (performAll cfg limit ops s) t r)
    {e : Exchange} (he : e ∈ t) :
    ∃ s₁ op t₁ r₁, Reachable cfg s₁ ∧ Ends (s₁.perform cfg limit op) t₁ r₁ ∧ e ∈ t₁ := by
  induction ops generalizing s t r with
  | nil =>
      cases hends
      cases he
  | cons op ops ih =>
      rw [performAll, ends_bind] at hends
      obtain ⟨t₁, t₂, reply, rfl, hop, hrest⟩ := hends
      rcases List.mem_append.1 he with he | he
      · exact ⟨s, op, t₁, reply, h, hop, he⟩
      obtain - | ⟨answer, s'⟩ := reply
      · cases hrest
        cases he
      obtain ⟨t₃, t₄, rest, rfl, hops, hlast⟩ := ends_bind.1 hrest
      rcases List.mem_append.1 he with he | he
      · exact ih (.perform h hop) hops he
      · cases rest <;> cases hlast <;> cases he

/-- Half of the smallest zone of the reference board, received and not yet written. -/
def halfImage (cfg : Config) : Session :=
  let selected := (initial cfg).loaded cfg 6 ⟨.cartridge, 0, 0x100, "RTC"⟩
  { (selected.download cfg (List.replicate 128 0x42)).2 with
    endOfImage := true
    state := .manifestSync }

theorem reachable_halfImage (h : cfg.zones.get? 6 = some ⟨.cartridge, 0, 0x100, "RTC"⟩) :
    Reachable cfg (halfImage cfg) := by
  have hselect : Ends ((initial cfg).perform cfg 0 (.selectAlt 6)) []
      (some (.selected true, (initial cfg).loaded cfg 6 ⟨.cartridge, 0, 0x100, "RTC"⟩)) := by
    rw [perform, selectAlt, h]
    exact .done _
  exact .perform (.perform (.perform .initial hselect) (ends_download cfg 0 _ _))
    (ends_download_nil cfg 0 _)

end Session

end DfuLoader
