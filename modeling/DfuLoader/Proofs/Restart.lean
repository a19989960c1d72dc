import DfuLoader.Proofs.StaleBytes

/-!
# Starting over

A bus reset ends a session that is under way: the device reboots, and if it comes back from
that, the session starts again. It is then the session after power-on in everything but two
things. What is left in the slots of its buffer never shows (`Alike`). The alternate setting
is kept as well, and that does show: the host may ask for it, and an image that ends before a
zone is selected rewinds to the zone of that setting. So a session starts over as a new one
exactly if its setting was the first, and every session of a loader does only where there is
one zone (`startsOver_iff`). A host that configures the device or selects a zone first cannot
tell the difference, as either sets the alternate setting.
-/

namespace DfuLoader

namespace Session

open Dialogue

/-- No run of operations tells two sessions apart, whatever the board. -/
def Indistinguishable (cfg : Config) (s r : Session) : Prop :=
  ∀ (σ : Type) (limit : Nat) (ops : List Operation) (board : Board σ) (x : σ),
    outcome cfg limit ops s board x = outcome cfg limit ops r board x

def initialAt (cfg : Config) (alt : UInt8) : Session := { initial cfg with alt := alt }

def Operation.Loads (cfg : Config) : Operation → Prop
  | .configured => True
  | .selectAlt alt => ∃ zone, cfg.zones.get? alt = some zone
  | _ => False

/-- A bus reset leaves a session that waits to be configured alone, and turns every other one,
after a single reboot, into one that cannot be told from the session after power-on. -/
def StartsOver (cfg : Config) : Prop :=
  ∀ {s s' : Session} {t : List Exchange}, Reachable cfg s → Ends (s.busReset cfg) t s' →
    if s.state = .appDetach then t = [] ∧ s' = s
    else t = [⟨.reboot, ()⟩] ∧ Indistinguishable cfg s' (initial cfg)

variable {cfg : Config} {s s' r : Session} {t : List Exchange}

theorem Alike.indistinguishable (h : s.Alike r) : Indistinguishable cfg s r :=
  fun _ limit ops board x => h.outcome_eq limit ops board x

theorem Indistinguishable.observe_eq (h : Indistinguishable cfg s r) : s.observe = r.observe := by
  let x : TimedFlash := ⟨⟨.internal, fun _ _ => 0xff⟩, 0, false⟩
  have hnothing := congrArg (fun o => o.2.1) (h TimedFlash 0 [] (TimedFlash.chips 0) x)
  exact (Prod.ext_iff.1 (Option.some.inj hnothing)).2

/-- A reset of a session that is under way reboots and ends it. -/
theorem busReset_of_ne (cfg : Config) (h : s.state ≠ .appDetach) :
    s.busReset cfg = .ask .reboot fun _ => .done (s.restarted cfg) := by
  rw [busReset, if_neg h]
  rfl

theorem ends_busReset :
    Ends (s.busReset cfg) t s' ↔
      if s.state = .appDetach then t = [] ∧ s' = s
      else t = [⟨.reboot, ()⟩] ∧ s' = s.restarted cfg := by
  by_cases hstate : s.state = .appDetach
  · rw [if_pos hstate, busReset, if_pos hstate, pure_eq_done, ends_done]
  · rw [if_neg hstate, busReset_of_ne cfg hstate, ends_ask]
    simp only [ends_done]
    constructor
    · rintro ⟨_, _, rfl, rfl, rfl⟩
      exact ⟨rfl, rfl⟩
    · rintro ⟨rfl, rfl⟩
      exact ⟨(), [], rfl, rfl, rfl⟩

/-- Only the alternate setting, and bytes that do not show, are left of the past. -/
theorem alike_restarted (hs : Reachable cfg s) : (s.restarted cfg).Alike (initialAt cfg s.alt) :=
  .mk (hs.located.wellFormed.agree_clear BlockRing.wellFormed_empty)

theorem indistinguishable_restarted_iff (hs : Reachable cfg s) :
    Indistinguishable cfg (s.restarted cfg) (initial cfg) ↔ s.alt = 0 := by
  have hsame : Indistinguishable cfg (s.restarted cfg) (initialAt cfg s.alt) :=
    (alike_restarted hs).indistinguishable
  constructor
  · intro h
    exact congrArg Observation.alt h.observe_eq
  · intro halt
    rw [halt] at hsame
    exact hsame

/-- Loading a zone sets the alternate setting, whatever it was. -/
theorem perform_initialAt {op : Operation} (h : op.Loads cfg) (limit : Nat) (alt : UInt8) :
    (initialAt cfg alt).perform cfg limit op = (initial cfg).perform cfg limit op := by
  cases op with
  | configured =>
      obtain ⟨zone, hzone⟩ := cfg.zones.get?_zero
      simp only [perform, configured, selectAlt, hzone]
      rfl
  | selectAlt alt' =>
      obtain ⟨zone, hzone⟩ := h
      simp only [perform, selectAlt, hzone]
      rfl
  | request | fail | detach | download | upload | getStatus | clearStatus | getState | abort
  | busReset | poll | tick => exact h.elim

/-- A run that begins by loading a zone is that of the session after power-on. -/
theorem outcome_restarted {σ : Type} (hs : Reachable cfg s) {op : Operation} (hop : op.Loads cfg)
    (limit : Nat) (ops : List Operation) (board : Board σ) (x : σ) :
    outcome cfg limit (op :: ops) (s.restarted cfg) board x =
      outcome cfg limit (op :: ops) (initial cfg) board x := by
  have hrun : performAll cfg limit (op :: ops) (initialAt cfg s.alt) =
      performAll cfg limit (op :: ops) (initial cfg) := by
    rw [performAll, performAll, perform_initialAt hop]
  rw [(alike_restarted hs).outcome_eq, outcome, outcome, hrun]

theorem reachable_loaded {alt : UInt8} {zone : Zone} (hs : Reachable cfg s)
    (hzone : cfg.zones.get? alt = some zone) : Reachable cfg (s.loaded cfg alt zone) := by
  have hselect : Ends (s.perform cfg 0 (.selectAlt alt)) []
      (some (.selected true, s.loaded cfg alt zone)) := by
    rw [perform, selectAlt_eq_some_iff.2 ⟨zone, hzone, rfl⟩]
    exact .done _
  exact .perform hs hselect

/-- With a second zone to select, a reset can be told from power-on. -/
theorem not_startsOver (h : 1 < cfg.zones.size) : ¬StartsOver cfg := by
  intro hstarts
  have hzone : cfg.zones.get? 1 = some cfg.zones.zones[1] := List.getElem?_eq_getElem h
  have hreachable : Reachable cfg ((initial cfg).loaded cfg 1 _) := reachable_loaded .initial hzone
  have hstate : ((initial cfg).loaded cfg 1 cfg.zones.zones[1]).state ≠ .appDetach := by
    simp [loaded]
  have hreset := hstarts hreachable (ends_busReset.2 (by rw [if_neg hstate]; exact ⟨rfl, rfl⟩))
  rw [if_neg hstate] at hreset
  have halt : (1 : UInt8) = 0 := (indistinguishable_restarted_iff hreachable).1 hreset.2
  exact absurd halt (by decide)

/-- What a bus reset leaves of a session, which is nothing exactly if the alternate setting is
the first; and so of every session exactly if there is no other. -/
theorem startsOver_iff (cfg : Config) :
    (∀ {s s' : Session} {t : List Exchange}, Reachable cfg s → Ends (s.busReset cfg) t s' →
      if s.state = .appDetach then t = [] ∧ s' = s
      else t = [⟨.reboot, ()⟩] ∧
        Indistinguishable cfg s' (initialAt cfg s.alt) ∧
        (Indistinguishable cfg s' (initial cfg) ↔ s.alt = 0) ∧
        ∀ (σ : Type) (limit : Nat) (op : Operation) (ops : List Operation) (board : Board σ)
          (x : σ), op.Loads cfg → outcome cfg limit (op :: ops) s' board x =
            outcome cfg limit (op :: ops) (initial cfg) board x) ∧
      (StartsOver cfg ↔ cfg.zones.size = 1) := by
  refine ⟨?_, ?_, ?_⟩
  · intro s s' t hs h
    rw [ends_busReset] at h
    by_cases hstate : s.state = .appDetach
    · rw [if_pos hstate] at h ⊢
      exact h
    · rw [if_neg hstate] at h ⊢
      obtain ⟨rfl, rfl⟩ := h
      exact ⟨rfl, (alike_restarted hs).indistinguishable, indistinguishable_restarted_iff hs,
        fun _ limit _ ops board x hop => outcome_restarted hs hop limit ops board x⟩
  · intro hstarts
    have hpos : 0 < cfg.zones.size := List.length_pos_iff.2 cfg.zones.nonempty
    by_contra hsize
    exact not_startsOver (by omega) hstarts
  · intro hsize s s' t hs h
    -- the setting has a zone, so it is the only one
    obtain ⟨zone, _, _, _, hzone, -, -⟩ := hs.located
    have hlt : s.alt.toNat < cfg.zones.size := (List.getElem?_eq_some_iff.1 hzone).1
    have halt : s.alt = 0 := UInt8.toNat.inj (by rw [UInt8.toNat_zero]; omega)
    rw [ends_busReset] at h
    by_cases hstate : s.state = .appDetach
    · rw [if_pos hstate] at h ⊢
      exact h
    · rw [if_neg hstate] at h ⊢
      obtain ⟨rfl, rfl⟩ := h
      exact ⟨rfl, (indistinguishable_restarted_iff hs).2 halt⟩

/-- The reference board has zones to choose from. -/
theorem not_startsOver_reference : ¬StartsOver {} := not_startsOver (by decide)

end Session

end DfuLoader
