import DfuLoader.Proofs.EngineRuns

/-!
# Cursors, queue and engine

From the selection of a zone on, as long as no zone is loaded again and no window is given up
(`Undisturbed`), one number says where everything is: the windows that were released since. The
window cursor has passed them, the blocks in the buffer are the windows after them, and the
bytes under way begin where those end, all cut off at the end of the zone. Whatever the engine
is doing it does to the first block, and between two ticks of a window that is programmed the
next page begins at a page boundary of the chip (`Engine.Paged`). All of it is one invariant
(`consistent_of_undisturbed`).
-/

namespace DfuLoader

/-- A window that is being programmed is done, or goes on at a page boundary. -/
def Engine.Paged (e : Engine) : Prop :=
  e.stage = .programming → e.offset = e.length ∨ (e.windowAt.toNat + e.offset) % pageSize = 0

/-- A page command reaches the end of the window or the end of its page. -/
theorem Engine.Placed.paged_of_program {z : Zone} {m : Nat} {e : Engine} (h : e.Placed z m)
    (hstage : e.stage ≠ .idle) :
    e.offset + e.pageLength = e.length ∨
      (e.windowAt.toNat + (e.offset + e.pageLength)) % pageSize = 0 := by
  have hoffset := h.offset_le hstage
  rw [Engine.pageLength, h.pageAt_eq hstage]
  simp only [pageSize]
  omega

namespace Pipeline

variable {cfg : Config} {z : Zone} {m : Nat} {p q : Pipeline} {t : List Exchange} {k : Tick}

/-! An attempt that is over leaves the engine at rest, so only a page command is to look at. -/

theorem Programs.paged {block : Bytes} (h : Programs p block t k q) (hp : p.engine.Placed z m)
    (hstage : p.engine.stage ≠ .idle) : q.engine.Paged := by
  cases h with
  | locked _ | refused _ => exact fun hn => by cases hn
  | started => exact fun _ => hp.paged_of_program hstage

theorem Writes.paged (h : Writes cfg p t k q) (hp : p.engine.Placed z m)
    (hstage : p.engine.stage ≠ .idle) : q.engine.Paged := by
  cases h with
  | page _ _ _ programs => exact programs.paged hp hstage
  | written _ | passed _ _ | starved _ _ _ => exact fun hn => by cases hn

theorem Works.paged (h : Works cfg p t k q) (hp : p.engine.Placed z m)
    (hstage : p.engine.stage ≠ .idle) : q.engine.Paged := by
  cases h with
  | stale erasing _ _ erases =>
      cases erases with
      | started => exact fun hn => by cases erasing.symm.trans hn
      | locked _ | refused _ => exact fun hn => by cases hn
  | @fresh _ _ _ outcome _ _ _ _ writes =>
      have hne : (p.compared outcome).cleared.engine.stage ≠ .idle := by
        rw [stage_cleared]
        exact fun hn => by cases hn
      exact writes.paged (placed_cleared (placed_compared hp _) hstage) hne
  | resumed _ writes => exact writes.paged hp hstage
  | starved _ _ | unread _ _ _ => exact fun hn => by cases hn

theorem paged_opened (hp : p.engine.Paged) : p.opened.engine.Paged := by
  by_cases hidle : p.engine.stage = .idle
  · intro hstage
    rw [stage_opened_of_idle hidle] at hstage
    cases hstage
  · rwa [opened_of_not_idle hidle]

theorem Reached.paged (h : Reached cfg p) : p.engine.Paged := by
  induction h with
  | unloaded attempts => exact fun hn => by cases hn
  | load _ zone attempts _ => exact fun hn => by cases hn
  | operate _ op ih => exact ih
  | host _ receiveAt readAt ih => exact ih
  | tick reached ends ih =>
      obtain ⟨z, m, hsteady⟩ := reached.steady
      obtain ⟨hopened, hstage⟩ := steady_opened hsteady
      cases ends_tick.1 ends with
      | resting _ _ => exact ih
      | busy _ _ _ => exact paged_opened ih
      | worked _ _ _ works => exact works.paged hopened.toPlaced hstage
      | abandoned _ _ | unanswered _ _ _ => exact fun hn => by cases hn

/-- Where the cursors, the blocks and the engine of a pipeline are, after some windows of a zone
were released. -/
structure Consistent (cfg : Config) (z : Zone) (n : Nat) (p : Pipeline) : Prop where
  windowAt_eq : p.engine.windowAt.toNat = min (z.start.toNat + 4096 * n) z.stop.toNat
  receiveAt_eq : p.engine.receiveAt.toNat =
    min (z.start.toNat + 4096 * (n + p.buffer.committed) + p.buffer.fill) z.stop.toNat
  committed_lt : ∀ j < p.buffer.committed, z.start.toNat + 4096 * (n + j) < z.stop.toNat
  pending_lt : 0 < p.buffer.fill →
    z.start.toNat + 4096 * (n + p.buffer.committed) < z.stop.toNat
  start_le_readAt : z.start.toNat ≤ p.engine.readAt.toNat
  readAt_le : p.engine.readAt.toNat ≤ z.stop.toNat
  attempts_le : p.engine.attempts.toNat ≤ cfg.maxAttempts.toNat
  working : p.engine.stage ≠ .idle → 0 < p.buffer.committed ∧
    p.engine.length = min 4096 (z.stop.toNat - p.engine.windowAt.toNat) ∧
    1 ≤ p.engine.length ∧ p.engine.offset ≤ p.engine.length
  programming : p.engine.stage = .programming → p.engine.last = .program ∧
    (p.engine.offset = p.engine.length ∨
      (p.engine.windowAt.toNat + p.engine.offset) % 256 = 0)

/-- All of it follows from the cursors keeping track of the buffer. -/
theorem Tracks.consistent {n : Nat} (h : p.Tracks z n n) (ordered : z.start ≤ z.stop)
    (attempts : p.engine.attempts.toNat ≤ cfg.maxAttempts.toNat) (paged : p.engine.Paged) :
    p.Consistent cfg z n := by
  have hlimit : z.limit = z.stop.toNat := max_eq_right (UInt32.le_iff_toNat_le.1 ordered)
  have hwindow : p.engine.windowAt.toNat = min (z.start.toNat + 4096 * n) z.stop.toNat := by
    rw [h.steady.windowAt_eq, Zone.windowStart, hlimit]
  have hreceive := h.receive_eq
  have hread := h.readAt_le
  rw [hlimit] at hreceive hread
  refine ⟨hwindow, hreceive, ?_, ?_, h.start_le_readAt, hread, attempts, ?_, ?_⟩
  · intro j hj
    have hqueued := h.queued (by omega)
    omega
  · intro hfill
    have hpending := h.pending hfill
    omega
  · intro hstage
    have hpos := h.attended hstage
    have hlt := h.window_lt hpos
    have hlength : p.engine.length = min 4096 (z.stop.toNat - p.engine.windowAt.toNat) := by
      rw [h.steady.length_eq hstage, Engine.windowLength, Address.toNat_subSat,
        h.steady.zoneEnd_eq]
      rfl
    exact ⟨hpos, hlength, by omega, h.steady.offset_le hstage⟩
  · intro hstage
    exact ⟨h.steady.last_eq hstage, paged hstage⟩

end Pipeline

namespace Session

open Dialogue

def Answer.released : Answer → Nat
  | .ticked k => k.released
  | _ => 0

/-- The operation has loaded a zone, or has given a window up. -/
inductive Disturbs (s : Session) : Operation → Answer → Prop
  | selected (alt : UInt8) : Disturbs s (.selectAlt alt) (.selected true)
  | reset (a : Answer) : Disturbs s .busReset a
  | completed {op : Operation} {a : Answer} (completes : s.Completes op a) : Disturbs s op a
  | abandoned : Disturbs s .tick (.ticked .abandoned)

/-- The sessions that operations lead to after a zone was selected, with the windows that were
released since. -/
inductive Undisturbed (cfg : Config) (zone : Zone) : Nat → Session → Prop
  | selected {s s' : Session} {alt : UInt8} (reachable : Reachable cfg s)
      (known : cfg.zones.get? alt = some zone) (select : s.selectAlt cfg alt = some s') :
      Undisturbed cfg zone 0 s'
  | perform {n limit : Nat} {s s' : Session} {op : Operation} {t : List Exchange} {a : Answer}
      (undisturbed : Undisturbed cfg zone n s)
      (ends : Ends (s.perform cfg limit op) t (some (a, s'))) (quiet : ¬s.Disturbs op a) :
      Undisturbed cfg zone (n + a.released) s'

variable {cfg : Config} {limit n : Nat} {zone : Zone} {s s' : Session} {t : List Exchange}

theorem Undisturbed.reachable (h : Undisturbed cfg zone n s) : Reachable cfg s := by
  induction h with
  | @selected s s' alt reachable known select =>
      have hends : Ends (s.perform cfg 0 (.selectAlt alt)) [] (some (.selected true, s')) := by
        rw [Session.perform, select]
        exact .done _
      exact .perform reachable hends
  | perform _ ends _ ih => exact .perform ih ends

theorem not_disturbs_download (s : Session) (bytes : Bytes) (a : Answer) :
    ¬s.Disturbs (.download bytes) a := by
  rintro ⟨⟩
  rename_i completes
  cases completes.1

theorem Undisturbed.download (h : Undisturbed cfg zone n s) (bytes : Bytes) :
    Undisturbed cfg zone n (s.download cfg bytes).2 :=
  h.perform (ends_download cfg 0 s bytes) (s.not_disturbs_download bytes _)

theorem undisturbed_halfImage :
    Undisturbed {} ⟨.cartridge, 0, 0x100, "RTC"⟩ 0 (halfImage {}) := by
  have hselected : Undisturbed {} ⟨.cartridge, 0, 0x100, "RTC"⟩ 0
      ((initial {}).loaded {} 6 ⟨.cartridge, 0, 0x100, "RTC"⟩) :=
    .selected .initial rfl (selectAlt_eq_some_iff.2 ⟨_, rfl, rfl⟩)
  have hended := (hselected.download (List.replicate 128 0x42)).download []
  rw [download_nil] at hended
  exact hended

/-- The session keeps track of the released windows, and is not about to load a zone when the
device is configured. -/
structure Settled (zone : Zone) (n : Nat) (s : Session) : Prop where
  tracks : s.Tracks zone n n
  state_ne : s.state ≠ .appDetach

theorem Downloads.settled {bytes : Bytes} {x : Except SessionError Unit}
    (h : Downloads cfg s bytes x s') (hs : s.Settled zone n) : s'.Settled zone n := by
  cases h with
  | ended _ | overflowed _ _ | crowded _ _ _ => exact ⟨hs.tracks, fun hn => by cases hn⟩
  | taken some_left inside receiveAt_eq append =>
      have hreceived := tracks_received hs.tracks some_left inside receiveAt_eq append
      exact ⟨tracks_closedIfShort hreceived _, fun hn => by cases hn⟩

theorem Uploads.settled {room requested : Nat} {x : Except SessionError Bytes}
    (h : Uploads s room requested t x s') (hs : s.Settled zone n) : s'.Settled zone n := by
  cases h with
  | finished _ | unread _ _ => exact ⟨hs.tracks, fun hn => by cases hn⟩
  | read some_left bytes =>
      refine ⟨tracks_uploaded hs.tracks some_left, ?_⟩
      change (if s.uploadLength room = requested then State.uploadIdle else State.idle) ≠ _
      split <;> exact fun hn => by cases hn

theorem Reports.settled {report : StatusReport} (h : Reports cfg limit s t (some (report, s')))
    (hs : s.Settled zone n) (incomplete : ¬s.Completes .getStatus (.reported report)) :
    s'.Settled zone n := by
  cases h with
  | ready _ _ => exact ⟨hs.tracks, fun hn => by cases hn⟩
  | crowded _ _ | other _ _ => exact hs
  | drained state _ _ | finished state _ _ => exact absurd ⟨rfl, state, _, rfl, rfl⟩ incomplete
  | manifesting _ _ _ =>
      exact ⟨tracks_commitImageTail hs.tracks, s.commitImageTail_fields.2.1 ▸ hs.state_ne⟩

/-- A step that gives no window up commits as many windows as it releases. -/
theorem Steps.settled {k : Tick} (h : Steps cfg s t k s') (hs : s.Settled zone n)
    (kept : k ≠ .abandoned) : s'.Settled zone (n + k.released) := by
  have hpassed : k.passed = k.released := by
    cases k with
    | abandoned => exact absurd rfl kept
    | idle | busy | progress | failed | committed | throttled => rfl
  have htracks := h.tracks hs.tracks
  rw [hpassed] at htracks
  exact ⟨htracks, h.fields.2.1 ▸ hs.state_ne⟩

theorem Performs.settled {op : Operation} {a : Answer}
    (h : Performs cfg limit s op t (some (a, s'))) (hs : s.Settled zone n)
    (quiet : ¬s.Disturbs op a) : s'.Settled zone (n + a.released) := by
  cases h with
  -- only a bus reset brings a session back to where it waits to be configured
  | configured state _ => exact absurd state hs.state_ne
  | selected _ => exact absurd (.selected _) quiet
  | reset _ | unreset _ => exact absurd (.reset _) quiet
  | refused _ | fail _ | clearStatus | abort => exact ⟨hs.tracks, fun hn => by cases hn⟩
  | download downloads => exact downloads.settled hs
  | upload uploads => exact uploads.settled hs
  | reported reports => exact reports.settled hs fun hcompletes => quiet (.completed hcompletes)
  | ticked due steps =>
      have hunskipped : Settled zone n { s with skipped := 0 } := ⟨hs.tracks, hs.state_ne⟩
      exact steps.settled hunskipped fun hk => quiet (hk ▸ .abandoned)
  | unconfigured | unselected _ | allowed _ _ | detach | getState | polled _ | detached _
  | throttled _ => exact ⟨hs.tracks, hs.state_ne⟩

theorem Undisturbed.settled (h : Undisturbed cfg zone n s) : s.Settled zone n := by
  induction h with
  | @selected s s' alt reachable known select =>
      obtain ⟨zone', hzone, rfl⟩ := selectAlt_eq_some_iff.1 select
      obtain rfl : zone' = zone := Option.some.inj (hzone.symm.trans known)
      have htracks := Pipeline.tracks_loaded zone' cfg.maxAttempts
        reachable.located.wellFormed.clear (BlockRing.isEmpty_clear _)
      exact ⟨htracks, fun hn => by cases hn⟩
  | perform _ ends quiet ih => exact (performs_of_ends ends).settled ih quiet

/-- As long as nothing loads a zone and no window is given up, the windows that were released
say where the cursors are, which windows the blocks in the buffer are, and what the engine is
about. -/
theorem consistent_of_undisturbed (h : Undisturbed cfg zone n s)
    (ordered : zone.start ≤ zone.stop) : s.Consistent cfg zone n :=
  h.settled.tracks.consistent ordered h.reachable.attempts_le h.reachable.reached.paged

/-- Half of the smallest zone of the reference board, and the tick that starts to program it. -/
theorem consistent_of_undisturbed_halfImage :
    ∃ s : Session, Undisturbed {} ⟨.cartridge, 0, 0x100, "RTC"⟩ 0 s ∧
      s.engine.stage = .programming ∧ s.Consistent {} ⟨.cartridge, 0, 0x100, "RTC"⟩ 0 := by
  let f : Flash := ⟨.internal, fun _ _ => 0xff⟩
  have hvalue : (((halfImage {}).tick {}).run Flash.chips.withReadback f).1.1 = .progress ∧
      (((halfImage {}).tick {}).run Flash.chips.withReadback f).1.2.engine.stage =
        .programming := by decide +kernel
  generalize htick : ((halfImage {}).tick {}).run Flash.chips.withReadback f = r at hvalue
  obtain ⟨⟨k, s⟩, f'⟩ := r
  obtain ⟨rfl, hstage⟩ := hvalue
  have hends : Ends ((halfImage {}).perform {} 0 .tick) _ (some (.ticked .progress, s)) :=
    ends_bind.2 ⟨_, [], _, rfl, ends_of_run htick, .done _⟩
  have hquiet : ¬(halfImage {}).Disturbs .tick (.ticked .progress) := by
    rintro ⟨⟩
    rename_i completes
    cases completes.1
  have hticked : Undisturbed {} _ 0 s := undisturbed_halfImage.perform hends hquiet
  exact ⟨s, hticked, hstage, consistent_of_undisturbed hticked (by decide)⟩

end Session

end DfuLoader
