import DfuLoader.Proofs.BusDiscipline

/-!
# The end of an erased region

A region larger than a sector is only taken if it ends inside the zone. The end is the sum
of its start and its size, and this sum stops at the last address: for the region at the
very top, whose end is no address any more, it is the last address instead. In a zone that
ends there, the region passes although it takes the last byte as well, which is not in the
zone. Only zones with a window at the start of this region are exposed to that
(`Zone.Overruns`), and a session gets to every window of its zone (`exists_standsAt`), so
discipline is kept exactly where there is no such zone (`keepsDiscipline_iff`).
-/

namespace DfuLoader

open Dialogue

/-- The region of a size at the top of the address space begins with a window of the zone,
and takes one byte more than the zone has. -/
structure Zone.Overruns (z : Zone) (unit : EraseUnit) : Prop where
  large : unit ≠ .sector4K
  stop_eq : z.stop = Address.top
  aligned : z.start.toNat % 4096 = 0
  start_le : z.start.toNat + unit.size.toNat ≤ 2 ^ 32

theorem EraseUnit.lt_size {unit : EraseUnit} (h : unit ≠ .sector4K) : 4096 < unit.size.toNat := by
  cases unit with
  | sector4K => exact absurd rfl h
  | block32K | block64K => decide

namespace Engine

variable {z : Zone} {m : Nat} {e : Engine} {preferred : EraseUnit}

/-- The large region is taken where it begins with the window and the sum of its start and its
size does not come out behind the zone. -/
theorem eraseUnit_of_fits (haligned : e.windowAt.toNat % preferred.size.toNat = 0)
    (hend : min (e.windowAt.toNat + preferred.size.toNat) (2 ^ 32 - 1) ≤ e.zoneEnd.toNat) :
    e.eraseUnit preferred = preferred := by
  have hbase := EraseUnit.baseOf_eq haligned
  refine if_pos ⟨hbase, ?_⟩
  rw [hbase, UInt32.le_iff_toNat_le, Address.toNat_addSat]
  exact hend

/-- A large region only ends behind the zone at the top of the address space. -/
theorem Placed.overruns (h : e.Placed z m) (hlarge : e.eraseUnit preferred ≠ .sector4K)
    (hpast : z.stop.toNat < e.windowAt.toNat + (e.eraseUnit preferred).size.toNat) :
    z.Overruns preferred := by
  obtain ⟨hunit, haligned, hend⟩ := eraseUnit_of_large hlarge
  have hwindow := h.windowAt_eq
  have hlt := Address.toNat_lt e.windowAt
  have hstop := Address.toNat_lt z.stop
  have hsize := preferred.size_eq
  rw [hunit] at hlarge hpast
  rw [h.zoneEnd_eq] at hend
  rw [Zone.windowStart, Zone.limit] at hwindow
  have htop : z.stop.toNat = 2 ^ 32 - 1 := by omega
  have hregion : e.windowAt.toNat + preferred.size.toNat = 2 ^ 32 := by
    rcases hsize with hs | hs | hs <;> rw [hs] at haligned hpast hend ⊢ <;> omega
  refine ⟨hlarge, UInt32.toNat_inj.1 htop, ?_, ?_⟩
  · rcases hsize with hs | hs | hs <;> rw [hs] at hregion <;> omega
  · omega

end Engine

namespace Pipeline

variable {cfg : Config} {z : Zone} {m : Nat} {p q : Pipeline} {t : List Exchange} {k : Tick}

/-- The region that an erase command names. -/
theorem Works.eq_of_erase (h : Works cfg p t k q) {e : Exchange} (he : e ∈ t) {start : Address}
    {unit : EraseUnit} (hc : e.command = .erase start unit) :
    start = p.eraseBase cfg ∧ unit = p.engine.eraseUnit cfg.eraseUnit := by
  cases h with
  | starved _ _ => cases he
  | unread _ _ _ =>
      rw [List.mem_singleton.1 he] at hc
      cases hc
  | stale _ _ _ erases =>
      rcases List.mem_cons.1 he with rfl | he
      · cases hc
      cases erases with
      | locked _ =>
          rw [List.mem_singleton.1 he] at hc
          cases hc
      | refused _ | started =>
          rcases List.mem_cons.1 he with rfl | he
          · cases hc
          rw [List.mem_singleton.1 he] at hc
          cases hc
          exact ⟨rfl, rfl⟩
  | fresh _ _ _ writes =>
      rcases List.mem_cons.1 he with rfl | he
      · cases hc
      exact absurd hc (writes.ne_erase he _ _)
  | resumed _ writes => exact absurd hc (writes.ne_erase he _ _)

theorem Ticks.eq_of_erase (h : Ticks cfg p t k q) {e : Exchange} (he : e ∈ t) {start : Address}
    {unit : EraseUnit} (hc : e.command = .erase start unit) :
    p.opened.engine.attempts ≠ 0 ∧ start = p.opened.eraseBase cfg ∧
      unit = p.opened.engine.eraseUnit cfg.eraseUnit := by
  cases h with
  | resting _ _ => cases he
  | abandoned _ _ =>
      rw [List.mem_singleton.1 he] at hc
      cases hc
  | unanswered _ _ _ | busy _ _ _ =>
      simp only [greeting, List.mem_cons, List.not_mem_nil, or_false] at he
      rcases he with rfl | rfl <;> cases hc
  | worked _ left _ works =>
      simp only [greeting, List.cons_append, List.nil_append, List.mem_cons] at he
      rcases he with rfl | rfl | he
      · cases hc
      · cases hc
      · exact ⟨left, works.eq_of_erase he hc⟩

theorem Ticks.endsInside (h : Ticks cfg p t k q) (hp : p.engine.Steady z m)
    (hz : ¬z.Overruns cfg.eraseUnit) : ∀ e ∈ t, p.EndsInside e.command := by
  obtain ⟨hopened, -⟩ := steady_opened hp
  intro e he start unit hc hlarge
  obtain ⟨-, rfl, rfl⟩ := h.eq_of_erase he hc
  have hregion := regionFor_eraseBase cfg p.opened
  rw [hregion.start_eq hlarge, hp.zoneEnd_eq]
  by_contra hpast
  exact hz (hopened.toPlaced.overruns hlarge (not_le.1 hpast))

theorem Ticks.endsInside_of_attempts (h : Ticks cfg p t k q) (hp : p.engine.attempts = 0) :
    ∀ e ∈ t, p.EndsInside e.command := by
  intro e he start unit hc
  obtain ⟨left, -, -⟩ := h.eq_of_erase he hc
  exact absurd ((attempts_opened p).trans hp) left

/-- Any chip may find the window at the head of the queue written. -/
theorem exists_commits (cfg : Config) (hstage : p.engine.stage = .idle)
    (hleft : p.engine.attempts ≠ 0) (hhead : p.buffer.head? ≠ none) :
    ∃ t q, Ticks cfg p t .committed q := by
  obtain ⟨block, hblock⟩ := Option.ne_none_iff_exists'.1 hhead
  rw [← buffer_opened] at hblock
  have hdone : (p.opened.compared .same).cleared.engine.last.needsProgram = false := by
    rw [last_cleared]
    rfl
  exact ⟨_, _, ticks_of_works (.inr hhead) hleft
    (.fresh (stage_opened_of_idle hstage) hblock rfl (.written hdone))⟩

end Pipeline

namespace Session

open Pipeline

variable {cfg : Config} {zone : Zone} {n : Nat} {s s' : Session} {t : List Exchange} {k : Tick}

/-- Every tick of a session keeps discipline, and the large regions that it erases end
inside the zone. -/
def KeepsDiscipline (cfg : Config) : Prop :=
  ∀ {s : Session} {t : List Exchange} {k : Tick} {q : Pipeline}, Reachable cfg s →
    Ends (s.commitImageTail.toPipeline.tick cfg) t (k, q) →
    s.commitImageTail.Disciplined t k q ∧ ∀ e ∈ t, s.commitImageTail.EndsInside e.command

/-! A session does any step at some time. -/

theorem commitImageTail_withPipeline_skipped (s : Session) (skipped : UInt8) (q : Pipeline) :
    { s with skipped := skipped }.commitImageTail.withPipeline q =
      { s.commitImageTail.withPipeline q with skipped := skipped } := by
  rw [commitImageTail_frame { s with skipped := skipped }, s.commitImageTail_frame]
  rfl

/-- A step, also one in the middle of a status request, leads to a session that is reachable
but for the ticks skipped. -/
theorem Reachable.step (h : Reachable cfg s) (steps : Steps cfg s t k s') :
    ∃ skipped, Reachable cfg { s' with skipped := skipped } := by
  obtain ⟨skipped, hdue, hge⟩ := exists_due cfg (P := Reachable cfg) h
    fun _ _ hs hthrottled => hs.perform hthrottled
  cases steps with
  | step ticks =>
      rw [← s.commitImageTail_skipped 0] at ticks
      have hstep : Steps cfg { s with skipped := 0 } t k _ := .step ticks
      rw [commitImageTail_withPipeline_skipped] at hstep
      have hends := Steps.ends (s := { s with skipped := skipped }) hstep hge 0
      exact ⟨0, hdue.perform hends⟩

/-! A session gets to every window of its zone. -/

/-- The windows before the one with a number were committed, and of the blocks behind them
some wait in the buffer. -/
structure StandsAt (cfg : Config) (zone : Zone) (n queued : Nat) (s : Session) : Prop where
  tracks : s.Tracks zone n n
  stage_eq : s.engine.stage = .idle
  attempts_eq : s.engine.attempts = cfg.maxAttempts
  committed_eq : s.buffer.committed = queued
  fill_eq : s.buffer.fill = 0
  endOfImage_eq : s.endOfImage = false

theorem exists_standsAt_zero (hzone : zone ∈ cfg.zones.zones) :
    ∃ s, Reachable cfg s ∧ StandsAt cfg zone 0 0 s := by
  obtain ⟨alt, halt⟩ := ZoneTable.exists_get?_of_mem hzone
  have hselect : Ends ((initial cfg).perform cfg 0 (.selectAlt alt)) []
      (some (.selected true, (initial cfg).loaded cfg alt zone)) := by
    rw [perform, selectAlt_eq_some_iff.2 ⟨zone, halt, rfl⟩]
    exact .done _
  have htracks : ((initial cfg).loaded cfg alt zone).Tracks zone 0 0 :=
    tracks_loaded zone cfg.maxAttempts BlockRing.wellFormed_empty.clear rfl
  exact ⟨_, .perform .initial hselect, htracks, rfl, rfl, rfl, rfl, rfl⟩

theorem StandsAt.download (h : StandsAt cfg zone n 0 s) (hs : Reachable cfg s)
    (hinside : zone.start.toNat + 4096 * (n + 1) ≤ zone.stop.toNat) :
    ∃ s', Reachable cfg s' ∧ StandsAt cfg zone n 1 s' := by
  obtain ⟨bytes, hlength⟩ : ∃ bytes : Bytes, bytes.length = 4096 :=
    ⟨List.replicate 4096 0, List.length_replicate⟩
  have hends : s.engine.receiveAt.toNat + bytes.length ≤ s.engine.zoneEnd.toNat := by
    have hreceive := h.tracks.receive_eq
    rw [h.committed_eq, h.fill_eq, Zone.limit] at hreceive
    rw [hlength, h.tracks.steady.zoneEnd_eq]
    by_contra hpast
    omega
  have hroom : bytes.length ≤ s.buffer.room := by
    rw [BlockRing.room_eq _ (by rw [h.committed_eq]; decide), h.committed_eq, h.fill_eq, hlength,
      blockSize]
    by_contra hfull
    omega
  have hsome : bytes ≠ [] := List.ne_nil_of_length_pos (by omega)
  obtain ⟨receiveAt, buffer, inside, receiveAt_eq, append, hdownload⟩ :=
    exists_taken cfg hsome hends hroom
  have hreceived := tracks_received h.tracks hsome inside receiveAt_eq append
  have hfields := h.tracks.ring.append_fields append
  have hlt : buffer.fill < blockSize := hreceived.ring.fill_lt
  rw [h.committed_eq, h.fill_eq, hlength, blockSize] at hfields
  rw [blockSize] at hlt
  have hclosed : (s.received buffer receiveAt).closedIfShort cfg bytes.length =
      s.received buffer receiveAt :=
    closedIfShort_of (P := fun s' => s' = s.received buffer receiveAt)
      (commitTail_of_fill_eq_zero (show buffer.fill = 0 by omega)) rfl _
  have htaken := ends_download cfg 0 s bytes
  rw [hdownload, hclosed] at htaken
  exact ⟨_, hs.perform htaken, hreceived, h.stage_eq, h.attempts_eq,
    show buffer.committed = 1 by omega, show buffer.fill = 0 by omega, rfl⟩

theorem StandsAt.poised (h : StandsAt cfg zone n 1 s) (hmax : cfg.maxAttempts ≠ 0) :
    s.commitImageTail = s ∧ s.engine.attempts ≠ 0 ∧ s.buffer.head? ≠ none := by
  refine ⟨?_, h.attempts_eq ▸ hmax, ?_⟩
  · rw [commitImageTail, h.endOfImage_eq, if_neg Bool.false_ne_true]
  · rw [BlockRing.head?_ne_none_iff, h.committed_eq]
    exact Nat.one_pos

theorem StandsAt.commit (h : StandsAt cfg zone n 1 s) (hs : Reachable cfg s)
    (hmax : cfg.maxAttempts ≠ 0) : ∃ s', Reachable cfg s' ∧ StandsAt cfg zone (n + 1) 0 s' := by
  obtain ⟨hsame, hleft, hhead⟩ := h.poised hmax
  obtain ⟨t, q, hticks⟩ := exists_commits cfg h.stage_eq hleft hhead
  have hstep : Steps cfg s t .committed (s.commitImageTail.withPipeline q) :=
    .step (by rwa [hsame])
  obtain ⟨skipped, hreachable⟩ := hs.step hstep
  obtain ⟨_, _, _, _, _, hattempts⟩ := hticks.exchanges_of_committed h.tracks.steady
  have hbuffer : q.buffer = s.buffer.pop := hticks.leaves.buffer_eq
  refine ⟨_, hreachable, hticks.tracks h.tracks, hticks.leaves.rests rfl, hattempts, ?_, ?_, ?_⟩
  · change q.buffer.committed = 0
    rw [hbuffer, BlockRing.committed_pop, h.committed_eq]
  · change q.buffer.fill = 0
    rw [hbuffer, BlockRing.fill_pop, h.fill_eq]
  · rw [hsame]
    exact h.endOfImage_eq

theorem exists_standsAt (hzone : zone ∈ cfg.zones.zones) (hmax : cfg.maxAttempts ≠ 0)
    (hinside : zone.start.toNat + 4096 * n ≤ zone.stop.toNat) :
    ∃ s, Reachable cfg s ∧ StandsAt cfg zone n 0 s := by
  induction n with
  | zero => exact exists_standsAt_zero hzone
  | succ n ih =>
      obtain ⟨s, hs, hstands⟩ := ih (by omega)
      obtain ⟨s, hs, hstands⟩ := hstands.download hs hinside
      exact hstands.commit hs hmax

/-- A session gets to the region at the top of a zone that it overruns, and erases it. -/
theorem not_keepsDiscipline (hzone : zone ∈ cfg.zones.zones) (hmax : cfg.maxAttempts ≠ 0)
    (hz : zone.Overruns cfg.eraseUnit) : ¬KeepsDiscipline cfg := by
  intro hkeeps
  have hsize := cfg.eraseUnit.size_eq
  have hsector := EraseUnit.lt_size hz.large
  have hstop : zone.stop.toNat = 2 ^ 32 - 1 := congrArg UInt32.toNat hz.stop_eq
  have haligned := hz.aligned
  have hle := hz.start_le
  -- the number of the window that the region begins with
  obtain ⟨n, hn⟩ : ∃ n, zone.start.toNat + 4096 * n + cfg.eraseUnit.size.toNat = 2 ^ 32 :=
    ⟨(2 ^ 32 - cfg.eraseUnit.size.toNat - zone.start.toNat) / 4096, by omega⟩
  obtain ⟨s, hs, hstands⟩ := exists_standsAt (n := n) hzone hmax (by omega)
  obtain ⟨s, hs, hstands⟩ := hstands.download hs (by omega)
  obtain ⟨hsame, hleft, hhead⟩ := hstands.poised hmax
  obtain ⟨block, q, hticks⟩ := ticks_erasing cfg hstands.stage_eq hleft hhead
  have hopened := (steady_opened hstands.tracks.steady).1
  have hwindow := hopened.windowAt_eq
  rw [Zone.windowStart_eq (by omega)] at hwindow
  have hunit : s.opened.engine.eraseUnit cfg.eraseUnit = cfg.eraseUnit := by
    refine Engine.eraseUnit_of_fits ?_ (by rw [hopened.zoneEnd_eq]; omega)
    rcases hsize with hs | hs | hs <;> rw [hs] at hn ⊢ <;> omega
  have hstart := (regionFor_eraseBase cfg s.opened).start_eq (by rw [hunit]; exact hz.large)
  obtain ⟨-, hends⟩ := hkeeps hs (by rw [hsame]; exact ends_tick.2 hticks)
  have hinside := hends _ (List.mem_append_right _ (.tail _ (.tail _ (.head _)))) _ _ rfl
    (by rw [hunit]; exact hz.large)
  rw [hsame, hunit, hstart, hwindow, hstands.tracks.steady.zoneEnd_eq] at hinside
  omega

/-- The ticks of a session are in order in every other respect, and the large regions end
inside the zone exactly if no zone is overrun, or no attempt is made at all. -/
theorem keepsDiscipline_iff (cfg : Config) :
    (∀ {s : Session} {t : List Exchange} {k : Tick} {q : Pipeline}, Reachable cfg s →
      Ends (s.commitImageTail.toPipeline.tick cfg) t (k, q) →
      s.commitImageTail.Disciplined t k q) ∧
    (KeepsDiscipline cfg ↔
      cfg.maxAttempts = 0 ∨ ∀ zone ∈ cfg.zones.zones, ¬zone.Overruns cfg.eraseUnit) := by
  have hdisciplined {s : Session} {t : List Exchange} {k : Tick} {q : Pipeline}
      (hs : Reachable cfg s) (hends : Ends (s.commitImageTail.toPipeline.tick cfg) t (k, q)) :
      s.commitImageTail.Disciplined t k q := by
    obtain ⟨_, z, m, n, -, -, htracks⟩ := hs.located.commitImageTail
    exact (ends_tick.1 hends).disciplined htracks
  refine ⟨hdisciplined, ?_, ?_⟩
  · intro hkeeps
    by_contra hcond
    push Not at hcond
    obtain ⟨hmax, zone, hzone, hz⟩ := hcond
    exact not_keepsDiscipline hzone hmax hz hkeeps
  · intro hcond s t k q hs hends
    refine ⟨hdisciplined hs hends, ?_⟩
    obtain ⟨zone, z, m, n, hzone, hz, htracks⟩ := hs.located.commitImageTail
    rcases hcond with hmax | hzones
    · refine (ends_tick.1 hends).endsInside_of_attempts ?_
      have hle := hs.attempts_le
      obtain ⟨receiveAt, hengine⟩ := s.engine_commitImageTail
      rw [hmax] at hle
      rw [hengine]
      exact UInt8.toNat_inj.1 (Nat.le_zero.1 hle)
    · refine (ends_tick.1 hends).endsInside htracks.steady ?_
      rcases hz with rfl | rfl
      · exact hzones z (List.mem_of_getElem? hzone)
      · exact fun hvacant => absurd hvacant.stop_eq (by decide)

/-- A zone of one region of 64 KiB that leaves out the last byte of the address space: the
region is erased all the same. -/
theorem not_keepsDiscipline_top :
    ¬KeepsDiscipline {
      zones := ⟨[⟨.internal, 0xffff0000, 0xffffffff, "top"⟩], by simp, by decide⟩
      eraseUnit := .block64K } :=
  not_keepsDiscipline (List.mem_singleton_self _) (by decide)
    ⟨by decide, rfl, by decide, by decide⟩

end Session

end DfuLoader
