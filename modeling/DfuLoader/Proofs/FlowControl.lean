import DfuLoader.Proofs.Reachable
import Mathlib.Data.Nat.Prime.Basic
import Mathlib.Logic.Relation

/-!
# Flow control

A status request says that the next block may come as soon as a slot of the buffer is
free, but a download is refused for want of bytes, not of slots. The two agree if a
block never straddles the slots, which is so for transfers of a size that divides a
block, or if the zone fits the buffer as a whole; and in no other case
(`honestFlow_iff`).
-/

namespace DfuLoader

namespace Session

open Dialogue Relation

def Next (cfg : Config) (allowed : Operation → Prop) (s s' : Session) : Prop :=
  ∃ limit op t a, allowed op ∧ Ends (s.perform cfg limit op) t (some (a, s'))

def Operation.Fits (cfg : Config) : Operation → Prop
  | .download bytes => bytes.length ≤ cfg.transferSize.toNat
  | _ => True

/-- Whenever a status request was answered with the state in which the next block may
come, a block that is no longer than a transfer and ends in the zone is taken. -/
def HonestFlow (cfg : Config) : Prop :=
  ∀ {s₀ s₁ s s' : Session} {alt : UInt8} {limit : Nat} {t : List Exchange}
    {report : StatusReport} {bytes : Bytes},
    Reachable cfg s₀ → s₀.selectAlt cfg alt = some s₁ →
    ReflTransGen (Next cfg (Operation.Fits cfg)) s₁ s →
    Ends (s.perform cfg limit .getStatus) t (some (.reported report, s')) →
    report.state = .downloadIdle →
    bytes ≠ [] → bytes.length ≤ cfg.transferSize.toNat →
    s'.engine.receiveAt.toNat + bytes.length ≤ s'.engine.zoneEnd.toNat →
    (s'.download cfg bytes).1 = .ok ()

structure Flows (cfg : Config) (s : Session) : Prop where
  located : Located cfg s
  open_image : s.state = .downloadSync ∨ s.state = .downloadIdle → s.endOfImage = false
  free : s.state = .downloadIdle → s.buffer.committed < 2
  whole : cfg.transferSize.toNat ∣ blockSize → cfg.transferSize.toNat ∣ s.buffer.fill

variable {cfg : Config} {zone : Zone} {limit j : Nat} {s s' : Session} {t : List Exchange}
  {k : Tick}

/-! Closing a block empties the slot under way, and a tick closes one only at the end
of an image. -/

theorem fill_commitTail (h : s.buffer.WellFormed) : s.commitTail.buffer.fill = 0 := by
  by_cases hfill : s.buffer.fill = 0
  · rw [commitTail_of_fill_eq_zero hfill]
    exact hfill
  · rw [commitTail_of_fill_ne_zero h hfill]
    exact BlockRing.fill_close _

theorem fill_commitImageTail (h : s.buffer.WellFormed) :
    s.commitImageTail.buffer.fill = s.buffer.fill ∨ s.commitImageTail.buffer.fill = 0 :=
  commitImageTail_of (P := fun s' => s'.buffer.fill = s.buffer.fill ∨ s'.buffer.fill = 0)
    (.inr (fill_commitTail h)) (.inl rfl)

theorem Steps.fill (h : Steps cfg s t k s') (hs : s.buffer.WellFormed) :
    s'.buffer.fill = s.buffer.fill ∨ s'.buffer.fill = 0 := by
  cases h with
  | @step q ticks =>
      have hpop : q.buffer.fill = s.commitImageTail.buffer.fill := by
        rw [ticks.leaves.buffer_eq]
        split
        · exact BlockRing.fill_pop _
        · rfl
      change q.buffer.fill = _ ∨ q.buffer.fill = 0
      rw [hpop]
      exact fill_commitImageTail hs

theorem Steps.committed_le (h : Steps cfg s t k s') (hopen : s.endOfImage = false) :
    s'.buffer.committed ≤ s.buffer.committed := by
  cases h with
  | @step q ticks =>
      have hsame : s.commitImageTail = s := if_neg (by simp [hopen])
      change q.buffer.committed ≤ _
      rw [ticks.leaves.buffer_eq, hsame]
      split
      · rw [BlockRing.committed_pop]
        omega
      · exact le_refl _

/-! Every operation keeps the flow going. -/

theorem Steps.flows (h : Steps cfg s t k s') (hs : Flows cfg s) : Flows cfg s' := by
  obtain ⟨-, hstate, himage⟩ := h.fields
  refine ⟨h.located hs.located, ?_, ?_, ?_⟩
  · rw [hstate, himage]
    exact hs.open_image
  · intro hidle
    rw [hstate] at hidle
    have hle := h.committed_le (hs.open_image (.inr hidle))
    exact hle.trans_lt (hs.free hidle)
  · intro hdvd
    rcases h.fill hs.located.wellFormed with hfill | hfill
    · rw [hfill]
      exact hs.whole hdvd
    · rw [hfill]
      exact dvd_zero _

theorem flows_of_isEmpty (hlocated : Located cfg s) (hempty : s.buffer.isEmpty = true)
    (hopen : s.state = .downloadSync ∨ s.state = .downloadIdle → s.endOfImage = false) :
    Flows cfg s := by
  obtain ⟨hcommitted, hfill⟩ := BlockRing.isEmpty_iff.1 hempty
  refine ⟨hlocated, hopen, ?_, ?_⟩
  · intro _
    rw [hcommitted]
    decide
  · intro _
    rw [hfill]
    exact dvd_zero _

theorem Flows.of_state (hs : Flows cfg s) (hlocated : Located cfg s')
    (hfill : s'.buffer.fill = s.buffer.fill ∨ s'.buffer.fill = 0)
    (hsync : s'.state ≠ .downloadSync) (hidle : s'.state ≠ .downloadIdle) : Flows cfg s' := by
  refine ⟨hlocated, fun h => (h.elim hsync hidle).elim, fun h => absurd h hidle, ?_⟩
  intro hdvd
  rcases hfill with hfill | hfill
  · rw [hfill]
    exact hs.whole hdvd
  · rw [hfill]
    exact dvd_zero _

theorem Downloads.flows {bytes : Bytes} {x : Except SessionError Unit}
    (h : Downloads cfg s bytes x s') (hs : Flows cfg s)
    (hfits : bytes.length ≤ cfg.transferSize.toNat) : Flows cfg s' := by
  have hlocated := h.located hs.located
  have hring := hs.located.wellFormed
  cases h with
  | ended none_left => exact hs.of_state hlocated (.inl rfl) (by simp) (by simp)
  | overflowed some_left past =>
      exact hs.of_state hlocated (.inl rfl) (by simp [fail]) (by simp [fail])
  | crowded some_left inside full =>
      exact hs.of_state hlocated (.inl rfl) (by simp [fail]) (by simp [fail])
  | @taken some_left receiveAt buffer inside receiveAt_eq append =>
      obtain ⟨hnext, -⟩ := hring.append append
      have hfields := hring.append_fields append
      refine ⟨hlocated, fun _ => (closedIfShort_fields _ _).2, (fun h => by cases h), ?_⟩
      intro hdvd
      change cfg.transferSize.toNat ∣ (closedIfShort cfg _ bytes.length).buffer.fill
      rw [closedIfShort]
      split
      · rw [fill_commitTail hnext]
        exact dvd_zero _
      · -- a whole transfer moves the fill by its size, up to whole blocks
        have hlength : bytes.length = cfg.transferSize.toNat := by omega
        have hsum : cfg.transferSize.toNat ∣ buffer.committed * blockSize + buffer.fill := by
          rw [hfields, hlength]
          exact Nat.dvd_add (Nat.dvd_add (hdvd.mul_left _) (hs.whole hdvd)) (dvd_refl _)
        exact (Nat.dvd_add_right (hdvd.mul_left _)).1 hsum

theorem Reports.flows {report : StatusReport} (h : Reports cfg limit s t (some (report, s')))
    (hs : Flows cfg s) : Flows cfg s' := by
  have hlocated := h.located hs.located
  cases h with
  | ready state free =>
      exact ⟨hlocated, fun _ => hs.open_image (.inl state), fun _ => free, hs.whole⟩
  | crowded state full => exact hs
  | @drained state policy _ s' drains =>
      have hidle : Flows cfg { s with state := .idle } :=
        hs.of_state hs.located (.inl rfl) (by simp) (by simp)
      obtain ⟨-, hempty⟩ := drains.preserves (P := Flows cfg) Steps.flows hidle rfl
      exact flows_of_isEmpty hlocated hempty fun _ => rfl
  | finished state policy empty => exact flows_of_isEmpty hlocated empty fun _ => rfl
  | manifesting state policy queued =>
      obtain ⟨-, hstate, -⟩ := s.commitImageTail_fields
      exact hs.of_state hlocated (fill_commitImageTail hs.located.wellFormed)
        (by simp [hstate, state]) (by simp [hstate, state])
  | other sync manifest => exact hs

theorem Uploads.flows {room requested : Nat} {x : Except SessionError Bytes}
    (h : Uploads s room requested t x s') (hlocated : Located cfg s') (hs : Flows cfg s) :
    Flows cfg s' := by
  cases h with
  | finished none_left => exact hs.of_state hlocated (.inl rfl) (by simp) (by simp)
  | unread some_left fault =>
      exact hs.of_state hlocated (.inl rfl) (by simp [fail]) (by simp [fail])
  | read some_left bytes =>
      refine hs.of_state hlocated (.inl rfl) ?_ ?_
      all_goals
        change (if _ then State.uploadIdle else State.idle) ≠ _
        split <;> simp

theorem Performs.flows {op : Operation} {a : Answer}
    (h : Performs cfg limit s op t (some (a, s'))) (hfits : op.Fits cfg) (hs : Flows cfg s) :
    Flows cfg s' := by
  have hlocated := h.located hs.located
  cases h with
  | configured state known =>
      exact flows_of_isEmpty hlocated (BlockRing.isEmpty_clear _) fun _ => rfl
  | selected known => exact flows_of_isEmpty hlocated (BlockRing.isEmpty_clear _) fun _ => rfl
  | reset state => exact flows_of_isEmpty hlocated (BlockRing.isEmpty_clear _) fun _ => rfl
  | download downloads => exact downloads.flows hs hfits
  | upload uploads => exact uploads.flows hlocated hs
  | reported reports => exact reports.flows hs
  | ticked due steps =>
      exact steps.flows ⟨hs.located, hs.open_image, hs.free, hs.whole⟩
  | refused _ | fail _ =>
      exact hs.of_state hlocated (.inl rfl) (by simp [Session.fail]) (by simp [Session.fail])
  | clearStatus =>
      exact hs.of_state hlocated (.inl rfl) (by simp [Session.clearStatus])
        (by simp [Session.clearStatus])
  | abort =>
      exact hs.of_state hlocated (.inl rfl) (by simp [Session.abort]) (by simp [Session.abort])
  | unconfigured | unselected _ | allowed _ _ | detach | getState | unreset _ | polled _
  | detached _ | throttled _ => exact ⟨hlocated, hs.open_image, hs.free, hs.whole⟩

theorem flows_of_run (h : ReflTransGen (Next cfg (Operation.Fits cfg)) s s') (hs : Flows cfg s) :
    Flows cfg s' := by
  induction h with
  | refl => exact hs
  | tail _ hnext ih =>
      obtain ⟨limit, op, t, a, hfits, hends⟩ := hnext
      exact (performs_of_ends hends).flows hfits ih

theorem Reports.committed_lt {report : StatusReport}
    (h : Reports cfg limit s t (some (report, s'))) (hs : Flows cfg s)
    (hreport : report.state = .downloadIdle) : s'.buffer.committed < 2 := by
  cases h with
  | ready state free => exact free
  | other sync manifest => exact hs.free hreport
  | crowded _ _ | drained _ _ _ | finished _ _ _ | manifesting _ _ _ => cases hreport

theorem download_ok {bytes : Bytes}
    (hinside : s.engine.receiveAt.toNat + bytes.length ≤ s.engine.zoneEnd.toNat)
    (hroom : bytes.length ≤ s.buffer.room) : (s.download cfg bytes).1 = .ok () := by
  by_cases hbytes : bytes = []
  · rw [hbytes, download_nil]
  · obtain ⟨_, _, -, -, -, hdownload⟩ := exists_taken cfg hbytes hinside hroom
    rw [hdownload]

theorem length_le_room_of_download_ok {bytes : Bytes} (hbytes : bytes ≠ [])
    (hok : (s.download cfg bytes).1 = .ok ()) : bytes.length ≤ s.buffer.room := by
  obtain ⟨x, s', hdownload⟩ : ∃ x s', s.download cfg bytes = (x, s') := ⟨_, _, rfl⟩
  rw [hdownload] at hok
  cases downloads_of_eq hdownload with
  | ended none_left => exact absurd none_left hbytes
  | overflowed some_left past => cases hok
  | crowded some_left inside full => cases hok
  | taken some_left inside receiveAt_eq append =>
      exact BlockRing.append_eq_some_iff.1 ⟨_, append⟩

/-- With a free slot there is room for what a transfer holds, if transfers divide a
block or the zone fits the buffer. -/
theorem Flows.length_le_room (hs : Flows cfg s)
    (hcfg : cfg.transferSize.toNat ∣ blockSize ∨
      ∀ zone ∈ cfg.zones.zones, zone.stop.toNat - zone.start.toNat ≤ 2 * blockSize)
    (hfree : s.buffer.committed < 2) {bytes : Bytes} (hbytes : bytes ≠ [])
    (hfits : bytes.length ≤ cfg.transferSize.toNat)
    (hinside : s.engine.receiveAt.toNat + bytes.length ≤ s.engine.zoneEnd.toNat) :
    bytes.length ≤ s.buffer.room := by
  obtain ⟨zone, z, m, n, hzone, hz, htracks⟩ := hs.located
  have hlength := List.length_pos_iff.2 hbytes
  have hreceive := htracks.receive_eq
  have hlt := htracks.ring.fill_lt
  rw [htracks.steady.zoneEnd_eq] at hinside
  rw [BlockRing.room_eq _ hfree]
  rcases hcfg with hdvd | hsmall
  · -- the slot under way lacks a multiple of a transfer
    have hgap : cfg.transferSize.toNat ∣ blockSize - s.buffer.fill :=
      Nat.dvd_sub hdvd (hs.whole hdvd)
    have hle := Nat.le_of_dvd (by omega) hgap
    rw [blockSize] at hlt hle ⊢
    omega
  · have hsize : z.stop.toNat - z.start.toNat ≤ 2 * blockSize := by
      rcases hz with rfl | rfl
      · exact hsmall z (List.mem_of_getElem? hzone)
      · exact Nat.zero_le _
    rw [Zone.limit] at hreceive
    rw [blockSize] at hsize ⊢
    omega

theorem flows_selected {s₀ s₁ : Session} {alt : UInt8} (h : Reachable cfg s₀)
    (hselect : s₀.selectAlt cfg alt = some s₁) : Flows cfg s₁ := by
  obtain ⟨zone, hzone, rfl⟩ := selectAlt_eq_some_iff.1 hselect
  have hring := h.located.wellFormed.clear
  have hlocated : Located cfg (s₀.loaded cfg alt zone) :=
    located_of_loaded hzone hring (BlockRing.isEmpty_clear _) (.inl rfl)
  exact flows_of_isEmpty hlocated (BlockRing.isEmpty_clear _) fun _ => rfl

theorem honestFlow_of (hcfg : cfg.transferSize.toNat ∣ blockSize ∨
      ∀ zone ∈ cfg.zones.zones, zone.stop.toNat - zone.start.toNat ≤ 2 * blockSize) :
    HonestFlow cfg := by
  intro s₀ s₁ s s' alt limit t report bytes hreachable hselect hrun hends hreport hbytes hfits
    hinside
  have hs := flows_of_run hrun (flows_selected hreachable hselect)
  have hperforms := performs_of_ends hends
  have hs' := hperforms.flows trivial hs
  cases hperforms with
  | reported reports =>
      have hfree := reports.committed_lt hs hreport
      exact download_ok hinside (hs'.length_le_room hcfg hfree hbytes hfits hinside)

/-! A host that sends one full transfer after another and asks for the status after
each gets as close to the end of the buffer as whole transfers can. -/

/-- Some full transfers were queued in a zone and nothing of them has left the buffer. -/
structure Filled (cfg : Config) (zone : Zone) (j : Nat) (s : Session) : Prop where
  ring : s.buffer.WellFormed
  bytes_eq : s.buffer.committed * blockSize + s.buffer.fill = j * cfg.transferSize.toNat
  receiveAt_eq :
    s.engine.receiveAt.toNat = zone.start.toNat + j * cfg.transferSize.toNat
  zoneEnd_eq : s.engine.zoneEnd = zone.stop

theorem filled_loaded (s : Session) (alt : UInt8) (zone : Zone) (h : s.buffer.WellFormed) :
    Filled cfg zone 0 (s.loaded cfg alt zone) where
  ring := h.clear
  bytes_eq := by
    change 0 * blockSize + 0 = 0 * _
    rw [Nat.zero_mul, Nat.zero_mul]
  receiveAt_eq := by rw [Nat.zero_mul]; rfl
  zoneEnd_eq := rfl

theorem Filled.room (h : Filled cfg zone j s) (hj : j * cfg.transferSize.toNat < 2 * blockSize) :
    s.buffer.committed < 2 ∧ s.buffer.room = 2 * blockSize - j * cfg.transferSize.toNat := by
  have hbytes := h.bytes_eq
  have hlt : s.buffer.committed < 2 := by
    rw [blockSize] at hbytes hj
    omega
  refine ⟨hlt, ?_⟩
  rw [BlockRing.room_eq _ hlt]
  rw [blockSize] at hbytes ⊢
  omega

theorem ends_getStatus_ready (hstate : s.state = .downloadSync) (hfree : s.buffer.committed < 2) :
    Ends (s.perform cfg limit .getStatus) []
      (some (.reported (s.report cfg .downloadIdle), { s with state := .downloadIdle })) := by
  rw [perform, getStatus, hstate]
  simp only [if_pos hfree]
  exact .done _

/-- As long as there is room, the next transfer is taken and the one after invited. -/
theorem Filled.next (h : Filled cfg zone j s)
    (hlong : 2 * blockSize < zone.stop.toNat - zone.start.toNat)
    (hpos : 0 < cfg.transferSize.toNat)
    (hj : (j + 1) * cfg.transferSize.toNat < 2 * blockSize) :
    ∃ s₁ s₂ report, Next cfg (Operation.Fits cfg) s s₁ ∧
      Ends (s₁.perform cfg 0 .getStatus) [] (some (.reported report, s₂)) ∧
      report.state = .downloadIdle ∧ Filled cfg zone (j + 1) s₂ := by
  have hsucc : (j + 1) * cfg.transferSize.toNat =
      j * cfg.transferSize.toNat + cfg.transferSize.toNat := Nat.succ_mul _ _
  obtain ⟨-, hroom⟩ := h.room (by omega)
  have hlength : (List.replicate cfg.transferSize.toNat (0 : UInt8)).length =
      cfg.transferSize.toNat := List.length_replicate
  generalize List.replicate cfg.transferSize.toNat (0 : UInt8) = bytes at hlength
  have hreceive := h.receiveAt_eq
  have hsome : bytes ≠ [] := List.ne_nil_of_length_pos (by omega)
  obtain ⟨receiveAt, buffer, -, receiveAt_eq, append, hdownload⟩ :=
    exists_taken cfg hsome (by rw [h.zoneEnd_eq]; omega) (by omega)
  have hclosed : (s.received buffer receiveAt).closedIfShort cfg bytes.length =
      s.received buffer receiveAt := if_neg (by omega)
  have hends := ends_download cfg 0 s bytes
  rw [hdownload, hclosed] at hends
  have hnext : Next cfg (Operation.Fits cfg) s _ :=
    ⟨0, .download bytes, [], .downloaded (.ok ()), hlength.le, hends⟩
  have hfields := h.ring.append_fields append
  have hbytes := h.bytes_eq
  have hfilled : Filled cfg zone (j + 1)
      { s.received buffer receiveAt with state := .downloadIdle } := by
    refine ⟨(h.ring.append append).1, ?_, ?_, h.zoneEnd_eq⟩
    · change buffer.committed * blockSize + buffer.fill = _
      omega
    · change receiveAt.toNat = _
      omega
  exact ⟨_, _, _, hnext, ends_getStatus_ready rfl (hfilled.room hj).1, rfl, hfilled⟩

/-- After any number of transfers that leaves room, the next one is invited. -/
theorem filled_run {s₁ : Session} (h : Filled cfg zone 0 s₁)
    (hlong : 2 * blockSize < zone.stop.toNat - zone.start.toNat)
    (hpos : 0 < cfg.transferSize.toNat) (hj : (j + 1) * cfg.transferSize.toNat < 2 * blockSize) :
    ∃ s s' report, ReflTransGen (Next cfg (Operation.Fits cfg)) s₁ s ∧
      Ends (s.perform cfg 0 .getStatus) [] (some (.reported report, s')) ∧
      report.state = .downloadIdle ∧ Filled cfg zone (j + 1) s' := by
  induction j with
  | zero =>
      obtain ⟨s, s', report, hnext, hends, hreport, hfilled⟩ := h.next hlong hpos hj
      exact ⟨s, s', report, .single hnext, hends, hreport, hfilled⟩
  | succ j ih =>
      have hle : (j + 1) * cfg.transferSize.toNat ≤ (j + 1 + 1) * cfg.transferSize.toNat :=
        Nat.mul_le_mul_right _ (Nat.le_succ _)
      obtain ⟨s, s', report, hrun, hends, hreport, hfilled⟩ := ih (by omega)
      obtain ⟨r, r', report', hnext, hends', hreport', hfilled'⟩ := hfilled.next hlong hpos hj
      have hstatus : Next cfg (Operation.Fits cfg) s s' :=
        ⟨0, .getStatus, [], .reported report, trivial, hends⟩
      exact ⟨r, r', report', (hrun.tail hstatus).tail hnext, hends', hreport', hfilled'⟩

theorem dvd_blockSize_of_dvd {T : Nat} (hT : T ≤ 128) (h : T ∣ 2 * blockSize) : T ∣ blockSize := by
  have hbuffer : 2 * blockSize = 2 ^ 13 := by decide
  have hblock : blockSize = 2 ^ 12 := by decide
  rw [hbuffer] at h
  obtain ⟨k, -, rfl⟩ := (Nat.dvd_prime_pow Nat.prime_two).1 h
  have hk : k ≤ 7 := (Nat.pow_le_pow_iff_right (by decide)).1 hT
  rw [hblock]
  exact Nat.pow_dvd_pow 2 (by omega)

/-- Where transfers do not divide a block and a zone is larger than the buffer, the
last piece of it is invited and refused. -/
theorem not_honestFlow (hpos : 0 < cfg.transferSize.toNat) (hT : cfg.transferSize.toNat ≤ 128)
    (hdvd : ¬cfg.transferSize.toNat ∣ blockSize) (hzone : zone ∈ cfg.zones.zones)
    (hlong : 2 * blockSize < zone.stop.toNat - zone.start.toNat) : ¬HonestFlow cfg := by
  intro hhonest
  obtain ⟨alt, halt⟩ := ZoneTable.exists_get?_of_mem hzone
  have hselect : (initial cfg).selectAlt cfg alt = some ((initial cfg).loaded cfg alt zone) :=
    selectAlt_eq_some_iff.2 ⟨zone, halt, rfl⟩
  have hfirst : Filled cfg zone 0 ((initial cfg).loaded cfg alt zone) :=
    filled_loaded _ _ _ BlockRing.wellFormed_empty
  -- the most transfers that fit the buffer leave less than one behind
  obtain ⟨j, hj⟩ : ∃ j, 2 * blockSize / cfg.transferSize.toNat = j + 1 := by
    refine Nat.exists_eq_succ_of_ne_zero (Nat.div_pos ?_ hpos).ne'
    rw [blockSize]
    omega
  have hrest := Nat.div_add_mod (2 * blockSize) cfg.transferSize.toNat
  have hmod := Nat.mod_lt (2 * blockSize) hpos
  have hmodpos : 2 * blockSize % cfg.transferSize.toNat ≠ 0 := by
    intro hzero
    exact hdvd (dvd_blockSize_of_dvd hT (Nat.dvd_of_mod_eq_zero hzero))
  rw [hj, Nat.mul_comm] at hrest
  obtain ⟨s, s', report, hrun, hends, hreport, hfilled⟩ :=
    filled_run (j := j) hfirst hlong hpos (by omega)
  obtain ⟨hfree, hroom⟩ := hfilled.room (by omega)
  have hlength : (List.replicate (2 * blockSize % cfg.transferSize.toNat + 1) (0 : UInt8)).length =
      2 * blockSize % cfg.transferSize.toNat + 1 := List.length_replicate
  generalize List.replicate (2 * blockSize % cfg.transferSize.toNat + 1) (0 : UInt8) = bytes
    at hlength
  have hbytes : bytes ≠ [] := List.ne_nil_of_length_pos (by omega)
  have hinside : s'.engine.receiveAt.toNat + bytes.length ≤ s'.engine.zoneEnd.toNat := by
    rw [hfilled.receiveAt_eq, hfilled.zoneEnd_eq]
    omega
  have hok := hhonest .initial hselect hrun hends hreport hbytes (by omega) hinside
  have hle := length_le_room_of_download_ok hbytes hok
  omega

/-- Status requests are honest exactly if transfers divide a block, or no zone is larger
than the buffer. -/
theorem honestFlow_iff (cfg : Config) (hpos : 0 < cfg.transferSize.toNat)
    (hT : cfg.transferSize.toNat ≤ 128) :
    HonestFlow cfg ↔ cfg.transferSize.toNat ∣ blockSize ∨
      ∀ zone ∈ cfg.zones.zones, zone.stop.toNat - zone.start.toNat ≤ 2 * blockSize := by
  constructor
  · intro hhonest
    by_contra hcond
    push Not at hcond
    obtain ⟨hdvd, zone, hzone, hlong⟩ := hcond
    exact not_honestFlow hpos hT hdvd hzone hlong hhonest
  · exact honestFlow_of

/-- The reference board is honest. -/
theorem honestFlow_reference : HonestFlow {} :=
  (honestFlow_iff {} (by decide) (by decide)).2 (.inl (by decide))

/-- With transfers of a hundred bytes the reference board is not. -/
theorem not_honestFlow_hundred : ¬HonestFlow { transferSize := 100 } := by
  have hzone : ⟨.internal, 0x00200000, 0x01000000, "user bitstream"⟩ ∈
      ZoneTable.reference.zones := by decide
  exact not_honestFlow (by decide) (by decide) (by decide) hzone (by decide)

end Session

end DfuLoader
