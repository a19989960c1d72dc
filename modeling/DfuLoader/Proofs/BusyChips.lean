import DfuLoader.Proofs.Effort
import DfuLoader.Proofs.FlowControl

/-!
# Chips at work

An erase or program command only starts its work, and the chip has to be left alone until
a status read has shown that it is done. A tick keeps to that by itself: it asks for the
status of its chip before anything else, and the command that sets a chip to work is its
last. An upload does not ask, it reads at once. So a session spares chips at work from
everything but the reads of its uploads, and from these only if it can never set a chip
to work (`sparesWork_iff`).
-/

namespace DfuLoader

namespace Command

/-- The commands that must not reach a chip at work. -/
def Disturbs : Command → Prop
  | .read _ _ | .verify _ _ | .writeEnable | .erase _ _ | .program _ _ => True
  | .select _ | .readStatus | .vendorIn _ _ _ | .vendorOut _ _ _ | .reboot => False

def IsRead : Command → Prop
  | .read _ _ => True
  | _ => False

end Command

/-- What the exchanges tell about the bus: the chip that was selected last, and the chips
whose work has not been seen done. -/
structure Bus where
  selected : Chip
  working : Chip → Bool

namespace Bus

def quiet (chip : Chip) : Bus := ⟨chip, fun _ => false⟩

def note (b : Bus) (working : Bool) : Bus :=
  { b with working := fun chip => if chip = b.selected then working else b.working chip }

def after (b : Bus) : Exchange → Bus
  | ⟨.select chip, _⟩ => { b with selected := chip }
  | ⟨.readStatus, .ok status⟩ => if status &&& busyBit != 0 then b else b.note false
  | ⟨.erase _ _, .ok _⟩ | ⟨.program _ _, .ok _⟩ => b.note true
  | _ => b

/-- None of the watched commands goes to a chip at work. -/
def Spares (watched : Command → Prop) : Bus → List Exchange → Prop
  | _, [] => True
  | b, e :: t => (watched e.command → b.working b.selected = false) ∧ (b.after e).Spares watched t

variable {watched : Command → Prop} {b : Bus} {t t' : List Exchange}

theorem spares_nil (b : Bus) : b.Spares watched [] := trivial

theorem spares_cons {e : Exchange} :
    b.Spares watched (e :: t) ↔
      (watched e.command → b.working b.selected = false) ∧ (b.after e).Spares watched t := Iff.rfl

theorem spares_append :
    b.Spares watched (t ++ t') ↔ b.Spares watched t ∧ (t.foldl after b).Spares watched t' := by
  induction t generalizing b with
  | nil => simp [spares_nil]
  | cons e t ih => rw [List.cons_append, spares_cons, spares_cons, ih, and_assoc, List.foldl_cons]

theorem Spares.mono {watched' : Command → Prop} (h : b.Spares watched t)
    (hsub : ∀ e ∈ t, watched' e.command → watched e.command) : b.Spares watched' t := by
  induction t generalizing b with
  | nil => exact b.spares_nil
  | cons e t ih =>
      obtain ⟨hhead, htail⟩ := spares_cons.1 h
      refine spares_cons.2 ⟨fun hc => hhead (hsub e List.mem_cons_self hc), ?_⟩
      exact ih htail fun e' he' => hsub e' (List.mem_cons_of_mem _ he')

theorem working_note_false (hquiet : ∀ chip, b.working chip = false) (chip : Chip) :
    (b.note false).working chip = false := by
  change (if chip = b.selected then false else b.working chip) = false
  rw [hquiet, ite_self]

theorem after_readStatus {status : UInt8} (h : (status &&& busyBit != 0) = false) :
    b.after ⟨.readStatus, .ok status⟩ = b.note false := if_neg (by simp [h])

end Bus

def Exchange.Starts : Exchange → Prop
  | ⟨.erase _ _, .ok _⟩ | ⟨.program _ _, .ok _⟩ => True
  | _ => False

namespace Bus

variable {watched : Command → Prop} {b : Bus} {t : List Exchange} {e : Exchange}

theorem working_after_of_not_starts (h : ¬e.Starts) (hquiet : ∀ chip, b.working chip = false)
    (chip : Chip) : (b.after e).working chip = false := by
  rcases e with ⟨c, reply⟩
  cases c with
  | select chip' => exact hquiet chip
  | readStatus =>
      cases reply with
      | error fault => exact hquiet chip
      | ok status =>
          by_cases hbusy : (status &&& busyBit != 0) = true
          · rw [after, if_pos hbusy]
            exact hquiet chip
          · rw [after_readStatus (Bool.not_eq_true _ ▸ hbusy)]
            exact working_note_false hquiet chip
  | erase start unit =>
      cases reply with
      | error fault => exact hquiet chip
      | ok done => exact (h trivial).elim
  | program start bytes =>
      cases reply with
      | error fault => exact hquiet chip
      | ok done => exact (h trivial).elim
  | read | writeEnable | verify | vendorIn | vendorOut | reboot => exact hquiet chip

theorem spares_of_not_starts (h : ∀ e ∈ t, ¬e.Starts) (hquiet : ∀ chip, b.working chip = false) :
    b.Spares watched t := by
  induction t generalizing b with
  | nil => exact b.spares_nil
  | cons e t ih =>
      have hrest : ∀ e' ∈ t, ¬e'.Starts := fun e' he' => h e' (List.mem_cons_of_mem _ he')
      refine spares_cons.2 ⟨fun _ => hquiet _, ih hrest ?_⟩
      exact working_after_of_not_starts (h e List.mem_cons_self) hquiet

end Bus

namespace Pipeline

variable {cfg : Config} {p q : Pipeline} {t : List Exchange} {k : Tick} {b : Bus}

/-! A tick asks for the status first, and sets a chip to work last. -/

theorem Programs.spares {block : Bytes} (h : Programs p block t k q)
    (hb : b.working b.selected = false) : b.Spares Command.Disturbs t := by
  cases h with
  | locked fault => exact ⟨fun _ => hb, trivial⟩
  | refused fault => exact ⟨fun _ => hb, fun _ => hb, trivial⟩
  | started => exact ⟨fun _ => hb, fun _ => hb, trivial⟩

theorem Writes.spares (h : Writes cfg p t k q) (hb : b.working b.selected = false) :
    b.Spares Command.Disturbs t := by
  cases h with
  | page due part head programs => exact programs.spares hb
  | written _ | passed _ _ | starved _ _ _ => exact b.spares_nil

theorem Erases.spares (h : Erases cfg p t k q) (hb : b.working b.selected = false) :
    b.Spares Command.Disturbs t := by
  cases h with
  | locked fault => exact ⟨fun _ => hb, trivial⟩
  | refused fault => exact ⟨fun _ => hb, fun _ => hb, trivial⟩
  | started => exact ⟨fun _ => hb, fun _ => hb, trivial⟩

theorem Works.spares (h : Works cfg p t k q) (hb : b.working b.selected = false) :
    b.Spares Command.Disturbs t := by
  cases h with
  | starved stage empty => exact b.spares_nil
  | unread stage head fault => exact ⟨fun _ => hb, trivial⟩
  | stale stage head needed erases => exact ⟨fun _ => hb, erases.spares hb⟩
  | fresh stage head spared writes => exact ⟨fun _ => hb, writes.spares hb⟩
  | resumed stage writes => exact writes.spares hb

/-- A tick disturbs no chip, whatever was at work before it. -/
theorem Ticks.spares (h : Ticks cfg p t k q) (b : Bus) : b.Spares Command.Disturbs t := by
  cases h with
  | resting stage empty => exact b.spares_nil
  | abandoned attended spent => exact ⟨False.elim, trivial⟩
  | unanswered attended left fault => exact ⟨False.elim, False.elim, trivial⟩
  | busy attended left working => exact ⟨False.elim, False.elim, trivial⟩
  | worked attended left ready works =>
      refine ⟨False.elim, False.elim, works.spares ?_⟩
      rw [Bus.after_readStatus ready]
      exact if_pos rfl

theorem Ticks.not_isRead {z : Zone} {m : Nat} (h : Ticks cfg p t k q)
    (hp : p.engine.Steady z m) : ∀ e ∈ t, ¬e.command.IsRead := by
  rcases h.exchanges hp with rfl | rfl | ⟨status, works, rfl, hworks⟩
  · exact List.forall_mem_nil _
  · exact List.forall_mem_singleton.2 id
  · refine List.forall_mem_cons.2 ⟨id, List.forall_mem_cons.2 ⟨id, fun e he hread => ?_⟩⟩
    have honWindow := hworks e he
    generalize e.command = c at honWindow hread
    cases honWindow <;> exact hread

/-- A tick may erase the window that it opens, and the chip is at work then. -/
theorem exists_erases (cfg : Config) {z : Zone} {m : Nat} (hp : p.engine.Steady z m)
    (hstage : p.engine.stage = .idle) (hleft : p.engine.attempts ≠ 0)
    (hhead : p.buffer.head? ≠ none) :
    ∃ t q, Ticks cfg p t .progress q ∧
      ∀ b : Bus, (t.foldl Bus.after b).working z.chip = true := by
  obtain ⟨block, q, hticks⟩ := ticks_erasing cfg hstage hleft hhead
  have hchip := (steady_opened hp).1.chip_eq
  refine ⟨_, _, hticks, ?_⟩
  intro b
  simp [greeting, Bus.after, Bus.note, hchip]

end Pipeline

namespace Session

open Dialogue

/-- The sessions that operations of an allowed kind lead to from power-on, with the
exchanges on the way. -/
inductive Runs (cfg : Config) (allowed : Operation → Prop) : List Exchange → Session → Prop
  | initial : Runs cfg allowed [] (.initial cfg)
  | perform {s s' : Session} {limit : Nat} {op : Operation} {t t' : List Exchange} {a : Answer}
      (runs : Runs cfg allowed t s) (permitted : allowed op)
      (ends : Ends (s.perform cfg limit op) t' (some (a, s'))) : Runs cfg allowed (t ++ t') s'

/-- No run of allowed operations gives a watched command to a chip at work. -/
def SparesWork (cfg : Config) (allowed : Operation → Prop) (watched : Command → Prop) : Prop :=
  ∀ {s : Session} {limit : Nat} {op : Operation} {t t' : List Exchange}
    {r : Option (Answer × Session)} (chip : Chip),
    Runs cfg allowed t s → allowed op → Ends (s.perform cfg limit op) t' r →
    (Bus.quiet chip).Spares watched (t ++ t')

variable {cfg : Config} {allowed : Operation → Prop} {limit : Nat} {s s' : Session}
  {t t' : List Exchange} {k : Tick} {b : Bus} {zone : Zone}

theorem Runs.reachable (h : Runs cfg allowed t s) : Reachable cfg s := by
  induction h with
  | initial => exact .initial
  | perform _ _ ends ih => exact .perform ih ends

theorem Steps.spares (h : Steps cfg s t k s') (b : Bus) : b.Spares Command.Disturbs t := by
  cases h with
  | step ticks => exact ticks.spares b

theorem Steps.not_isRead (h : Steps cfg s t k s') (hs : Located cfg s) :
    ∀ e ∈ t, ¬e.command.IsRead := by
  obtain ⟨_, _, _, _, -, -, htracks⟩ := hs
  cases h with
  | step ticks => exact ticks.not_isRead (tracks_commitImageTail htracks).steady

theorem Located.congr (hs : Located cfg s) (hpipeline : s'.toPipeline = s.toPipeline)
    (halt : s'.alt = s.alt) : Located cfg s' := by
  obtain ⟨zone, z, m, n, hzone, hz, htracks⟩ := hs
  exact ⟨zone, z, m, n, by rw [halt, hzone], hz, by rw [hpipeline]; exact htracks⟩

theorem Performs.not_isRead {op : Operation} {r : Option (Answer × Session)}
    (h : Performs cfg limit s op t r) (hs : Located cfg s) (hop : ¬op.IsUpload) :
    ∀ e ∈ t, ¬e.command.IsRead :=
  h.trace (I := Located cfg) (P := fun t => ∀ e ∈ t, ¬e.command.IsRead) hs hop
    (List.forall_mem_nil _) (List.forall_mem_singleton.2 id)
    (fun h h' => List.forall_mem_append.2 ⟨h, h'⟩) (fun _ _ hp ha hs => hs.congr hp ha)
    (fun steps hs => ⟨steps.not_isRead hs, steps.located hs⟩)

/-- Everything but a read spares chips at work. -/
theorem Performs.spares {op : Operation} {r : Option (Answer × Session)}
    (h : Performs cfg limit s op t r) (b : Bus) :
    b.Spares (fun c => c.Disturbs ∧ ¬c.IsRead) t := by
  by_cases hop : op.IsUpload
  · cases h with
    | upload uploads =>
        cases uploads with
        | finished none_left => exact b.spares_nil
        | unread some_left fault => exact ⟨fun h => h.1.elim, fun h => (h.2 trivial).elim, trivial⟩
        | read some_left bytes => exact ⟨fun h => h.1.elim, fun h => (h.2 trivial).elim, trivial⟩
    | _ => exact hop.elim
  · have hspares : ∀ b : Bus, b.Spares Command.Disturbs t :=
      h.trace (I := fun _ => True) (P := fun t => ∀ b : Bus, b.Spares Command.Disturbs t) trivial
        hop
        Bus.spares_nil (fun b => ⟨False.elim, trivial⟩)
        (fun h h' b => Bus.spares_append.2 ⟨h b, h' _⟩) (fun _ _ _ _ _ => trivial)
        (fun steps _ => ⟨steps.spares, trivial⟩)
    exact (hspares b).mono fun e _ hc => hc.1

theorem Runs.spares (h : Runs cfg allowed t s) (b : Bus) :
    b.Spares (fun c => c.Disturbs ∧ ¬c.IsRead) t := by
  induction h with
  | initial => exact b.spares_nil
  | perform _ _ ends ih => exact Bus.spares_append.2 ⟨ih, (performs_of_ends ends).spares _⟩

theorem Runs.not_isRead (h : Runs cfg allowed t s) (hallowed : ∀ op, allowed op → ¬op.IsUpload) :
    ∀ e ∈ t, ¬e.command.IsRead := by
  induction h with
  | initial => exact List.forall_mem_nil _
  | perform runs permitted ends ih =>
      have hop := (performs_of_ends ends).not_isRead runs.reachable.located (hallowed _ permitted)
      exact List.forall_mem_append.2 ⟨ih, hop⟩

/-! A loader that never works on a window sets no chip to work. -/

def Workless (cfg : Config) : Prop :=
  cfg.maxAttempts = 0 ∨ ∀ zone ∈ cfg.zones.zones, zone.stop.toNat ≤ zone.start.toNat

theorem Steps.not_starts (h : Steps cfg s t k s') (hcfg : Workless cfg) (hs : Located cfg s)
    (hle : s.engine.attempts.toNat ≤ cfg.maxAttempts.toNat) : ∀ e ∈ t, ¬e.Starts := by
  have hattempts := s.keeps_commitImageTail.attempts_eq
  obtain ⟨zone, z, m, n, hzone, hz, htracks⟩ := hs.commitImageTail
  cases h with
  | step ticks =>
      rcases hcfg with hmax | hempty
      · have hzero : s.commitImageTail.opened.engine.attempts = 0 := by
          rw [hmax] at hle
          rw [Pipeline.attempts_opened, hattempts]
          exact UInt8.toNat_inj.1 (Nat.le_zero.1 hle)
        cases ticks with
        | resting stage empty => exact List.forall_mem_nil _
        | abandoned attended spent => exact List.forall_mem_singleton.2 id
        | unanswered attended left fault => exact absurd hzero left
        | busy attended left working => exact absurd hzero left
        | worked attended left ready works => exact absurd hzero left
      · rcases ticks.attended_or with hattended | ⟨rfl, -, -⟩
        swap
        · exact List.forall_mem_nil _
        have hwindow := htracks.window_lt (htracks.committed_pos hattended)
        rcases hz with rfl | rfl
        · have hle := hempty z (List.mem_of_getElem? hzone)
          omega
        · exact absurd hwindow (Nat.not_lt_zero _)

theorem Performs.not_starts {op : Operation} {r : Option (Answer × Session)}
    (h : Performs cfg limit s op t r) (hcfg : Workless cfg) (hs : Reachable cfg s) :
    ∀ e ∈ t, ¬e.Starts := by
  by_cases hop : op.IsUpload
  · cases h with
    | upload uploads =>
        cases uploads with
        | finished none_left => exact List.forall_mem_nil _
        | unread some_left fault =>
            exact List.forall_mem_cons.2 ⟨id, List.forall_mem_singleton.2 id⟩
        | read some_left bytes => exact List.forall_mem_cons.2 ⟨id, List.forall_mem_singleton.2 id⟩
    | _ => exact hop.elim
  · exact h.trace
      (I := fun s => Located cfg s ∧ s.engine.attempts.toNat ≤ cfg.maxAttempts.toNat)
      (P := fun t => ∀ e ∈ t, ¬e.Starts) ⟨hs.located, hs.attempts_le⟩ hop
      (List.forall_mem_nil _) (List.forall_mem_singleton.2 id)
      (fun h h' => List.forall_mem_append.2 ⟨h, h'⟩)
      (fun _ _ hp ha hs => ⟨hs.1.congr hp ha, by rw [hp]; exact hs.2⟩)
      (fun steps hs => ⟨steps.not_starts hcfg hs.1 hs.2, steps.located hs.1,
        steps.attempts_le hs.2⟩)

theorem Runs.not_starts (h : Runs cfg allowed t s) (hcfg : Workless cfg) : ∀ e ∈ t, ¬e.Starts := by
  induction h with
  | initial => exact List.forall_mem_nil _
  | perform runs _ ends ih =>
      have hnext := (performs_of_ends ends).not_starts hcfg runs.reachable
      exact List.forall_mem_append.2 ⟨ih, hnext⟩

theorem sparesWork_of_workless {watched : Command → Prop} (hcfg : Workless cfg) :
    SparesWork cfg allowed watched := by
  intro s limit op t t' r chip hruns _ hends
  have hnext := (performs_of_ends hends).not_starts hcfg hruns.reachable
  have hall := List.forall_mem_append.2 ⟨hruns.not_starts hcfg, hnext⟩
  exact Bus.spares_of_not_starts hall fun _ => rfl

/-! Any other loader can erase a window and be asked for an upload while the chip is at
work. -/

/-- The first window of the zone waits to be worked on, and nothing was uploaded. -/
structure Waiting (cfg : Config) (zone : Zone) (s : Session) : Prop where
  tracks : s.Tracks zone 0 0
  queued : 0 < s.commitImageTail.buffer.committed
  stage_eq : s.engine.stage = .idle
  attempts_eq : s.engine.attempts = cfg.maxAttempts
  readAt_eq : s.engine.readAt = zone.start

theorem committed_commitTail_pos (h : s.buffer.WellFormed) (hne : s.buffer.isEmpty = false) :
    0 < s.commitTail.buffer.committed := by
  by_cases hfill : s.buffer.fill = 0
  · rw [commitTail_of_fill_eq_zero hfill, Nat.pos_iff_ne_zero]
    intro hcommitted
    rw [BlockRing.isEmpty_iff.2 ⟨hcommitted, hfill⟩] at hne
    cases hne
  · rw [commitTail_of_fill_ne_zero h hfill]
    exact Nat.succ_pos _

theorem isEmpty_closedIfShort (h : s.buffer.WellFormed) (hne : s.buffer.isEmpty = false)
    (length : Nat) : (s.closedIfShort cfg length).buffer.isEmpty = false := by
  have htail : s.commitTail.buffer.isEmpty = false := by
    have hpos := committed_commitTail_pos h hne
    rw [Bool.eq_false_iff, ne_eq, BlockRing.isEmpty_iff]
    omega
  exact closedIfShort_of (P := fun s => s.buffer.isEmpty = false) htail hne length

/-- One byte and the end of the image are left to be worked on. -/
theorem exists_waiting (hzone : zone ∈ cfg.zones.zones) (hne : zone.start.toNat < zone.stop.toNat) :
    ∃ t s, Runs cfg (fun _ => True) t s ∧ Waiting cfg zone s := by
  obtain ⟨alt, halt⟩ := ZoneTable.exists_get?_of_mem hzone
  have hring : BlockRing.empty.clear.WellFormed := BlockRing.wellFormed_empty.clear
  let s₁ := (initial cfg).loaded cfg alt zone
  have hselect : Ends ((initial cfg).perform cfg 0 (.selectAlt alt)) []
      (some (.selected true, s₁)) := by
    rw [perform, selectAlt_eq_some_iff.2 ⟨zone, halt, rfl⟩]
    exact .done _
  have htracks : s₁.Tracks zone 0 0 := Pipeline.tracks_loaded zone cfg.maxAttempts hring rfl
  have hinside : s₁.engine.receiveAt.toNat + 1 ≤ s₁.engine.zoneEnd.toNat := hne
  have hroom : 1 ≤ BlockRing.empty.clear.room := by decide
  obtain ⟨receiveAt, buffer, inside, receiveAt_eq, append, hdownload⟩ :=
    exists_taken cfg (List.cons_ne_nil 0 []) hinside hroom
  have hends := ends_download cfg 0 s₁ [0]
  rw [hdownload] at hends
  have h₁ : Runs cfg (fun _ => True) [] s₁ := .perform .initial trivial hselect
  have h₂ : Runs cfg (fun _ => True) [] _ := .perform h₁ trivial hends
  have hreceived := tracks_received htracks (List.cons_ne_nil 0 []) inside receiveAt_eq append
  have hclosed : ((s₁.received buffer receiveAt).closedIfShort cfg 1).Tracks zone 0 0 :=
    tracks_closedIfShort hreceived 1
  have hqueued : buffer.isEmpty = false := by
    have hfields := htracks.ring.append_fields append
    change _ = 0 * blockSize + 0 + 1 at hfields
    rw [Bool.eq_false_iff, ne_eq, BlockRing.isEmpty_iff]
    rintro ⟨hcommitted, hfill⟩
    rw [hcommitted, hfill] at hfields
    omega
  have hlast : (((s₁.received buffer receiveAt).closedIfShort cfg 1).buffer).isEmpty = false :=
    isEmpty_closedIfShort hreceived.ring hqueued 1
  obtain ⟨a, hengine⟩ := engine_closedIfShort cfg (s₁.received buffer receiveAt) 1
  have h₃ : Runs cfg (fun _ => True) [] _ := .perform h₂ trivial (ends_download_nil cfg 0 _)
  refine ⟨[], _, h₃, hclosed, committed_commitTail_pos hclosed.ring hlast, ?_, ?_, ?_⟩
  · exact congrArg Engine.stage hengine
  · exact congrArg Engine.attempts hengine
  · exact congrArg Engine.readAt hengine

theorem Waiting.due (h : Waiting cfg zone s) (hruns : Runs cfg (fun _ => True) t s) :
    ∃ t s, Runs cfg (fun _ => True) t s ∧ Waiting cfg zone s ∧ ¬s.skipped < cfg.skipTicks := by
  obtain ⟨skipped, ⟨t, hruns⟩, hdue⟩ := exists_due cfg
    (P := fun s => ∃ t, Runs cfg (fun _ => True) t s) ⟨t, hruns⟩
    fun _ _ ⟨_, hruns⟩ hthrottled => ⟨_, hruns.perform trivial hthrottled⟩
  have hsame := s.commitImageTail_skipped skipped
  exact ⟨t, _, hruns,
    ⟨h.tracks, hsame ▸ h.queued, h.stage_eq, h.attempts_eq, h.readAt_eq⟩, hdue⟩

theorem Waiting.erases (h : Waiting cfg zone s) (hdue : ¬s.skipped < cfg.skipTicks)
    (hmax : cfg.maxAttempts ≠ 0) :
    ∃ t s', Ends (s.perform cfg 0 .tick) t (some (.ticked .progress, s')) ∧
      s'.engine.chip = zone.chip ∧ s'.engine.readAt = zone.start ∧ s'.engine.zoneEnd = zone.stop ∧
      ∀ b : Bus, (t.foldl Bus.after b).working zone.chip = true := by
  obtain ⟨a, hengine⟩ := s.engine_commitImageTail
  have hsteady := (tracks_commitImageTail h.tracks).steady
  have hleft : s.commitImageTail.engine.attempts ≠ 0 := by
    rw [hengine]
    exact h.attempts_eq ▸ hmax
  have hstage : s.commitImageTail.engine.stage = .idle := by
    rw [hengine]
    exact h.stage_eq
  obtain ⟨t, q, hticks, hworking⟩ :=
    Pipeline.exists_erases cfg hsteady hstage hleft (BlockRing.head?_ne_none_iff.2 h.queued)
  have hplaced := (hticks.steady hsteady).toPlaced
  have hread : q.engine.readAt = zone.start := by
    rw [hticks.leaves.readAt_eq, hengine]
    exact h.readAt_eq
  rw [← s.commitImageTail_skipped 0] at hticks
  exact ⟨t, _, (Steps.step hticks).ends hdue 0, hplaced.chip_eq, hread, hplaced.zoneEnd_eq,
    hworking⟩

/-- An upload reads while the chip is at work. -/
theorem not_sparesWork (hmax : cfg.maxAttempts ≠ 0) (hzone : zone ∈ cfg.zones.zones)
    (hne : zone.start.toNat < zone.stop.toNat) :
    ¬SparesWork cfg (fun _ => True) Command.Disturbs := by
  intro hspares
  obtain ⟨_, _, hruns, hwaiting⟩ := exists_waiting hzone hne
  obtain ⟨t, s, hruns, hwaiting, hdue⟩ := hwaiting.due hruns
  obtain ⟨t', s', hends, hchip, hread, hend, hworking⟩ := hwaiting.erases hdue hmax
  have hlength : s'.uploadLength 1 ≠ 0 := by
    rw [uploadLength, hread, hend, Address.toNat_subSat]
    omega
  have hbytes : (List.replicate (s'.uploadLength 1) (0 : UInt8)).length = s'.uploadLength 1 :=
    List.length_replicate
  obtain ⟨⟨x, s''⟩, hupload⟩ := exists_ends_upload 1 1 hlength ⟨_, hbytes⟩
  have hperform : Ends (s'.perform cfg 0 (.upload 1 1)) _ (some (.uploaded x, s'')) :=
    ends_bind.2 ⟨_, [], _, rfl, hupload, .done _⟩
  have hspared := hspares zone.chip (.perform hruns trivial hends) trivial hperform
  obtain ⟨-, hspared⟩ := Bus.spares_append.1 hspared
  rw [List.foldl_append] at hspared
  have hworks := hworking (t.foldl Bus.after (.quiet zone.chip))
  generalize t'.foldl Bus.after _ = b at hspared hworks
  have hquiet : b.working s'.engine.chip = false := hspared.2.1 trivial
  rw [hchip, hworks] at hquiet
  cases hquiet

/-- A session spares chips at work, but for the reads of its uploads; and from these as
well exactly if it never works on a window. -/
theorem sparesWork_iff (cfg : Config) :
    SparesWork cfg (fun _ => True) (fun c => c.Disturbs ∧ ¬c.IsRead) ∧
      SparesWork cfg (fun op => ¬op.IsUpload) Command.Disturbs ∧
      (SparesWork cfg (fun _ => True) Command.Disturbs ↔
        cfg.maxAttempts = 0 ∨ ∀ zone ∈ cfg.zones.zones, zone.stop.toNat ≤ zone.start.toNat) := by
  refine ⟨?_, ?_, ?_, sparesWork_of_workless⟩
  · intro s limit op t t' r chip hruns _ hends
    exact Bus.spares_append.2 ⟨hruns.spares _, (performs_of_ends hends).spares _⟩
  · intro s limit op t t' r chip hruns hop hends
    have hperforms := performs_of_ends hends
    have hspared : (Bus.quiet chip).Spares (fun c => c.Disturbs ∧ ¬c.IsRead) (t ++ t') :=
      Bus.spares_append.2 ⟨hruns.spares _, hperforms.spares _⟩
    have hread := List.forall_mem_append.2
      ⟨hruns.not_isRead fun _ h => h, hperforms.not_isRead hruns.reachable.located hop⟩
    exact hspared.mono fun e he hc => ⟨hc, hread e he⟩
  · intro hspares
    by_contra hbusy
    push Not at hbusy
    obtain ⟨hmax, zone, hzone, hne⟩ := hbusy
    exact not_sparesWork hmax hzone hne hspares

/-- The reference board has attempts, and zones to spend them on. -/
theorem not_sparesWork_reference : ¬SparesWork {} (fun _ => True) Command.Disturbs := by
  have hzone : ⟨.cartridge, 0, 0x100, "RTC"⟩ ∈ ({} : Config).zones.zones := by
    simp [ZoneTable.reference]
  exact not_sparesWork (by decide) hzone (by decide)

end Session

end DfuLoader
