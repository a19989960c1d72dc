import DfuLoader.Proofs.Reachable

/-!
# Confinement to the zone

Whatever a reachable session is asked to do, each command that it gives to a flash
chip goes to the chip of the zone of the alternate setting, and stays in that zone:
compared, read and programmed ranges lie inside, and erased regions inside the zone
rounded out to sectors (`commands_confined`). The reason is that every window that is worked on
is queued, and what is queued lies before the end of the zone.
-/

namespace DfuLoader

namespace Command

def OnChip : Command → Prop
  | .readStatus | .read _ _ | .writeEnable | .erase _ _ | .program _ _ | .verify _ _ => True
  | .select _ | .vendorIn _ _ _ | .vendorOut _ _ _ | .reboot => False

/-- The addresses of a command lie in a zone, or for an erase command in the sectors
of that zone. -/
def Within (zone : Zone) : Command → Prop
  | .read start length =>
      zone.start.toNat ≤ start.toNat ∧ start.toNat + length ≤ zone.stop.toNat
  | .verify start bytes | .program start bytes =>
      zone.start.toNat ≤ start.toNat ∧ start.toNat + bytes.length ≤ zone.stop.toNat
  | .erase start unit =>
      zone.start.toNat / 4096 * 4096 ≤ start.toNat ∧
        start.toNat + unit.size.toNat ≤ (zone.stop.toNat + 4095) / 4096 * 4096
  | _ => True

end Command

def selected (t : List Exchange) : Option Chip :=
  (t.filterMap fun e => match e.command with
    | .select chip => some chip
    | _ => none).getLast?

/-- Every command to a chip follows the selection of the chip of the zone and stays in
the zone. -/
def Confined (zone : Zone) (t : List Exchange) : Prop :=
  ∀ pre e post, t = pre ++ e :: post → e.command.OnChip →
    selected pre = some zone.chip ∧ e.command.Within zone

variable {zone z : Zone} {t t' : List Exchange} {m n : Nat}

theorem selected_append (t t' : List Exchange) :
    selected (t ++ t') = (selected t').or (selected t) := by
  rw [selected, List.filterMap_append, List.getLast?_append]
  rfl

theorem selected_cons {chip : Chip} (h : ∀ e ∈ t, ∀ chip, e.command ≠ .select chip) :
    selected (⟨.select chip, ()⟩ :: t) = some chip := by
  have hnone : selected t = none := by
    rw [selected, List.getLast?_eq_none_iff, List.filterMap_eq_nil_iff]
    intro e he
    cases hc : e.command with
    | select chip' => exact absurd hc (h e he chip')
    | _ => rfl
  have happend := selected_append [⟨.select chip, ()⟩] t
  rw [hnone] at happend
  exact happend

theorem confined_nil : Confined zone [] := by
  intro pre e post h
  exact absurd h (by simp)

theorem confined_reboot : Confined zone [⟨.reboot, ()⟩] := by
  intro pre e post h hchip
  obtain rfl : e = ⟨.reboot, ()⟩ := List.mem_singleton.1 (h ▸ by simp)
  exact hchip.elim

theorem confined_of_select
    (h : ∀ e ∈ t, (∀ chip, e.command ≠ .select chip) ∧ e.command.Within zone) :
    Confined zone (⟨.select zone.chip, ()⟩ :: t) := by
  intro pre e post heq hchip
  cases pre with
  | nil =>
      rw [List.nil_append, List.cons.injEq] at heq
      rw [← heq.1] at hchip
      exact hchip.elim
  | cons first pre =>
      rw [List.cons_append, List.cons.injEq] at heq
      obtain ⟨rfl, rfl⟩ := heq
      refine ⟨selected_cons fun e he => (h e (by simp [he])).1, (h e (by simp)).2⟩

theorem Confined.append (h : Confined zone t) (h' : Confined zone t') :
    Confined zone (t ++ t') := by
  intro pre e post heq hchip
  rcases List.append_eq_append_iff.1 heq with ⟨mid, rfl, hmid⟩ | ⟨mid, rfl, hmid⟩
  · obtain ⟨hselected, hwithin⟩ := h' mid e post hmid hchip
    rw [selected_append, hselected]
    exact ⟨rfl, hwithin⟩
  · cases mid with
    | nil =>
        obtain ⟨hselected, hwithin⟩ := h' [] e post (by simpa using hmid.symm) hchip
        cases hselected
    | cons first mid =>
        rw [List.cons_append, List.cons.injEq] at hmid
        obtain ⟨rfl, -⟩ := hmid
        exact h pre e mid rfl hchip

/-- A window that is not empty lies in the zone. -/
theorem OnWindow.within {buffer : BlockRing} {c : Command} (h : OnWindow z m buffer c)
    (hstop : z.stop.toNat ≤ 0xFFFFF000) (hm : z.start.toNat + 4096 * m < z.stop.toNat) :
    c.Within z := by
  have hnext := Zone.windowStart_succ_le_stop hm
  have hwindow := Zone.windowStart_eq hm
  cases h with
  | writeEnable => trivial
  | verify _ start_eq stop_eq =>
      rw [Command.Within, List.length_take]
      omega
  | @erase start unit start_eq inside =>
      rw [Command.Within]
      rcases inside hstop with rfl | ⟨haligned, hfit⟩
      · rw [EraseUnit.size_sector4K]
        omega
      · omega
  | program _ start_eq stop_le _ =>
      rw [Command.Within, List.length_take]
      omega

namespace Pipeline

variable {cfg : Config} {p q : Pipeline} {k : Tick}

theorem Ticks.confined (h : Ticks cfg p t k q) (hp : p.Tracks z m n)
    (hz : z = zone ∨ z = .vacant) (hstop : zone.stop.toNat ≤ 0xFFFFF000) : Confined zone t := by
  rcases h.attended_or with hattended | ⟨rfl, -, -⟩
  swap
  · exact confined_nil
  have hm := hp.window_lt (hp.committed_pos hattended)
  rcases hz with rfl | rfl
  swap
  · exact absurd hm (by simp [Zone.vacant])
  rcases h.exchanges hp.steady with rfl | rfl | ⟨status, works, rfl, hworks⟩
  · exact confined_nil
  · exact confined_reboot
  · refine confined_of_select fun e he => ?_
    rcases List.mem_cons.1 he with rfl | he
    · exact ⟨fun chip => Command.noConfusion, trivial⟩
    · exact ⟨(hworks e he).ne_select, (hworks e he).within hstop hm⟩

end Pipeline

namespace Session

variable {cfg : Config} {limit : Nat} {s s' : Session} {k : Tick}

theorem Steps.confined (h : Steps cfg s t k s') (hs : Located cfg s)
    (hzone : cfg.zones.get? s.alt = some zone) (hstop : zone.stop.toNat ≤ 0xFFFFF000) :
    Confined zone t := by
  obtain ⟨zone', z, m, n, hzone', hz, htracks⟩ := hs
  rw [hzone, Option.some.injEq] at hzone'
  subst hzone'
  cases h with
  | step ticks => exact ticks.confined (tracks_commitImageTail htracks) hz hstop

theorem Drains.confined {r : Option Session} (h : Drains cfg limit s t r) (hs : Located cfg s)
    (hzone : cfg.zones.get? s.alt = some zone) (hstop : zone.stop.toNat ≤ 0xFFFFF000) :
    Confined zone t := by
  induction h with
  | empty limit empty => exact confined_nil
  | exhausted queued => exact confined_nil
  | step queued steps rest ih =>
      have hrest := ih (steps.located hs) (steps.fields.1 ▸ hzone)
      exact (steps.confined hs hzone hstop).append hrest

theorem Uploads.confined {room requested : Nat} {x : Except SessionError Bytes}
    (h : Uploads s room requested t x s') (hs : Located cfg s)
    (hzone : cfg.zones.get? s.alt = some zone) : Confined zone t := by
  obtain ⟨zone', z, m, n, hzone', hz, htracks⟩ := hs
  rw [hzone, Option.some.injEq] at hzone'
  subst hzone'
  have hlength : s.uploadLength room ≤ z.stop.toNat - s.engine.readAt.toNat := by
    rw [uploadLength, Address.toNat_subSat, htracks.steady.zoneEnd_eq]
    omega
  have hstart := htracks.start_le_readAt
  have hread (hne : s.uploadLength room ≠ 0) (reply : Except Fault (Bytes.OfLength _)) :
      Confined zone [⟨.select s.engine.chip, ()⟩,
        ⟨.read s.engine.readAt (s.uploadLength room), reply⟩] := by
    rcases hz with rfl | rfl
    · rw [htracks.steady.chip_eq]
      refine confined_of_select fun e he => ?_
      obtain rfl := List.mem_singleton.1 he
      refine ⟨fun chip => Command.noConfusion, hstart, ?_⟩
      omega
    · have hvacant : Zone.vacant.stop.toNat = 0 := rfl
      omega
  cases h with
  | finished none_left => exact confined_nil
  | unread some_left fault => exact hread some_left _
  | read some_left bytes => exact hread some_left _

theorem Reports.confined {r : Option (StatusReport × Session)} (h : Reports cfg limit s t r)
    (hs : Located cfg s) (hzone : cfg.zones.get? s.alt = some zone)
    (hstop : zone.stop.toNat ≤ 0xFFFFF000) : Confined zone t := by
  cases h with
  | drained state policy drains => exact drains.confined hs hzone hstop
  | waiting state policy drains => exact drains.confined hs hzone hstop
  | ready _ _ | crowded _ _ | finished _ _ _ | manifesting _ _ _ | other _ _ => exact confined_nil

theorem Performs.confined {op : Operation} {r : Option (Answer × Session)}
    (h : Performs cfg limit s op t r) (hs : Located cfg s)
    (hzone : cfg.zones.get? s.alt = some zone) (hstop : zone.stop.toNat ≤ 0xFFFFF000) :
    Confined zone t := by
  cases h with
  | upload uploads => exact uploads.confined hs hzone
  | reported reports => exact reports.confined hs hzone hstop
  | unreported reports => exact reports.confined hs hzone hstop
  | ticked due steps => exact steps.confined hs hzone hstop
  | reset _ | detached _ => exact confined_reboot
  | configured _ _ | selected _ | download _ | unconfigured | unselected _ | allowed _ _
  | refused _ | fail _ | detach | clearStatus | getState | abort | unreset _ | polled _
  | throttled _ => exact confined_nil

/-- Every command that a reachable session gives to a chip goes to the chip of the zone
of its alternate setting and stays in that zone. -/
theorem commands_confined (hzones : ∀ zone ∈ cfg.zones.zones, zone.stop.toNat ≤ 0xFFFFF000)
    (hs : Reachable cfg s) {op : Operation} {r : Option (Answer × Session)}
    (h : Dialogue.Ends (s.perform cfg limit op) t r) :
    ∃ zone, cfg.zones.get? s.alt = some zone ∧ Confined zone t := by
  have hlocated := hs.located
  obtain ⟨zone, _, _, _, hzone, -, -⟩ := id hlocated
  have hmem : zone ∈ cfg.zones.zones := List.mem_of_getElem? hzone
  exact ⟨zone, hzone, (performs_of_ends h).confined hlocated hzone (hzones zone hmem)⟩

/-- An upload of one byte from the second zone of the reference board. -/
theorem commands_confined_upload :
    ∃ zone, ZoneTable.reference.get? 1 = some zone ∧
      Confined zone [⟨.select .internal, ()⟩, ⟨.read 0x340000 1, .ok ⟨[0xff], rfl⟩⟩] := by
  have hzones : ∀ zone ∈ ({} : Config).zones.zones, zone.stop.toNat ≤ 0xFFFFF000 := by decide
  have hselect : Dialogue.Ends (perform {} 0 (.selectAlt 1) (.initial {})) []
      (some (.selected true, (initial {}).loaded {} 1
        ⟨.internal, 0x00340000, 0x00380000, "fw_jump"⟩)) := .done _
  obtain ⟨r, hread⟩ := exists_ends_upload (s := (initial {}).loaded {} 1
    ⟨.internal, 0x00340000, 0x00380000, "fw_jump"⟩) 1 1 (by decide) ⟨[0xff], rfl⟩
  have hupload : Dialogue.Ends (perform {} 0 (.upload 1 1) _) _ _ :=
    Dialogue.ends_bind.2 ⟨_, [], r, (List.append_nil _).symm, hread, .done _⟩
  exact commands_confined hzones (.perform .initial hselect) hupload

end Session

end DfuLoader
