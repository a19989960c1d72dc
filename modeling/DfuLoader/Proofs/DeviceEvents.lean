import DfuLoader.Proofs.StalledRequests
import DfuLoader.Usb.Device

/-!
# Events of a device

What a device makes of its events, in terms of the calls of its interface. A transfer is offered
to the interface, if its data fits into the control buffer, and then the interface is polled. In
between the device answers what the interface passed on, and nothing but a selection comes back
to the interface from there (`resultOfWrite_snd`). So the events are made of calls
(`handle_calls`), and what holds of every reachable interface holds behind this device. What it
delivers with a write is what the interface relies on (`exists_offer_of_controlWrite`).
-/

namespace DfuLoader

namespace Usb

theorem lowByte_toUInt16 (n : UInt8) : lowByte n.toUInt16 = n := UInt8.toUInt8_toUInt16 n

theorem not_toUInt16_gt (n : UInt8) : ¬n.toUInt16 > 255 := by
  have hn : n.toNat < 256 := n.toNat_lt
  rw [gt_iff_lt, UInt16.lt_iff_toNat_lt, UInt8.toNat_toUInt16]
  change ¬255 < n.toNat
  omega

namespace Interface

open Dialogue Relation

variable {cfg : Config} {limit : Nat} {i i' : Interface} {setup : Setup} {bytes : Bytes}
  {t : List Exchange}

/-- The transfers of an event go the way that their setup packets say, and the host sends no more
than it announced. -/
def Event.Straight : Event → Prop
  | .read setup => setup.direction = .deviceToHost
  | .write setup bytes =>
      setup.direction = .hostToDevice ∧ bytes.length ≤ setup.length.toNat
  | .reset | .poll | .configured | .tick => True

/-- The device asks for a selection at most, when it answers a write. -/
theorem resultOfWrite_snd (cfg : Config) (i : Interface) (setup : Setup) (answer : WriteAnswer) :
    (i.resultOfWrite cfg setup answer).2 = i ∨
      ∃ number alt, (i.resultOfWrite cfg setup answer).2 = (i.selectAlt cfg number alt).2 := by
  cases answer with
  | accept | refuse => exact .inl rfl
  | pass =>
      rw [resultOfWrite, standardWrite]
      split
      · exact .inl rfl
      · split
        · exact .inl rfl
        · right
          refine ⟨lowByte setup.index, lowByte setup.value, ?_⟩
          split <;> rename_i heq <;> rw [heq]
      · exact .inl rfl

/-- A selection of a setting that the table does not have is stalled and changes nothing. -/
theorem standardWrite_of_selects_outside (h : setup.Selects i.number)
    (outside : cfg.zones.size ≤ setup.value.toNat) :
    i.standardWrite cfg setup = (.stall, i) := by
  -- the device takes the first setting for granted, but every table has that one
  have hne : setup.value ≠ 0 := by
    intro hzero
    have hpos : 0 < cfg.zones.size := List.length_pos_iff.2 cfg.zones.nonempty
    rw [hzero] at outside
    exact absurd outside (by simpa using hpos.ne')
  rw [standardWrite, h.kind, h.recipient, h.request]
  simp only [h.index, not_toUInt16_gt, false_or, lowByte_toUInt16, if_neg hne]
  split
  · rfl
  · rename_i hsmall
    have hle : setup.value.toNat ≤ 255 := by
      rw [gt_iff_lt, UInt16.lt_iff_toNat_lt] at hsmall
      exact not_lt.1 hsmall
    have hvalue : (lowByte setup.value).toNat = setup.value.toNat := by
      rw [lowByte, UInt16.toNat_toUInt8]
      omega
    rw [i.selectAlt_of_outside i.number (hvalue ▸ outside)]

theorem controlWrite_of_selects_outside (h : setup.Selects i.number)
    (outside : cfg.zones.size ≤ setup.value.toNat)
    (fits : setup.length.toNat ≤ cfg.controlBuffer) :
    i.controlWrite cfg setup bytes = i.poll >>= fun i' => .done (.stall, i') := by
  rw [controlWrite, if_neg (not_lt.2 fits), write_of_selects h, done_bind]
  simp only [resultOfWrite, standardWrite_of_selects_outside h outside]
  rfl

theorem exists_offer_of_controlRead (bytes : Bytes) {result : ReadResult}
    (direction : setup.direction = .deviceToHost)
    (h : Ends (i.controlRead cfg limit setup) t (some (result, i'))) :
    ∃ t₁ t₂ refused i₁, t = t₁ ++ t₂ ∧
      Ends (i.offer cfg limit setup bytes) t₁ (some (refused, i₁)) ∧ Ends i₁.poll t₂ i' := by
  obtain ⟨t₁, t₂, read, rfl, hread, h⟩ := ends_bind.1 h
  obtain - | ⟨answer, i₁⟩ := read
  · cases h
  obtain ⟨t₃, t₄, i₂, rfl, hpoll, h⟩ := ends_bind.1 h
  cases h
  rw [List.append_nil]
  refine ⟨t₁, t₃, answer == .refuse, i₁, rfl, ?_, hpoll⟩
  rw [offer, direction]
  exact ends_bind.2 ⟨t₁, [], _, (List.append_nil t₁).symm, hread, .done _⟩

/-- A write that the control buffer holds is offered to the interface, which may be asked for a
selection and is polled afterwards; another is stalled and only followed by the poll. -/
theorem exists_offer_of_controlWrite (limit : Nat) {result : WriteResult}
    (direction : setup.direction = .hostToDevice) (fits : bytes.length ≤ setup.length.toNat)
    (h : Ends (i.controlWrite cfg setup bytes) t (result, i')) :
    (result = .stall ∧ Ends i.poll t i') ∨
      setup.Delivers cfg bytes ∧ ∃ t₁ t₂ refused i₁ i₂, t = t₁ ++ t₂ ∧
        Ends (i.offer cfg limit setup bytes) t₁ (some (refused, i₁)) ∧
        (i₂ = i₁ ∨ ∃ number alt, i₂ = (i₁.selectAlt cfg number alt).2) ∧ Ends i₂.poll t₂ i' := by
  rw [controlWrite] at h
  split at h
  · obtain ⟨t₁, t₂, i₁, rfl, hpoll, h⟩ := ends_bind.1 h
    cases h
    rw [List.append_nil]
    exact .inl ⟨rfl, hpoll⟩
  · rename_i hheld
    obtain ⟨t₁, t₂, ⟨answer, i₁⟩, rfl, hwrite, h⟩ := ends_bind.1 h
    obtain ⟨t₃, t₄, i₂, rfl, hpoll, h⟩ := ends_bind.1 h
    cases h
    rw [List.append_nil]
    refine .inr ⟨⟨fits, fits.trans (not_lt.1 hheld)⟩, t₁, t₃, answer == .refuse, i₁, _, rfl, ?_,
      i₁.resultOfWrite_snd cfg setup answer, hpoll⟩
    rw [offer, direction]
    exact ends_bind.2 ⟨t₁, [], _, (List.append_nil t₁).symm, hwrite, .done _⟩

/-- The events of a device are calls of its interface. -/
theorem handle_calls {event : Event} {response : Response} (straight : event.Straight)
    (h : Ends (i.handle cfg limit event) t (some (response, i'))) :
    ReflTransGen (Calls cfg) i i' := by
  cases event with
  | read setup =>
      obtain ⟨t₁, t₂, result, rfl, hread, h⟩ := ends_bind.1 h
      obtain - | ⟨result, i₁⟩ := result <;> cases h
      obtain ⟨_, _, _, i₂, rfl, hoffer, hpoll⟩ := exists_offer_of_controlRead [] straight hread
      exact (ReflTransGen.single (.transfer hoffer)).tail (.poll hpoll)
  | write setup bytes =>
      obtain ⟨t₁, t₂, ⟨result, i₁⟩, rfl, hwrite, h⟩ := ends_bind.1 h
      cases h
      rcases exists_offer_of_controlWrite 0 straight.1 straight.2 hwrite with
        ⟨-, hpoll⟩ | ⟨-, _, _, _, i₂, i₃, rfl, hoffer, hselect, hpoll⟩
      · exact .single (.poll hpoll)
      · have hoffered : ReflTransGen (Calls cfg) i i₂ := .single (.transfer hoffer)
        rcases hselect with rfl | ⟨number, alt, rfl⟩
        · exact hoffered.tail (.poll hpoll)
        · exact (hoffered.tail (.selectAlt number alt)).tail (.poll hpoll)
  | reset =>
      obtain ⟨t₁, t₂, i₁, rfl, hreset, h⟩ := ends_bind.1 h
      cases h
      exact .single (.reset hreset)
  | poll =>
      obtain ⟨t₁, t₂, i₁, rfl, hpoll, h⟩ := ends_bind.1 h
      cases h
      exact .single (.poll hpoll)
  | configured =>
      cases h
      exact .single .configured
  | tick =>
      obtain ⟨t₁, t₂, ⟨k, i₁⟩, rfl, htick, h⟩ := ends_bind.1 h
      cases h
      exact .single (.tick htick)

end Interface

end Usb

end DfuLoader
