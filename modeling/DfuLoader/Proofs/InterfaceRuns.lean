import DfuLoader.Proofs.ForeignTransfers
import DfuLoader.Proofs.Reachable
import Mathlib.Logic.Relation

/-!
# Runs of the interface

What reaches the interface is a transfer that the device offers to it, a selection that it is
asked for, or a call that tells it of a configuration, a reset, a poll or a tick (`Calls`). A
session behind an interface takes fewer steps than one by itself: a request is checked against
the state before it is served, and nothing but a violation of the protocol is refused from
outside (`Advances`). Every call is such a step or leaves the session alone
(`Calls.exists_session`), so what every step preserves holds of the sessions of all reachable
interfaces (`Reachable.induction`).
-/

namespace DfuLoader

namespace Session

open Dialogue Relation

/-- The operations that an interface carries out on its session. -/
def Operation.Admitted (s : Session) : Operation → Prop
  | .configured | .selectAlt _ | .request _ | .busReset | .poll | .tick => True
  | .fail e => e = .protocolViolation
  | .detach => s.state.allows .detach = true
  | .download _ => s.state.allows .download = true
  | .upload _ _ => s.state.allows .upload = true
  | .getStatus => s.state.allows .getStatus = true
  | .clearStatus => s.state.allows .clearStatus = true
  | .getState => s.state.allows .getState = true
  | .abort => s.state.allows .abort = true

def Advances (cfg : Config) (s s' : Session) : Prop :=
  ∃ op, op.Admitted s ∧ ∃ limit t a, Ends (s.perform cfg limit op) t (some (a, s'))

variable {cfg : Config} {s s' : Session}

theorem Advances.reachable (h : Advances cfg s s') (hs : Reachable cfg s) : Reachable cfg s' := by
  obtain ⟨_, -, _, _, _, hperform⟩ := h
  exact .perform hs hperform

theorem Advances.of_selectAlt {alt : UInt8} (h : s.selectAlt cfg alt = some s') :
    Advances cfg s s' := by
  refine ⟨.selectAlt alt, trivial, 0, [], .selected true, ?_⟩
  rw [perform, h]
  exact .done _

end Session

namespace Usb

open Dialogue Relation

theorem Setup.admitted_operation {s : Session} {r : Request} (allowed : s.state.allows r = true)
    (setup : Setup) (cfg : Config) (bytes : Bytes) :
    (setup.operation cfg bytes r).Admitted s := by
  cases r <;> exact allowed

/-- The standard request that selects an alternate setting of an interface. -/
structure Setup.Selects (setup : Setup) (number : UInt8) : Prop where
  direction : setup.direction = .hostToDevice
  kind : setup.kind = .standard
  recipient : setup.recipient = .interface
  request : setup.request = 11
  index : setup.index = number.toUInt16

namespace Interface

inductive Calls (cfg : Config) (i : Interface) : Interface → Prop
  | transfer {limit : Nat} {setup : Setup} {bytes : Bytes} {t : List Exchange} {refused : Bool}
      {i' : Interface} (ends : Ends (i.offer cfg limit setup bytes) t (some (refused, i'))) :
      Calls cfg i i'
  | selectAlt (number alt : UInt8) : Calls cfg i (i.selectAlt cfg number alt).2
  | configured : Calls cfg i (i.withSession (i.session.configured cfg))
  | reset {t : List Exchange} {i' : Interface} (ends : Ends (i.reset cfg) t i') : Calls cfg i i'
  | poll {t : List Exchange} {i' : Interface} (ends : Ends i.poll t i') : Calls cfg i i'
  | tick {t : List Exchange} {k : Tick} {i' : Interface} (ends : Ends (i.tick cfg) t (k, i')) :
      Calls cfg i i'

def Reachable (cfg : Config) (numbering : Numbering) (i : Interface) : Prop :=
  ReflTransGen (Calls cfg) (attach cfg numbering).1 i

variable {cfg : Config} {limit : Nat} {i i' : Interface} {setup : Setup} {bytes : Bytes}
  {t : List Exchange}

/-- A transfer that is foreign to the class configures the session or leaves it alone. -/
theorem offer_of_foreign {refused : Bool} (foreign : ¬setup.IsFor .classSpecific i.number)
    (h : Ends (i.offer cfg limit setup bytes) t (some (refused, i'))) :
    i' = i ∨ i' = i.withSession (i.session.configured cfg) := by
  cases hdirection : setup.direction with
  | deviceToHost =>
      simp only [offer, hdirection] at h
      obtain ⟨_, _, result, rfl, hread, h⟩ := ends_bind.1 h
      obtain ⟨answer, rfl, -⟩ := (ends_read_of_foreign foreign).1 hread
      cases h
      exact .inl rfl
  | hostToDevice =>
      simp only [offer, hdirection] at h
      obtain ⟨_, _, ⟨answer, i₁⟩, rfl, hwrite, h⟩ := ends_bind.1 h
      cases h
      obtain ⟨rfl, -⟩ := (ends_write_of_foreign foreign).1 hwrite
      split
      · exact .inr rfl
      · exact .inl rfl

theorem selectAlt_cases (cfg : Config) (i : Interface) (number alt : UInt8) :
    i.selectAlt cfg number alt = (false, i) ∨
      number = i.number ∧ ∃ s, i.session.selectAlt cfg alt = some s ∧
        i.selectAlt cfg number alt = (true, i.withSession s) := by
  rw [selectAlt]
  split
  · rename_i hnumber
    cases hselect : i.session.selectAlt cfg alt with
    | none => exact .inl rfl
    | some s => exact .inr ⟨hnumber, s, rfl, rfl⟩
  · exact .inl rfl

/-- Every call is a step of the session, or leaves it alone. -/
theorem Calls.exists_session (h : Calls cfg i i') :
    ∃ s', i' = i.withSession s' ∧ (s' = i.session ∨ Session.Advances cfg i.session s') := by
  cases h with
  | @transfer limit setup bytes t refused i' ends =>
      by_cases hclass : setup.IsFor .classSpecific i.number
      · obtain ⟨hkind, haddressed⟩ := isFor_iff.1 hclass
        obtain ⟨served, hserves, heq⟩ := serves_of_ends hkind haddressed ends
        cases hserves with
        | unserved unserved =>
            cases heq
            exact ⟨_, rfl, .inr ⟨.fail .protocolViolation, rfl, limit, [], _, .done _⟩⟩
        | turned code allowed turned =>
            cases heq
            exact ⟨_, rfl, .inr ⟨.fail .protocolViolation, rfl, limit, [], _, .done _⟩⟩
        | @performed r code allowed straight t result hperform =>
            obtain - | ⟨a, s'⟩ := result <;> cases heq
            have hadmitted := setup.admitted_operation allowed cfg bytes
            exact ⟨s', rfl, .inr ⟨_, hadmitted, limit, t, a, hperform⟩⟩
      · rcases offer_of_foreign hclass ends with rfl | rfl
        · exact ⟨_, rfl, .inl rfl⟩
        · exact ⟨_, rfl, .inr ⟨.configured, trivial, 0, [], .quiet, .done _⟩⟩
  | selectAlt number alt =>
      rcases i.selectAlt_cases cfg number alt with heq | ⟨-, s, hselect, heq⟩
      · rw [heq]
        exact ⟨_, rfl, .inl rfl⟩
      · rw [heq]
        exact ⟨_, rfl, .inr (.of_selectAlt hselect)⟩
  | configured => exact ⟨_, rfl, .inr ⟨.configured, trivial, 0, [], .quiet, .done _⟩⟩
  | reset ends =>
      obtain ⟨t₁, t₂, s', rfl, hreset, h⟩ := ends_bind.1 ends
      cases h
      refine ⟨s', rfl, .inr ⟨.busReset, trivial, 0, t₁ ++ [], .quiet, ?_⟩⟩
      exact ends_bind.2 ⟨t₁, [], s', rfl, hreset, .done _⟩
  | poll ends =>
      obtain ⟨t₁, t₂, s', rfl, hpoll, h⟩ := ends_bind.1 ends
      cases h
      refine ⟨s', rfl, .inr ⟨.poll, trivial, 0, t₁ ++ [], .quiet, ?_⟩⟩
      exact ends_bind.2 ⟨t₁, [], s', rfl, hpoll, .done _⟩
  | @tick t k i' ends =>
      obtain ⟨t₁, t₂, ⟨k', s'⟩, rfl, htick, h⟩ := ends_bind.1 ends
      cases h
      refine ⟨s', rfl, .inr ⟨.tick, trivial, 0, t₁ ++ [], .ticked k, ?_⟩⟩
      exact ends_bind.2 ⟨t₁, [], (k, s'), rfl, htick, .done _⟩

theorem Calls.advances (h : Calls cfg i i') :
    i'.session = i.session ∨ Session.Advances cfg i.session i'.session := by
  obtain ⟨s', rfl, hs'⟩ := h.exists_session
  exact hs'

theorem Reachable.session {numbering : Numbering} (h : Reachable cfg numbering i) :
    Session.Reachable cfg i.session := by
  induction h with
  | refl => exact .initial
  | tail _ hcall ih =>
      rcases hcall.advances with hsame | hadvances
      · rw [hsame]
        exact ih
      · exact hadvances.reachable ih

/-- What holds of a new session, and is preserved by every step of a session behind an
interface, holds of the session of every reachable interface. -/
theorem Reachable.induction {P : Session → Prop} {numbering : Numbering}
    (h : Reachable cfg numbering i) (initial : P (.initial cfg))
    (advances : ∀ {s s' : Session},
      Session.Reachable cfg s → P s → Session.Advances cfg s s' → P s') : P i.session := by
  induction h with
  | refl => exact initial
  | tail hrun hcall ih =>
      rcases hcall.advances with hsame | hadvances
      · rw [hsame]
        exact ih
      · exact advances (Reachable.session hrun) ih hadvances

/-! Steps of the session that some call takes. -/

theorem Calls.request {r : Request} {a : Session.Answer} {s' : Session}
    (kind : setup.kind = .classSpecific) (addressed : i.addressed setup = true)
    (code : Request.ofCode? setup.request = some r) (allowed : i.session.state.allows r = true)
    (straight : r.direction = setup.direction)
    (h : Ends (i.session.perform cfg limit (setup.operation cfg bytes r)) t (some (a, s'))) :
    Calls cfg i (i.withSession s') := by
  have hoffer : Ends (i.offer cfg limit setup bytes) (t ++ [])
      (some (a.refused, i.withSession s')) := by
    rw [offer_of_straight kind addressed code allowed straight]
    exact ends_bind.2 ⟨t, [], _, rfl, h, .done _⟩
  exact .transfer hoffer

theorem Calls.download (cfg : Config) (i : Interface) {s : Session}
    (allowed : s.state.allows .download = true) {bytes : Bytes} (hlength : bytes.length < 65536) :
    Calls cfg (i.withSession s) (i.withSession (s.download cfg bytes).2) := by
  let setup : Setup := ⟨.hostToDevice, .classSpecific, .interface, 1, 0, i.number.toUInt16,
    UInt16.ofNat bytes.length⟩
  have haddressed : (i.withSession s).addressed setup = true := by
    simp [addressed, withSession, setup]
  have hpayload : setup.payload bytes = bytes := by
    rw [Setup.payload, UInt16.toNat_ofNat_of_lt' hlength, List.take_length]
  have hperform := Session.ends_download cfg 0 s (setup.payload bytes)
  have hcall := Calls.request rfl haddressed rfl allowed rfl hperform
  rw [hpayload] at hcall
  exact hcall

theorem Calls.refused (cfg : Config) (i : Interface) :
    Calls cfg i (i.withSession (i.session.fail .protocolViolation)) := by
  let setup : Setup :=
    ⟨.hostToDevice, .classSpecific, .interface, 255, 0, i.number.toUInt16, 0⟩
  have haddressed : i.addressed setup = true := by simp [addressed, setup]
  have hunserved : i.session.Unserved setup.request := fun r hcode => by cases hcode
  have hoffer : Ends (i.offer cfg 0 setup []) []
      (some (true, i.withSession (i.session.fail .protocolViolation))) := by
    rw [offer_of_unserved rfl haddressed hunserved]
    exact .done _
  exact .transfer hoffer

theorem Calls.selected {alt : UInt8} {s' : Session} (h : i.session.selectAlt cfg alt = some s') :
    Calls cfg i (i.withSession s') := by
  have hselect : i.selectAlt cfg i.number alt = (true, i.withSession s') := by
    rw [Interface.selectAlt, if_pos rfl, h]
  have hcall : Calls cfg i (i.selectAlt cfg i.number alt).2 := .selectAlt i.number alt
  rwa [hselect] at hcall

theorem Calls.restarted (h : i.session.state ≠ .appDetach) :
    Calls cfg i (i.withSession (i.session.restarted cfg)) := by
  have hreset : Ends (i.reset cfg) [⟨.reboot, ()⟩] (i.withSession (i.session.restarted cfg)) := by
    rw [Interface.reset, Session.busReset, if_neg h]
    exact .ask .reboot _ () (.done _)
  exact .reset hreset

/-- Half of the smallest zone of the reference board, received and not yet written. -/
theorem reachable_halfImage (numbering : Numbering) :
    Reachable {} numbering ((attach {} numbering).1.withSession (Session.halfImage {})) := by
  let i := (attach {} numbering).1
  let loaded := (Session.initial {}).loaded {} 6 ⟨.cartridge, 0, 0x100, "RTC"⟩
  let received := (loaded.download {} (List.replicate 128 0x42)).2
  have hselect : i.session.selectAlt {} 6 = some loaded :=
    Session.selectAlt_eq_some_iff.2 ⟨_, rfl, rfl⟩
  have hloaded : loaded.state.allows .download = true := by decide
  have hreceived : received.state.allows .download = true := by decide +kernel
  have hdownload : Calls {} (i.withSession loaded) (i.withSession received) :=
    Calls.download {} i hloaded (by simp)
  have hended : Calls {} (i.withSession received) (i.withSession (received.download {} []).2) :=
    Calls.download {} i hreceived (by decide)
  rw [Session.download_nil] at hended
  exact ((ReflTransGen.single (Calls.selected hselect)).tail hdownload).tail hended

end Interface

end Usb

end DfuLoader
