import DfuLoader.Proofs.SessionCases
import DfuLoader.Usb.Interface

/-!
# Requests of the class

Every control transfer of a device is offered to the interface (`offer`), which refuses it, serves
it or passes it on. A request of the class that is for the interface is looked up and checked
against the state, and has to come in its own direction; then it is one operation on the session
(`Setup.operation`). `Serves` lists what can become of it, and every way it can end is among
these (`serves_of_ends`).
-/

namespace DfuLoader

def Request.direction : Request → Usb.Direction
  | detach | download | clearStatus | abort => .hostToDevice
  | upload | getStatus | getState => .deviceToHost

def Session.Answer.refused : Session.Answer → Bool
  | .downloaded (.error _) | .uploaded (.error _) => true
  | _ => false

namespace Usb

def Setup.payload (setup : Setup) (bytes : Bytes) : Bytes := bytes.take setup.length.toNat

/-- The operation on the session that a request is served by. -/
def Setup.operation (setup : Setup) (cfg : Config) (bytes : Bytes) : Request → Session.Operation
  | .detach => .detach
  | .download => .download (setup.payload bytes)
  | .upload =>
      .upload (min (min setup.length cfg.transferSize).toNat cfg.controlBuffer) setup.length.toNat
  | .getStatus => .getStatus
  | .clearStatus => .clearStatus
  | .getState => .getState
  | .abort => .abort

namespace Interface

open Dialogue Session

/-- Offers a transfer to the interface: whether it is refused, so that the host sees it stall, and
the interface after it. There is no answer if the device does not finish. -/
def offer (cfg : Config) (limit : Nat) (i : Interface) (setup : Setup) (bytes : Bytes) :
    Dialogue (Option (Bool × Interface)) :=
  match setup.direction with
  | .deviceToHost => do
      let some (answer, i) ← i.read cfg limit setup | return none
      return some (answer == .refuse, i)
  | .hostToDevice => do
      let (answer, i) ← i.write cfg setup bytes
      return some (answer == .refuse, i)

inductive Serves (cfg : Config) (limit : Nat) (s : Session) (setup : Setup) (bytes : Bytes) :
    List Exchange → Option (Bool × Session) → Prop
  | unserved (unserved : s.Unserved setup.request) :
      Serves cfg limit s setup bytes [] (some (true, s.fail .protocolViolation))
  | turned {r : Request} (code : Request.ofCode? setup.request = some r)
      (allowed : s.state.allows r = true) (turned : r.direction ≠ setup.direction) :
      Serves cfg limit s setup bytes [] (some (true, s.fail .protocolViolation))
  | performed {r : Request} (code : Request.ofCode? setup.request = some r)
      (allowed : s.state.allows r = true) (straight : r.direction = setup.direction)
      {t : List Exchange} {result : Option (Answer × Session)}
      (ends : Ends (s.perform cfg limit (setup.operation cfg bytes r)) t result) :
      Serves cfg limit s setup bytes t (result.map fun x => (x.1.refused, x.2))

variable {cfg : Config} {limit : Nat} {i : Interface} {setup : Setup} {bytes : Bytes}

section Class

variable (kind : setup.kind = .classSpecific) (addressed : i.addressed setup = true)

include kind addressed

theorem offer_read (direction : setup.direction = .deviceToHost) :
    i.offer cfg limit setup bytes = i.classRead cfg limit setup >>= fun result =>
      .done (result.map fun x => (x.1 == .refuse, x.2)) := by
  simp only [offer, read, direction, kind, addressed, if_true]
  congr
  funext result
  cases result <;> rfl

theorem offer_write (direction : setup.direction = .hostToDevice) :
    i.offer cfg limit setup bytes =
      .done (some ((i.classWrite cfg setup bytes).1 == .refuse,
        (i.classWrite cfg setup bytes).2)) := by
  have hconfigures : configures setup = false := by simp [configures, kind]
  simp only [offer, write, direction, kind, addressed, hconfigures]
  rfl

theorem offer_of_unserved (unserved : i.session.Unserved setup.request) :
    i.offer cfg limit setup bytes =
      .done (some (true, i.withSession (i.session.fail .protocolViolation))) := by
  cases hdirection : setup.direction with
  | deviceToHost =>
      rw [offer_read kind addressed hdirection, classRead, request_of_unserved unserved]
      rfl
  | hostToDevice =>
      rw [offer_write kind addressed hdirection, classWrite, request_of_unserved unserved]
      rfl

variable {r : Request} (code : Request.ofCode? setup.request = some r)
  (allowed : i.session.state.allows r = true)

include code allowed

theorem offer_of_turned (turned : r.direction ≠ setup.direction) :
    i.offer cfg limit setup bytes =
      .done (some (true, i.withSession (i.session.fail .protocolViolation))) := by
  cases hdirection : setup.direction with
  | deviceToHost =>
      rw [hdirection] at turned
      rw [offer_read kind addressed hdirection, classRead, request_of_allows code allowed]
      cases r with
      | upload | getStatus | getState => exact absurd rfl turned
      | detach | download | clearStatus | abort => rfl
  | hostToDevice =>
      rw [hdirection] at turned
      rw [offer_write kind addressed hdirection, classWrite, request_of_allows code allowed]
      cases r with
      | upload | getStatus | getState => rfl
      | detach | download | clearStatus | abort => exact absurd rfl turned

theorem offer_of_straight (straight : r.direction = setup.direction) :
    i.offer cfg limit setup bytes =
      i.session.perform cfg limit (setup.operation cfg bytes r) >>= fun result =>
        .done (result.map fun x => (x.1.refused, i.withSession x.2)) := by
  cases hdirection : setup.direction with
  | deviceToHost =>
      rw [hdirection] at straight
      rw [offer_read kind addressed hdirection, classRead, request_of_allows code allowed]
      cases r with
      | detach | download | clearStatus | abort => cases straight
      | getState => rfl
      | getStatus =>
          simp only [Setup.operation, perform, bind_bind]
          congr
          funext result
          cases result <;> rfl
      | upload =>
          simp only [Setup.operation, perform, Interface.upload, bind_bind, map_eq_pure_bind]
          congr
          funext result
          obtain ⟨_ | _, _⟩ := result <;> rfl
  | hostToDevice =>
      rw [hdirection] at straight
      rw [offer_write kind addressed hdirection, classWrite, request_of_allows code allowed]
      cases r with
      | upload | getStatus | getState => cases straight
      | detach | clearStatus | abort => rfl
      | download =>
          simp only [Setup.operation, Setup.payload, perform]
          obtain ⟨_ | _, _⟩ := i.session.download cfg (bytes.take setup.length.toNat) <;> rfl

end Class

theorem serves_of_ends {t : List Exchange} {result : Option (Bool × Interface)}
    (kind : setup.kind = .classSpecific) (addressed : i.addressed setup = true)
    (h : Ends (i.offer cfg limit setup bytes) t result) :
    ∃ served, Serves cfg limit i.session setup bytes t served ∧
      result = served.map fun x => (x.1, i.withSession x.2) := by
  obtain ⟨r, code, allowed⟩ | unserved := i.session.allows_or_unserved setup.request
  · by_cases hdirection : r.direction = setup.direction
    · rw [offer_of_straight kind addressed code allowed hdirection, ends_bind] at h
      obtain ⟨t₁, t₂, performed, rfl, hperform, h⟩ := h
      obtain ⟨rfl, rfl⟩ := ends_done.1 h
      rw [List.append_nil]
      refine ⟨_, .performed code allowed hdirection hperform, ?_⟩
      cases performed <;> rfl
    · rw [offer_of_turned kind addressed code allowed hdirection, ends_done] at h
      obtain ⟨rfl, rfl⟩ := h
      exact ⟨_, .turned code allowed hdirection, rfl⟩
  · rw [offer_of_unserved kind addressed unserved, ends_done] at h
    obtain ⟨rfl, rfl⟩ := h
    exact ⟨_, .unserved unserved, rfl⟩

/-- The interface of the reference board, with its smallest zone selected. -/
def smallestZone : Interface :=
  (attach {} ⟨0, 4⟩).1.withSession
    ((Session.initial {}).loaded {} 6 ⟨.cartridge, 0, 0x100, "RTC"⟩)

end Interface

end Usb

end DfuLoader
