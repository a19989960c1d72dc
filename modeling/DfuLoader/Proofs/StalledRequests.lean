import DfuLoader.Proofs.InterfaceRuns

/-!
# Stalled requests

A request of the class is stalled for one of six reasons (`Refusal`), which show at different
depths: some in its code, some in the state, some only in the bytes that come with it or in what
the chip replies. However late that is, nothing but the error itself is left of it: the session
is as before, with the state and the status of an error (`errored`), and no command was sent but
those of an upload that could not be read. The converse holds as well, so a request for which
there is no such reason is never stalled (`stalled_requests`).
-/

namespace DfuLoader

namespace Session

open Dialogue

def errored (s : Session) : Session := { s with state := .error, status := .errUnknown }

def Unread (s : Session) (t : List Exchange) : Prop :=
  ∃ length fault, t =
    [⟨.select s.engine.chip, ()⟩, ⟨.read s.engine.readAt length, .error fault⟩]

end Session

namespace Usb

namespace Interface

open Dialogue Session

/-- Why a request of the class, with the exchanges that it led to, cannot be served. -/
inductive Refusal (s : Session) (setup : Setup) (bytes : Bytes) (t : List Exchange) : Prop
  | unknown (code : Request.ofCode? setup.request = none)
  | forbidden {r : Request} (code : Request.ofCode? setup.request = some r)
      (state : s.state.allows r = false)
  | turned {r : Request} (code : Request.ofCode? setup.request = some r)
      (direction : r.direction ≠ setup.direction)
  | overflowing (code : Request.ofCode? setup.request = some .download)
      (some_left : setup.payload bytes ≠ [])
      (past : s.engine.zoneEnd.toNat <
        s.engine.receiveAt.toNat + (setup.payload bytes).length)
  | crowded (code : Request.ofCode? setup.request = some .download)
      (full : s.buffer.room < (setup.payload bytes).length)
  | unread (code : Request.ofCode? setup.request = some .upload) (unread : Unread s t)

variable {cfg : Config} {limit : Nat} {s : Session} {i : Interface} {setup : Setup}
  {bytes : Bytes} {t : List Exchange}

/-- A request that is served in its state and its direction can only be refused for what it
brings, or for what the chip replies. -/
theorem refusal_iff_of_straight {r : Request} (code : Request.ofCode? setup.request = some r)
    (allowed : s.state.allows r = true) (straight : r.direction = setup.direction) :
    Refusal s setup bytes t ↔
      r = .download ∧ setup.payload bytes ≠ [] ∧
          (s.engine.zoneEnd.toNat < s.engine.receiveAt.toNat + (setup.payload bytes).length ∨
            s.buffer.room < (setup.payload bytes).length) ∨
        r = .upload ∧ s.Unread t := by
  constructor
  · intro h
    cases h with
    | unknown none => rw [none] at code; cases code
    | forbidden code' state =>
        obtain rfl := Option.some.inj (code.symm.trans code')
        rw [state] at allowed
        cases allowed
    | turned code' direction =>
        obtain rfl := Option.some.inj (code.symm.trans code')
        exact absurd straight direction
    | overflowing code' some_left past =>
        exact .inl ⟨Option.some.inj (code.symm.trans code'), some_left, .inl past⟩
    | crowded code' full =>
        refine .inl ⟨Option.some.inj (code.symm.trans code'), ?_, .inr full⟩
        exact List.ne_nil_of_length_pos (by omega)
    | unread code' unread => exact .inr ⟨Option.some.inj (code.symm.trans code'), unread⟩
  · rintro (⟨rfl, some_left, past | full⟩ | ⟨rfl, unread⟩)
    · exact .overflowing code some_left past
    · exact .crowded code full
    · exact .unread code unread

/-- A request is stalled for a reason, with nothing left of it but the error, or there is no
reason and it is not stalled. -/
theorem Serves.stalled_or {result : Option (Bool × Session)}
    (h : Serves cfg limit s setup bytes t result) :
    Refusal s setup bytes t ∧ result = some (true, s.errored) ∧
        (t = [] ∨ Request.ofCode? setup.request = some .upload ∧ s.Unread t) ∨
      ¬Refusal s setup bytes t ∧ ∀ s', result ≠ some (true, s') := by
  cases h with
  | unserved unserved =>
      refine .inl ⟨?_, rfl, .inl rfl⟩
      cases hcode : Request.ofCode? setup.request with
      | none => exact .unknown hcode
      | some r => exact .forbidden hcode (unserved r hcode)
  | turned code allowed turned => exact .inl ⟨.turned code turned, rfl, .inl rfl⟩
  | @performed r code allowed straight t result ends =>
      -- only downloads and uploads can still be refused
      rw [refusal_iff_of_straight code allowed straight]
      have hperforms := performs_of_ends ends
      cases r with
      | download =>
          cases hperforms with
          | download downloads =>
              cases downloads with
              | ended none_left => simp [none_left, Answer.refused]
              | overflowed some_left past =>
                  exact .inl ⟨.inl ⟨rfl, some_left, .inl past⟩, rfl, .inl rfl⟩
              | crowded some_left inside full =>
                  exact .inl ⟨.inl ⟨rfl, some_left, .inr full⟩, rfl, .inl rfl⟩
              | taken some_left inside receiveAt_eq append =>
                  have hroom := BlockRing.append_eq_some_iff.1 ⟨_, append⟩
                  rw [receiveAt_eq] at inside
                  simp [Answer.refused, inside, hroom]
      | upload =>
          cases hperforms with
          | upload uploads =>
              cases uploads with
              | finished none_left => simp [Unread, Answer.refused]
              | unread some_left fault =>
                  exact .inl ⟨.inr ⟨rfl, _, fault, rfl⟩, rfl, .inr ⟨code, _, fault, rfl⟩⟩
              | read some_left bytes => simp [Unread, Answer.refused]
      | detach | getStatus | clearStatus | getState | abort =>
          cases hperforms <;> simp [Answer.refused]

/-- The device is left to carry out a selection, and asks the interface for the setting. -/
theorem write_of_selects (h : setup.Selects i.number) :
    i.write cfg setup bytes = .done (.pass, i) := by
  have hconfigures : ¬configures setup = true := by simp [configures, h.recipient]
  rw [write, if_neg hconfigures, h.kind]
  split <;> rfl

theorem selectAlt_of_outside {alt : UInt8} (i : Interface) (number : UInt8)
    (outside : cfg.zones.size ≤ alt.toNat) : i.selectAlt cfg number alt = (false, i) := by
  rcases i.selectAlt_cases cfg number alt with hnone | ⟨-, s, hselect, -⟩
  · exact hnone
  · obtain ⟨zone, hget, -⟩ := Session.selectAlt_eq_some_iff.1 hselect
    rw [ZoneTable.get?, List.getElem?_eq_none outside] at hget
    cases hget

/-- A request of the class that the device offers to the interface is stalled exactly if there
is a reason to refuse it, and then leaves everything but the error as it was. The request that
selects an alternate setting is passed on, and the answer to a selection of one that the table
does not have is no; both change nothing. -/
theorem stalled_requests (cfg : Config) (limit : Nat) (i : Interface) (setup : Setup)
    (bytes : Bytes) :
    (setup.kind = .classSpecific → i.addressed setup = true →
      ∀ {t : List Exchange} {result : Option (Bool × Interface)},
        Ends (i.offer cfg limit setup bytes) t result →
        ((∃ i', result = some (true, i')) ↔ Refusal i.session setup bytes t) ∧
        ∀ i', result = some (true, i') → i' = i.withSession i.session.errored ∧
          (t = [] ∨ Request.ofCode? setup.request = some .upload ∧ i.session.Unread t)) ∧
      (setup.Selects i.number → i.write cfg setup bytes = .done (.pass, i)) ∧
      ∀ number alt, cfg.zones.size ≤ alt.toNat → i.selectAlt cfg number alt = (false, i) := by
  refine ⟨?_, write_of_selects, fun number _ => i.selectAlt_of_outside number⟩
  intro kind addressed t result h
  obtain ⟨served, hserves, rfl⟩ := serves_of_ends kind addressed h
  rcases hserves.stalled_or with ⟨hrefusal, rfl, htrace⟩ | ⟨hserved, hresult⟩
  · refine ⟨⟨fun _ => hrefusal, fun _ => ⟨_, rfl⟩⟩, ?_⟩
    intro i' heq
    cases heq
    exact ⟨rfl, htrace⟩
  · have hnot : ∀ i', (served.map fun x => (x.1, i.withSession x.2)) ≠ some (true, i') := by
      intro i' heq
      obtain ⟨⟨_, s'⟩, rfl, heq⟩ := Option.map_eq_some_iff.1 heq
      cases heq
      exact hresult s' rfl
    exact ⟨⟨fun ⟨i', heq⟩ => absurd heq (hnot i'), fun h => absurd h hserved⟩,
      fun i' heq => absurd heq (hnot i')⟩

/-- An upload that fails, and a selection of the first number that no zone has. -/
theorem stalled_requests_smallestZone :
    let upload : Setup := ⟨.deviceToHost, .classSpecific, .interface, 2, 0, 0, 16⟩
    let select : Setup := ⟨.hostToDevice, .standard, .interface, 11, 7, 0, 0⟩
    let t : List Exchange := [⟨.select .cartridge, ()⟩, ⟨.read 0 16, .error .bus⟩]
    Refusal smallestZone.session upload [] t ∧
      Ends (smallestZone.offer {} 0 upload []) t
        (some (true, smallestZone.withSession smallestZone.session.errored)) ∧
      smallestZone.write {} select [] = .done (.pass, smallestZone) ∧
      smallestZone.selectAlt {} 0 7 = (false, smallestZone) := by
  intro upload select t
  obtain ⟨i', hends⟩ : ∃ i', Ends (smallestZone.offer {} 0 upload []) t (some (true, i')) :=
    ⟨_, .ask (.select .cartridge) _ () (.ask (.read 0 16) _ (.error .bus) (.done _))⟩
  obtain ⟨hstalled, hleft⟩ := (stalled_requests {} 0 smallestZone upload []).1 rfl rfl hends
  obtain ⟨rfl, -⟩ := hleft i' rfl
  obtain ⟨-, hpass, hselect⟩ := stalled_requests {} 0 smallestZone select []
  exact ⟨hstalled.1 ⟨_, rfl⟩, hends, hpass ⟨rfl, rfl, rfl, rfl, rfl⟩,
    hselect 0 7 (by decide)⟩

end Interface

end Usb

end DfuLoader
