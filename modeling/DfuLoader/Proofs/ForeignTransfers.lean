import DfuLoader.Proofs.ClassRequests

/-!
# Transfers for others

The interface is offered every control transfer of the device, whoever it is for. Those that
are not requests of its class are foreign. A vendor's request to the interface is handed to
the board and answered by what the board replies, and every other foreign transfer is passed
on without a command. The session stays as it is through all of them, but for one that the
device itself has to answer: the request that configures it (`foreign_transfers`).

How many bytes the device's control buffer holds is up to the board. The interface offers all of
it to a vendor's read, as far as the host asked for it, and what comes with a write is handed on
as it was delivered (`Setup.Delivers`).
-/

namespace DfuLoader

namespace Usb

open Dialogue

structure Setup.IsFor (setup : Setup) (kind : Kind) (number : UInt8) : Prop where
  kind_eq : setup.kind = kind
  recipient_eq : setup.recipient = .interface
  index_eq : setup.index = number.toUInt16

/-- The standard request that configures the device, if it is a write. -/
structure Setup.Configures (setup : Setup) : Prop where
  kind_eq : setup.kind = .standard
  recipient_eq : setup.recipient = .device
  request_eq : setup.request = 9
  value_ne : setup.value ≠ 0

/-- What a device delivers with a write: no more than the host announced, out of the control
buffer. -/
structure Setup.Delivers (setup : Setup) (cfg : Config) (bytes : Bytes) : Prop where
  announced : bytes.length ≤ setup.length.toNat
  held : bytes.length ≤ cfg.controlBuffer

theorem Setup.Delivers.length_le {setup : Setup} {cfg : Config} {bytes : Bytes}
    (h : setup.Delivers cfg bytes) : bytes.length ≤ min setup.length.toNat cfg.controlBuffer :=
  Nat.le_min.2 ⟨h.announced, h.held⟩

namespace Interface

def vendorRoom (cfg : Config) (setup : Setup) : Nat := min setup.length.toNat cfg.controlBuffer

/-- The exchanges and the answer of a foreign read: a vendor's is answered by what the board
returns, if it does. -/
inductive ForeignRead (cfg : Config) (number : UInt8) (setup : Setup) :
    List Exchange → ReadAnswer → Prop
  | returned (vendor : setup.IsFor .vendor number)
      (bytes : { bytes : Bytes // bytes.length ≤ vendorRoom cfg setup }) :
      ForeignRead cfg number setup
        [⟨.vendorIn setup.request setup.value (vendorRoom cfg setup), some bytes⟩] (.data bytes.val)
  | refused (vendor : setup.IsFor .vendor number) :
      ForeignRead cfg number setup
        [⟨.vendorIn setup.request setup.value (vendorRoom cfg setup), none⟩] .refuse
  | passed (other : ¬setup.IsFor .vendor number) : ForeignRead cfg number setup [] .pass

inductive ForeignWrite (number : UInt8) (setup : Setup) (bytes : Bytes) :
    List Exchange → WriteAnswer → Prop
  | accepted (vendor : setup.IsFor .vendor number) :
      ForeignWrite number setup bytes [⟨.vendorOut setup.request setup.value bytes, true⟩] .accept
  | refused (vendor : setup.IsFor .vendor number) :
      ForeignWrite number setup bytes [⟨.vendorOut setup.request setup.value bytes, false⟩] .refuse
  | passed (other : ¬setup.IsFor .vendor number) : ForeignWrite number setup bytes [] .pass

variable {cfg : Config} {limit : Nat} {i i' : Interface} {setup : Setup} {bytes : Bytes}
  {t : List Exchange}

theorem isFor_iff {kind : Kind} :
    setup.IsFor kind i.number ↔ setup.kind = kind ∧ i.addressed setup = true := by
  simp only [addressed, Bool.and_eq_true, beq_iff_eq]
  exact ⟨fun h => ⟨h.kind_eq, h.recipient_eq, h.index_eq⟩, fun h => ⟨h.1, h.2.1, h.2.2⟩⟩

theorem configures_iff : configures setup = true ↔ setup.Configures := by
  simp only [configures, Bool.and_eq_true, beq_iff_eq, bne_iff_ne]
  exact ⟨fun h => ⟨h.1.1.1, h.1.1.2, h.1.2, h.2⟩,
    fun h => ⟨⟨⟨h.kind_eq, h.recipient_eq⟩, h.request_eq⟩, h.value_ne⟩⟩

theorem not_isFor_of_configures {kind : Kind} {number : UInt8} (h : setup.Configures) :
    ¬setup.IsFor kind number := by
  intro hfor
  have heq := h.recipient_eq.symm.trans hfor.recipient_eq
  cases heq

/-! A vendor's request is handed to the board, in either direction. -/

section Vendor

variable (vendor : setup.IsFor .vendor i.number)

include vendor

theorem read_of_vendor :
    i.read cfg limit setup = Dialogue.vendorIn setup.request setup.value (vendorRoom cfg setup) >>=
      fun reply => .done (match reply with
        | some bytes => some (.data bytes.val, i)
        | none => some (.refuse, i)) := by
  obtain ⟨hkind, haddressed⟩ := isFor_iff.1 vendor
  rw [read, if_pos haddressed, hkind]
  refine congrArg (Dialogue.vendorIn setup.request setup.value (vendorRoom cfg setup) >>= ·) ?_
  funext reply
  cases reply <;> rfl

theorem write_of_vendor :
    i.write cfg setup bytes = Dialogue.vendorOut setup.request setup.value bytes >>=
      fun accepted => .done (if accepted then .accept else .refuse, i) := by
  obtain ⟨hkind, haddressed⟩ := isFor_iff.1 vendor
  have hconfigures : ¬configures setup = true := fun h =>
    not_isFor_of_configures (configures_iff.1 h) vendor
  rw [write, if_neg hconfigures, if_pos haddressed, hkind]
  rfl

end Vendor

/-! All that is neither of the class nor of the vendor is passed on. -/

section Other

variable (foreign : ¬setup.IsFor .classSpecific i.number) (other : ¬setup.IsFor .vendor i.number)

include foreign other

theorem read_of_other : i.read cfg limit setup = .done (some (.pass, i)) := by
  rw [isFor_iff] at foreign other
  rw [read]
  split
  · rename_i haddressed
    split
    · rename_i hkind
      exact absurd ⟨hkind, haddressed⟩ foreign
    · rename_i hkind
      exact absurd ⟨hkind, haddressed⟩ other
    · rfl
    · rfl
  · rfl

theorem write_of_other : i.write cfg setup bytes =
    .done (.pass, if configures setup then i.withSession (i.session.configured cfg) else i) := by
  rw [isFor_iff] at foreign other
  rw [write]
  split
  · rfl
  · split
    · rename_i haddressed
      split
      · rename_i hkind
        exact absurd ⟨hkind, haddressed⟩ foreign
      · rename_i hkind
        exact absurd ⟨hkind, haddressed⟩ other
      · rfl
      · rfl
    · rfl

end Other

theorem ends_read_of_foreign (foreign : ¬setup.IsFor .classSpecific i.number)
    {result : Option (ReadAnswer × Interface)} :
    Ends (i.read cfg limit setup) t result ↔
      ∃ answer, result = some (answer, i) ∧ ForeignRead cfg i.number setup t answer := by
  by_cases hvendor : setup.IsFor .vendor i.number
  · rw [read_of_vendor hvendor, ends_bind]
    constructor
    · rintro ⟨t₁, t₂, reply, rfl, hreply, hdone⟩
      obtain rfl := ends_command.1 hreply
      obtain ⟨rfl, rfl⟩ := ends_done.1 hdone
      cases reply with
      | some bytes => exact ⟨_, rfl, .returned hvendor bytes⟩
      | none => exact ⟨_, rfl, .refused hvendor⟩
    · rintro ⟨answer, rfl, hread⟩
      cases hread with
      | returned _ bytes => exact ⟨_, [], some bytes, rfl, ends_command.2 rfl, .done _⟩
      | refused _ => exact ⟨_, [], none, rfl, ends_command.2 rfl, .done _⟩
      | passed other => exact absurd hvendor other
  · rw [read_of_other foreign hvendor, ends_done]
    constructor
    · rintro ⟨rfl, rfl⟩
      exact ⟨.pass, rfl, .passed hvendor⟩
    · rintro ⟨answer, rfl, hread⟩
      cases hread with
      | returned vendor _ | refused vendor => exact absurd vendor hvendor
      | passed _ => exact ⟨rfl, rfl⟩

/-- A foreign write leaves the interface as it is, unless it configures the device. -/
theorem ends_write_of_foreign (foreign : ¬setup.IsFor .classSpecific i.number)
    {answer : WriteAnswer} :
    Ends (i.write cfg setup bytes) t (answer, i') ↔
      (i' = if configures setup then i.withSession (i.session.configured cfg) else i) ∧
        ForeignWrite i.number setup bytes t answer := by
  by_cases hvendor : setup.IsFor .vendor i.number
  · have hconfigures : ¬configures setup = true := fun h =>
      not_isFor_of_configures (configures_iff.1 h) hvendor
    rw [write_of_vendor hvendor, ends_bind, if_neg hconfigures]
    constructor
    · rintro ⟨t₁, t₂, accepted, rfl, hreply, hdone⟩
      obtain rfl := ends_command.1 hreply
      cases accepted <;> cases hdone
      · exact ⟨rfl, .refused hvendor⟩
      · exact ⟨rfl, .accepted hvendor⟩
    · rintro ⟨rfl, hwrite⟩
      cases hwrite with
      | accepted _ => exact ⟨_, [], true, rfl, ends_command.2 rfl, .done _⟩
      | refused _ => exact ⟨_, [], false, rfl, ends_command.2 rfl, .done _⟩
      | passed other => exact absurd hvendor other
  · rw [write_of_other foreign hvendor, ends_done]
    constructor
    · rintro ⟨rfl, heq⟩
      cases heq
      exact ⟨rfl, .passed hvendor⟩
    · rintro ⟨rfl, hwrite⟩
      cases hwrite with
      | accepted vendor | refused vendor => exact absurd vendor hvendor
      | passed _ => exact ⟨rfl, rfl⟩

/-- A foreign write sends no command but the vendor's, and that with the bytes as they came. -/
theorem ForeignWrite.command_eq {number : UInt8} {answer : WriteAnswer}
    (h : ForeignWrite number setup bytes t answer) {e : Exchange} (he : e ∈ t) :
    setup.IsFor .vendor number ∧ e.command = .vendorOut setup.request setup.value bytes := by
  cases h with
  | accepted vendor | refused vendor =>
      obtain rfl := List.mem_singleton.1 he
      exact ⟨vendor, rfl⟩
  | passed _ => exact absurd he List.not_mem_nil

/-- A transfer that is not a request of the class to the interface leaves the interface as it
is, unless it configures the device, which the session takes note of. It is passed on without a
command unless it is a vendor's request to the interface, which the board alone decides. However
much the control buffer holds, the board is never given room for, or sent, more than that or more
than the host asked for, if that is all that the device delivers. -/
theorem foreign_transfers (cfg : Config) (limit : Nat) (i : Interface) (setup : Setup)
    (bytes : Bytes) (foreign : ¬setup.IsFor .classSpecific i.number) :
    (∀ t result, Ends (i.read cfg limit setup) t result ↔
      ∃ answer, result = some (answer, i) ∧ ForeignRead cfg i.number setup t answer) ∧
    (∀ t answer i', Ends (i.write cfg setup bytes) t (answer, i') ↔
      (setup.Configures → i' = i.withSession (i.session.configured cfg)) ∧
        (¬setup.Configures → i' = i) ∧ ForeignWrite i.number setup bytes t answer) ∧
    (setup.Delivers cfg bytes →
      ∀ t answer i', Ends (i.write cfg setup bytes) t (answer, i') →
        ∀ e ∈ t, setup.IsFor .vendor i.number ∧
          e.command = .vendorOut setup.request setup.value bytes ∧
            bytes.length ≤ min setup.length.toNat cfg.controlBuffer) := by
  refine ⟨fun _ _ => ends_read_of_foreign foreign, ?_, ?_⟩
  · intro t answer i'
    rw [ends_write_of_foreign foreign]
    by_cases hconfigures : setup.Configures
    · simp [hconfigures, configures_iff.2 hconfigures]
    · simp [hconfigures, mt configures_iff.1 hconfigures]
  · intro delivers t answer i' h e he
    have hwrite : ForeignWrite i.number setup bytes t answer :=
      ((ends_write_of_foreign foreign).1 h).2
    obtain ⟨hvendor, hcommand⟩ := hwrite.command_eq he
    exact ⟨hvendor, hcommand, delivers.length_le⟩

/-- A vendor's write is all that is sent to the board, and a download for the interface with
the number 256 is nobody's here, although its lower byte is that of this interface. -/
theorem foreign_transfers_smallestZone :
    let cfg : Config := { controlBuffer := 256 }
    let bytes : Bytes := List.replicate 200 7
    let vendor : Setup := ⟨.hostToDevice, .vendor, .interface, 0x20, 7, 0, 200⟩
    let download : Setup := ⟨.hostToDevice, .classSpecific, .interface, 1, 0, 0x0100, 200⟩
    ¬vendor.IsFor .classSpecific smallestZone.number ∧
      ¬download.IsFor .classSpecific smallestZone.number ∧ vendor.Delivers cfg bytes ∧
      Ends (smallestZone.write cfg vendor bytes) [⟨.vendorOut 0x20 7 bytes, true⟩]
        (.accept, smallestZone) ∧
      (∀ t answer i', Ends (smallestZone.write cfg vendor bytes) t (answer, i') →
        ∀ e ∈ t, e.command = .vendorOut 0x20 7 bytes ∧ bytes.length ≤ 200) ∧
      Ends (smallestZone.write cfg download bytes) [] (.pass, smallestZone) := by
  intro cfg bytes vendor download
  have hvendor : ¬vendor.IsFor .classSpecific smallestZone.number := by
    rintro ⟨hkind, -, -⟩
    cases hkind
  have hdownload : ¬download.IsFor .classSpecific smallestZone.number := by
    rintro ⟨-, -, hindex⟩
    exact absurd hindex (by decide)
  have hlength : bytes.length = 200 := List.length_replicate
  have hdelivers : vendor.Delivers cfg bytes := by
    constructor <;> rw [hlength] <;> decide
  obtain ⟨-, hwrite, hsent⟩ := foreign_transfers cfg 0 smallestZone vendor bytes hvendor
  refine ⟨hvendor, hdownload, hdelivers, ?_, ?_, ?_⟩
  · refine (hwrite _ _ _).2 ⟨fun h => ?_, fun _ => rfl, .accepted ⟨rfl, rfl, rfl⟩⟩
    cases h.kind_eq
  · intro t answer i' h e he
    obtain ⟨-, hcommand, hroom⟩ := hsent hdelivers t answer i' h e he
    exact ⟨hcommand, hroom.trans (Nat.min_le_left _ _)⟩
  · refine ((foreign_transfers cfg 0 smallestZone download bytes hdownload).2.1 _ _ _).2
      ⟨fun h => ?_, fun _ => rfl, .passed fun h => ?_⟩
    · cases h.kind_eq
    · cases h.kind_eq

end Interface

end Usb

end DfuLoader
