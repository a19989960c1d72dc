import DfuLoader.Proofs.InterfaceRuns
import DfuLoader.Usb.Device

/-!
# Alternate settings

What a host knows of the zones it has from the descriptors of the loader. It takes their bytes
apart into records (`records?`), reads the fields of the two kinds of records that there are
(`Record.item?`), and asks for a name with the index that a record carries. The records, the
indices and the zones are three lists that say the same at every place, wherever the numbers of
the interface and of its strings begin: the record of an alternate setting announces the name
of the zone that is loaded when the host selects it (`alternate_settings`). This holds behind every
device that writes records as the host reads them (`Writer.Lawful`).
-/

namespace DfuLoader

namespace Usb

/-- A writer puts the length and the type before a record that is short enough. The record of an
alternate setting begins without endpoints. -/
structure Writer.Lawful (w : Writer) : Prop where
  record_eq : ∀ (type : UInt8) (payload : Bytes), payload.length + 2 < 256 →
    w.record type payload = UInt8.ofNat (payload.length + 2) :: type :: payload
  alternate_eq : ∀ a : Alternate, w.alternate a =
    w.record 0x04 [a.number, a.alt, 0, a.classCode, a.subclass, a.protocol, a.string]

theorem Writer.lawful_standard : Writer.standard.Lawful := ⟨fun _ _ _ => rfl, fun _ => rfl⟩

structure Record where
  type : UInt8
  payload : Bytes
  deriving DecidableEq, Repr

/-- The records that bytes consist of. The first byte of a record counts all of its bytes. -/
def records? : Bytes → Option (List Record)
  | [] => some []
  | [_] => none
  | length :: type :: rest =>
      if 2 ≤ length.toNat ∧ length.toNat - 2 ≤ rest.length then
        (records? (rest.drop (length.toNat - 2))).map
          (⟨type, rest.take (length.toNat - 2)⟩ :: ·)
      else none
termination_by bytes => bytes.length
decreasing_by
  rw [List.length_drop, List.length_cons, List.length_cons]
  exact Nat.lt_succ_of_le ((Nat.sub_le _ _).trans (Nat.le_succ _))

def wordOfBytes (low high : UInt8) : UInt16 := UInt16.ofNat (low.toNat + 256 * high.toNat)

structure Setting where
  number : UInt8
  alt : UInt8
  endpoints : UInt8
  classCode : UInt8
  subclass : UInt8
  protocol : UInt8
  string : UInt8
  deriving DecidableEq, Repr

structure Abilities where
  attributes : UInt8
  detachTimeout : UInt16
  transferSize : UInt16
  version : UInt16
  deriving DecidableEq, Repr

inductive Item where
  | setting (setting : Setting)
  | functional (abilities : Abilities)
  deriving DecidableEq, Repr

def Record.item? (r : Record) : Option Item :=
  match r.type, r.payload with
  | 0x04, [number, alt, endpoints, classCode, subclass, protocol, string] =>
      some (.setting ⟨number, alt, endpoints, classCode, subclass, protocol, string⟩)
  | 0x21, [attributes, timeout₀, timeout₁, size₀, size₁, version₀, version₁] =>
      some (.functional ⟨attributes, wordOfBytes timeout₀ timeout₁, wordOfBytes size₀ size₁,
        wordOfBytes version₀ version₁⟩)
  | _, _ => none

/-- All that a host reads in descriptors, unless there is something else in them. -/
def items? (bytes : Bytes) : Option (List Item) := (records? bytes).bind (·.mapM Record.item?)

theorem wordOfBytes_word (w : UInt16) : wordOfBytes w.toUInt8 (w >>> 8).toUInt8 = w := by
  have hw : w.toNat < 65536 := w.toNat_lt
  apply UInt16.toNat_inj.1
  rw [wordOfBytes, UInt16.toNat_ofNat', UInt16.toNat_toUInt8, UInt16.toNat_toUInt8,
    UInt16.toNat_shiftRight]
  simp only [UInt16.reduceToNat, Nat.reduceMod, Nat.shiftRight_eq_div_pow, Nat.reducePow]
  omega

section Written

variable {w : Writer} (hw : w.Lawful)

include hw

theorem records?_record_append (type : UInt8) {payload : Bytes} (short : payload.length + 2 < 256)
    (rest : Bytes) :
    records? (w.record type payload ++ rest) = (records? rest).map (⟨type, payload⟩ :: ·) := by
  have hlength : (UInt8.ofNat (payload.length + 2)).toNat - 2 = payload.length := by
    rw [UInt8.toNat_ofNat_of_lt' short, Nat.add_sub_cancel]
  rw [hw.record_eq type payload short, List.cons_append, List.cons_append, records?, hlength,
    List.take_left, List.drop_left, if_pos]
  constructor
  · rw [UInt8.toNat_ofNat_of_lt' short]
    exact Nat.le_add_left _ _
  · rw [List.length_append]
    exact Nat.le_add_right _ _

theorem items?_record_append (type : UInt8) (payload : Bytes) {item : Item}
    (short : payload.length + 2 < 256) (hitem : Record.item? ⟨type, payload⟩ = some item)
    (rest : Bytes) :
    items? (w.record type payload ++ rest) = (items? rest).map (item :: ·) := by
  rw [items?, records?_record_append hw type short, items?]
  cases records? rest with
  | none => rfl
  | some records =>
      simp only [Option.map_some, Option.bind_some, List.mapM_cons, hitem]
      cases records.mapM Record.item? <;> rfl

theorem items?_alternate_append (a : Alternate) (rest : Bytes) :
    items? (w.alternate a ++ rest) = (items? rest).map (.setting ⟨a.number, a.alt, 0, a.classCode,
      a.subclass, a.protocol, a.string⟩ :: ·) := by
  rw [hw.alternate_eq]
  exact items?_record_append hw 0x04 _ (by simp) rfl rest

theorem items?_functionalDescriptor (cfg : Config) :
    items? (functionalDescriptor w cfg) = some [.functional
      ⟨upgradeAttributes, cfg.detachTimeout, cfg.transferSize, 0x0110⟩] := by
  have hitems := items?_record_append hw 0x21 (upgradeAttributes ::
    Bytes.word16 cfg.detachTimeout ++ Bytes.word16 cfg.transferSize ++ Bytes.word16 0x0110)
    (by simp [Bytes.word16]) rfl []
  rw [wordOfBytes_word, wordOfBytes_word, wordOfBytes_word, List.append_nil] at hitems
  rw [functionalDescriptor, hitems, items?, records?]
  rfl

end Written

namespace Interface

def settings (i : Interface) : List Setting :=
  i.strings.zipIdx.map fun (string, alt) =>
    ⟨i.number, UInt8.ofNat alt, 0, applicationClass, upgradeSubclass, upgradeProtocol, string⟩

/-- A host reads all alternate settings in their order, and then the abilities. -/
theorem items?_descriptors {w : Writer} (hw : w.Lawful) (cfg : Config) (i : Interface) :
    items? (i.descriptors w cfg) = some (i.settings.map .setting ++
      [.functional ⟨upgradeAttributes, cfg.detachTimeout, cfg.transferSize, 0x0110⟩]) := by
  rw [descriptors, settings]
  induction i.strings.zipIdx with
  | nil => exact items?_functionalDescriptor hw cfg
  | cons entry rest ih =>
      rw [List.flatMap_cons, List.append_assoc]
      refine (items?_alternate_append hw _ _).trans ?_
      rw [ih]
      rfl

theorem settings_getElem? (i : Interface) (k : Nat) :
    i.settings[k]? = i.strings[k]?.map fun string =>
      ⟨i.number, UInt8.ofNat k, 0, applicationClass, upgradeSubclass, upgradeProtocol, string⟩ := by
  rw [settings, List.getElem?_map, List.getElem?_zipIdx, Option.map_map]
  simp [Function.comp_def]

variable {cfg : Config} {numbering : Numbering} {i i' : Interface}

/-- Only the session of an interface ever changes. -/
theorem Reachable.exists_withSession (h : Reachable cfg numbering i) :
    ∃ s, i = (attach cfg numbering).1.withSession s := by
  induction h with
  | refl => exact ⟨.initial cfg, rfl⟩
  | tail _ hcall ih =>
      obtain ⟨s, rfl⟩ := ih
      obtain ⟨s', rfl, -⟩ := hcall.exists_session
      exact ⟨s', rfl⟩

theorem toNat_ofNat_of_lt_size {k : Nat} (h : k < cfg.zones.size) : (UInt8.ofNat k).toNat = k :=
  UInt8.toNat_ofNat_of_lt' (h.trans_le (cfg.zones.length_le.trans (by decide)))

/-- The indices of at most eight strings differ, wherever they begin. -/
theorem string_inj (first : UInt8) {j k : Nat} (hj : j < cfg.zones.size) (hk : k < cfg.zones.size)
    (h : first + UInt8.ofNat j = first + UInt8.ofNat k) : j = k := by
  have heq := congrArg UInt8.toNat (add_left_cancel h)
  rwa [toNat_ofNat_of_lt_size hj, toNat_ofNat_of_lt_size hk] at heq

section Attached

variable (h : Reachable cfg numbering i)

include h

theorem Reachable.number_eq : i.number = numbering.interface := by
  obtain ⟨s, rfl⟩ := h.exists_withSession
  rfl

theorem Reachable.length_strings : i.strings.length = cfg.zones.size := by
  obtain ⟨s, rfl⟩ := h.exists_withSession
  simp [attach, withSession]

theorem Reachable.strings_getElem {k : Nat} (hk : k < i.strings.length) :
    i.strings[k] = numbering.string + UInt8.ofNat k := by
  obtain ⟨s, rfl⟩ := h.exists_withSession
  simp [attach, withSession]

theorem Reachable.idxOf?_strings {index : UInt8} {k : Nat} :
    i.strings.idxOf? index = some k ↔
      k < cfg.zones.size ∧ index = numbering.string + UInt8.ofNat k := by
  rw [List.idxOf?_eq_some_iff, ← h.length_strings]
  constructor
  · rintro ⟨hk, rfl, -⟩
    exact ⟨hk, h.strings_getElem hk⟩
  · rintro ⟨hk, rfl⟩
    refine ⟨hk, h.strings_getElem hk, ?_⟩
    intro j hj heq
    rw [h.strings_getElem (hj.trans hk)] at heq
    rw [h.length_strings] at hk
    exact hj.ne (string_inj numbering.string (hj.trans hk) hk heq)

/-- The strings of an interface are the names of the zones, in the languages that it knows. -/
theorem Reachable.string?_eq_some_iff {index : UInt8} {language : UInt16} {name : String} :
    i.string? cfg index language = some name ↔
      (language = 0x0409 ∨ language = 0) ∧ ∃ k zone, cfg.zones.zones[k]? = some zone ∧
        index = numbering.string + UInt8.ofNat k ∧ zone.name = name := by
  have hlanguage : knowsLanguage language = true ↔ language = 0x0409 ∨ language = 0 := by
    simp [knowsLanguage]
  rw [string?]
  split
  · rename_i hknown
    simp only [Option.bind_eq_some_iff, h.idxOf?_strings, Option.map_eq_some_iff]
    constructor
    · rintro ⟨k, ⟨hk, rfl⟩, zone, hzone, rfl⟩
      rw [ZoneTable.get?, toNat_ofNat_of_lt_size hk] at hzone
      exact ⟨hlanguage.1 hknown, k, zone, hzone, rfl, rfl⟩
    · rintro ⟨-, k, zone, hzone, rfl, rfl⟩
      obtain ⟨hk, -⟩ := List.getElem?_eq_some_iff.1 hzone
      refine ⟨k, ⟨hk, rfl⟩, zone, ?_, rfl⟩
      rw [ZoneTable.get?, toNat_ofNat_of_lt_size hk]
      exact hzone
  · rename_i hunknown
    simp [← hlanguage, hunknown]

end Attached

/-- An alternate setting that stands for a zone: it carries the codes of the class, its string
is the name of the zone in the languages that the loader knows, and selecting it loads the
zone. -/
structure Presents (cfg : Config) (i : Interface) (zone : Zone) (k : Nat) (setting : Setting) :
    Prop where
  number_eq : setting.number = i.number
  alt_eq : setting.alt.toNat = k
  endpoints_eq : setting.endpoints = 0
  classCode_eq : setting.classCode = 0xfe
  subclass_eq : setting.subclass = 0x01
  protocol_eq : setting.protocol = 0x02
  string_eq : ∀ language, language = 0x0409 ∨ language = 0 →
    i.string? cfg setting.string language = some zone.name
  selects : ∃ i', i.selectAlt cfg setting.number setting.alt = (true, i') ∧
    i'.session.alt = setting.alt ∧ i'.session.engine = .loaded zone cfg.maxAttempts

theorem Reachable.presents (h : Reachable cfg numbering i) {k : Nat} {zone : Zone}
    (hzone : cfg.zones.zones[k]? = some zone) :
    ∃ setting, i.settings[k]? = some setting ∧ i.Presents cfg zone k setting := by
  obtain ⟨hk, -⟩ := List.getElem?_eq_some_iff.1 hzone
  have hstrings : k < i.strings.length := by
    rw [h.length_strings]
    exact hk
  have halt : cfg.zones.get? (UInt8.ofNat k) = some zone := by
    rw [ZoneTable.get?, toNat_ofNat_of_lt_size hk]
    exact hzone
  refine ⟨⟨i.number, UInt8.ofNat k, 0, applicationClass, upgradeSubclass, upgradeProtocol,
    numbering.string + UInt8.ofNat k⟩, ?_, rfl, toNat_ofNat_of_lt_size hk, rfl, rfl, rfl, rfl,
    ?_, ?_⟩
  · rw [settings_getElem?, List.getElem?_eq_getElem hstrings, h.strings_getElem hstrings]
    rfl
  · intro language hlanguage
    exact h.string?_eq_some_iff.2 ⟨hlanguage, k, zone, hzone, rfl, rfl⟩
  · refine ⟨i.withSession (i.session.loaded cfg (UInt8.ofNat k) zone), ?_, rfl, rfl⟩
    rw [selectAlt, if_pos rfl, Session.selectAlt_eq_some_iff.2 ⟨zone, halt, rfl⟩]

/-- The descriptors of a loader are read as one alternate setting for each zone, in the order
of the zones, and the abilities that its board fixed. Each setting presents its zone, and no
string can be read but in the two languages and by the index of a setting. -/
theorem alternate_settings (cfg : Config) (numbering : Numbering) (i : Interface)
    (h : Reachable cfg numbering i) {w : Writer} (hw : w.Lawful) :
    ∃ settings : List Setting,
      items? (i.descriptors w cfg) = some (settings.map .setting ++
        [.functional ⟨0x0f, cfg.detachTimeout, cfg.transferSize, 0x0110⟩]) ∧
      settings.length = cfg.zones.size ∧ i.number = numbering.interface ∧
      (∀ k zone, cfg.zones.zones[k]? = some zone →
        ∃ setting, settings[k]? = some setting ∧ i.Presents cfg zone k setting) ∧
      ∀ index language name, i.string? cfg index language = some name →
        (language = 0x0409 ∨ language = 0) ∧ ∃ setting ∈ settings, setting.string = index := by
  refine ⟨i.settings, items?_descriptors hw cfg i, ?_, h.number_eq, fun _ _ => h.presents, ?_⟩
  · rw [settings, List.length_map, List.length_zipIdx, h.length_strings]
  · intro index language name hname
    obtain ⟨hlanguage, k, zone, hzone, rfl, -⟩ := h.string?_eq_some_iff.1 hname
    obtain ⟨setting, hsetting, hpresents⟩ := h.presents hzone
    refine ⟨hlanguage, setting, List.mem_of_getElem? hsetting, ?_⟩
    -- the index was handed out for the setting at the same place
    rw [settings_getElem?] at hsetting
    obtain ⟨string, hstring, rfl⟩ := Option.map_eq_some_iff.1 hsetting
    obtain ⟨hk, rfl⟩ := List.getElem?_eq_some_iff.1 hstring
    exact h.strings_getElem hk

/-- The reference board behind another interface with seven strings, in the middle of a
download: its last setting still is the one of the clock. -/
theorem alternate_settings_reference :
    let numbering : Numbering := ⟨1, 11⟩
    let i := (attach {} numbering).1.withSession (Session.halfImage {})
    Reachable {} numbering i ∧ Writer.standard.Lawful ∧
      ∃ settings : List Setting,
        items? (i.descriptors .standard {}) = some (settings.map .setting ++
          [.functional ⟨0x0f, 250, 128, 0x0110⟩]) ∧
        settings.length = 7 ∧ i.number = 1 ∧
        ∃ setting, settings[6]? = some setting ∧
          i.Presents {} ⟨.cartridge, 0, 0x100, "RTC"⟩ 6 setting := by
  intro numbering i
  have hreachable : Reachable {} numbering i := reachable_halfImage numbering
  obtain ⟨settings, hitems, hlength, hnumber, hpresents, -⟩ :=
    alternate_settings {} numbering i hreachable Writer.lawful_standard
  exact ⟨hreachable, Writer.lawful_standard, settings, hitems, hlength, hnumber, hpresents 6 _ rfl⟩

end Interface

end Usb

end DfuLoader
