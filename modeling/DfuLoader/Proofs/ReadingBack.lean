import DfuLoader.Proofs.Coverage
import DfuLoader.Proofs.Storage

/-!
# Comparing by reading back

A comparison that is served by reading back never holds the window as a whole: it reads a
piece, takes it in and forgets it. All the same it finds what a comparison of the whole
would, because pieces may be taken in one after the other (`outcome_foldl`), and the reads
cover the window from its start to its end (`readback_classifies`). The first read that
fails is the last one.
-/

namespace DfuLoader

open Dialogue

/-- Two strings that are cut into matching pieces are compared piece by piece. -/
theorem Comparison.foldl_update (c : Comparison) {pieces : List (Bytes × Bytes)}
    (same : ∀ x ∈ pieces, x.1.length = x.2.length) :
    pieces.foldl (fun c x => c.update x.1 x.2) c =
      c.update (pieces.map Prod.fst).flatten (pieces.map Prod.snd).flatten := by
  induction pieces generalizing c with
  | nil => rfl
  | cons x pieces ih =>
      rw [List.forall_mem_cons] at same
      rw [List.foldl_cons, ih _ same.2, List.map_cons, List.map_cons, List.flatten_cons,
        List.flatten_cons, Comparison.update_append _ same.1]

def Command.span? : Command → Option Span
  | .read start length => some ⟨start.toNat, length⟩
  | _ => none

def spansOf (t : List Exchange) : List Span := t.filterMap fun e => e.command.span?

/-- The exchanges that read the addresses from one to another, with what comes out: all of
them are read, or those up to the first read that fails. -/
inductive Reading (start stop : Nat) : List Exchange → Except Fault Outcome → Prop
  | whole {t : List Exchange} {outcome : Outcome} (unfailed : ∀ e ∈ t, e.fault? = none)
      (tile : Span.Tile start (spansOf t) stop) : Reading start stop t (.ok outcome)
  | broken {t : List Exchange} {e : Exchange} {fault : Fault} {last : Nat}
      (unfailed : ∀ e ∈ t, e.fault? = none) (failed : e.fault? = some fault)
      (tile : Span.Tile start (spansOf (t ++ [e])) last) (last_le : last ≤ stop) :
      Reading start stop (t ++ [e]) (.error fault)

variable {t : List Exchange} {reply : Except Fault Outcome} {start stop : Nat}

theorem Reading.cons {a : Address} {n : Nat} (bytes : Bytes.OfLength n)
    (h : Reading (a.toNat + n) stop t reply) :
    Reading a.toNat stop (⟨.read a n, .ok bytes⟩ :: t) reply := by
  cases h with
  | whole unfailed tile => exact .whole (List.forall_mem_cons.2 ⟨rfl, unfailed⟩) ⟨rfl, tile⟩
  | broken unfailed failed tile last_le =>
      have hbroken : Reading a.toNat stop ((⟨.read a n, .ok bytes⟩ :: _) ++ [_]) (.error _) :=
        .broken (List.forall_mem_cons.2 ⟨rfl, unfailed⟩) failed ⟨rfl, tile⟩ last_le
      exact hbroken

theorem reading_readPieces {pieces : List Bytes} {a : Address} {comparison : Comparison}
    (h : Ends (readPieces pieces a comparison) t reply)
    (hfit : a.toNat + pieces.flatten.length < 2 ^ 32) :
    (∀ e ∈ t, e.command.span? ≠ none) ∧
      Reading a.toNat (a.toNat + pieces.flatten.length) t reply := by
  induction pieces generalizing t a comparison with
  | nil =>
      cases h
      exact ⟨List.forall_mem_nil _, .whole (List.forall_mem_nil _) rfl⟩
  | cons wanted rest ih =>
      rw [List.flatten_cons, List.length_append] at hfit ⊢
      rw [readPieces, ends_bind] at h
      obtain ⟨t₁, t₂, result, rfl, hread, h⟩ := h
      rw [Dialogue.read, ends_command] at hread
      subst hread
      cases result with
      | error fault =>
          cases h
          have hle : a.toNat + wanted.length ≤ a.toNat + (wanted.length + rest.flatten.length) := by
            omega
          have hbroken : Reading a.toNat (a.toNat + (wanted.length + rest.flatten.length))
              ([] ++ [⟨.read a wanted.length, .error fault⟩]) (.error fault) :=
            .broken (List.forall_mem_nil _) rfl ⟨rfl, rfl⟩ hle
          exact ⟨List.forall_mem_singleton.2 (by simp [Command.span?]), hbroken⟩
      | ok bytes =>
          have hnext : (a + UInt32.ofNat wanted.length).toNat = a.toNat + wanted.length :=
            Address.toNat_add_ofNat (by omega)
          obtain ⟨hreads, hreading⟩ := ih h (by omega)
          rw [hnext, Nat.add_assoc] at hreading
          exact ⟨List.forall_mem_cons.2 ⟨by simp [Command.span?], hreads⟩, hreading.cons bytes⟩

/-- A comparison of wanted bytes with a flash that asks for nothing but reads. If none of
them fails, they cover the window once, in the order of its addresses, and the outcome is
that for what is stored there. A read that fails is the last one, and the reply its fault. -/
structure ReadsBack (f : Flash) (start : Address) (wanted : Bytes) (t : List Exchange)
    (reply : Except Fault Outcome) : Prop where
  only_reads : ∀ e ∈ t, e.command.span? ≠ none
  classified : (∀ e ∈ t, e.fault? = none) →
    reply = .ok (classify wanted (f.stored f.selected start.toNat wanted.length)) ∧
      Span.Covering start.toNat (start.toNat + wanted.length) (spansOf t)
  broken : ∀ e ∈ t, ∀ fault, e.fault? = some fault →
    reply = .error fault ∧ (∃ t', t = t' ++ [e] ∧ ∀ e ∈ t', e.fault? = none) ∧
      ∃ stop ≤ start.toNat + wanted.length, Span.Covering start.toNat stop (spansOf t)

theorem Reading.readsBack {f : Flash} {start : Address} {wanted : Bytes}
    (h : Reading start.toNat (start.toNat + wanted.length) t reply)
    (only_reads : ∀ e ∈ t, e.command.span? ≠ none)
    (classified : ∀ outcome, reply = .ok outcome →
      outcome = classify wanted (f.stored f.selected start.toNat wanted.length)) :
    ReadsBack f start wanted t reply := by
  cases h with
  | whole unfailed tile =>
      refine ⟨only_reads, fun _ => ⟨congrArg _ (classified _ rfl), tile.covering⟩, ?_⟩
      intro e he fault hfault
      rw [unfailed e he] at hfault
      cases hfault
  | @broken t e fault last unfailed failed tile last_le =>
      refine ⟨only_reads, fun hnone => ?_, ?_⟩
      · rw [hnone e (List.mem_append_right _ (List.mem_singleton_self e))] at failed
        cases failed
      · intro e' he' fault' hfault
        rcases List.mem_append.1 he' with he' | he'
        · rw [unfailed e' he'] at hfault
          cases hfault
        · obtain rfl := List.mem_singleton.1 he'
          obtain rfl := Option.some.inj (failed.symm.trans hfault)
          exact ⟨rfl, ⟨t, rfl, unfailed⟩, last, last_le, tile.covering⟩

/-- Two strings are compared piece by piece as at once, however they are cut up; and a board
that serves comparisons by reading back finds what a comparison at once would find. -/
theorem readback_classifies :
    (∀ pieces : List (Bytes × Bytes), (∀ x ∈ pieces, x.1.length = x.2.length) →
      (pieces.foldl (fun c x => c.update x.1 x.2) Comparison.empty).outcome =
        classify (pieces.map Prod.fst).flatten (pieces.map Prod.snd).flatten) ∧
    ∀ {σ : Type} (board : Board σ) (s : σ) (f : Flash) (start : Address) (wanted : Bytes),
      start.toNat + wanted.length < 2 ^ 32 →
      (∀ e ∈ (readback start wanted).trace board s, f.Reads e) →
      ReadsBack f start wanted ((readback start wanted).trace board s)
        (board.withReadback.answer (.verify start wanted) s).1 := by
  refine ⟨fun pieces same => by rw [Comparison.foldl_update _ same, classify], ?_⟩
  intro σ board s f start wanted hfit htruthful
  have hflat : (Bytes.chunks readbackSize wanted).flatten = wanted :=
    Bytes.flatten_chunks (by decide) wanted
  have hends := ends_run board (readback start wanted) s
  obtain ⟨honly, hreading⟩ := reading_readPieces hends (by rwa [hflat])
  rw [hflat] at hreading
  refine hreading.readsBack honly fun outcome houtcome => ?_
  have hends' : Ends (readback start wanted) _ (.ok outcome) := houtcome ▸ hends
  have hclassified := Flash.readPieces_outcome hends' htruthful (by rwa [hflat])
  rwa [hflat] at hclassified

/-- Three bytes in two pieces; and a hundred bytes that are read back in two pieces, of which
the second is short. -/
theorem readback_classifies_pieces :
    ([([0x42], [0xff]), ([0xff, 0x10], [0xff, 0x00])].foldl (fun c x => c.update x.1 x.2)
      Comparison.empty).outcome = classify [0x42, 0xff, 0x10] [0xff, 0xff, 0x00] ∧
    ∃ (f : Flash) (wanted : Bytes), (0x1f0 : Address).toNat + wanted.length < 2 ^ 32 ∧
      (∀ e ∈ (readback 0x1f0 wanted).trace Flash.chips f, f.Reads e) ∧
      (Flash.chips.withReadback.answer (.verify 0x1f0 wanted) f).1 = .ok .program ∧
      Span.Covering 0x1f0 0x254 (spansOf ((readback 0x1f0 wanted).trace Flash.chips f)) ∧
      ((readback 0x1f0 wanted).trace Flash.chips f).length = 2 := by
  refine ⟨readback_classifies.1 [([0x42], [0xff]), ([0xff, 0x10], [0xff, 0x00])] (by simp), ?_⟩
  let f : Flash := ⟨.internal, fun _ _ => 0xff⟩
  let wanted : Bytes := List.replicate 100 0x42
  have hfit : (0x1f0 : Address).toNat + wanted.length < 2 ^ 32 := by decide
  have hreads :=
    (Flash.readPieces_chips (f := f) (Bytes.chunks readbackSize wanted) 0x1f0 .empty).1
  have hnone : ((readback 0x1f0 wanted).trace Flash.chips f).all
      (fun e => e.fault? == none) = true := by decide +kernel
  have hreadsBack := readback_classifies.2 Flash.chips f f 0x1f0 wanted hfit hreads
  obtain ⟨hreply, hcovering⟩ := hreadsBack.classified fun e he => by
    simpa using List.all_eq_true.1 hnone e he
  have hclassify : classify wanted (f.stored f.selected (0x1f0 : Address).toNat wanted.length) =
      .program := by decide +kernel
  rw [hclassify] at hreply
  exact ⟨f, wanted, hfit, hreads, hreply, hcovering, by decide +kernel⟩

end DfuLoader
