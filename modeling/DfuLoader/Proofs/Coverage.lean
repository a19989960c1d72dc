import DfuLoader.Flash.Command
import Mathlib.Tactic.Common

/-!
# What commands cover

Commands that take a window piece by piece cover a list of spans, each a start and a
length. The spans `Tile` the addresses from one to another if each begins where the one
before it ends. No address between is then left out or covered twice
(`Tile.countP_covers`), and the spans come in the order of the addresses
(`Tile.pairwise`). Pieces are only covered as long as no command fails (`fault?`).
-/

namespace DfuLoader

def Exchange.fault? : Exchange → Option Fault
  | ⟨.readStatus, .error fault⟩ => some fault
  | ⟨.read _ _, .error fault⟩ => some fault
  | ⟨.writeEnable, .error fault⟩ => some fault
  | ⟨.erase _ _, .error fault⟩ => some fault
  | ⟨.program _ _, .error fault⟩ => some fault
  | ⟨.verify _ _, .error fault⟩ => some fault
  | _ => none

structure Span where
  start : Nat
  length : Nat
  deriving DecidableEq, Repr

namespace Span

def Covers (s : Span) (x : Nat) : Prop := s.start ≤ x ∧ x < s.start + s.length

instance (s : Span) (x : Nat) : Decidable (s.Covers x) := inferInstanceAs (Decidable (_ ∧ _))

/-- The first span begins at one address, each of the others where the one before it
ends, and the last one ends at the other address. -/
def Tile : Nat → List Span → Nat → Prop
  | a, [], b => a = b
  | a, s :: l, b => s.start = a ∧ Tile (a + s.length) l b

variable {a b : Nat} {s : Span} {l l' : List Span}

theorem tile_append : Tile a (l ++ l') b ↔ ∃ c, Tile a l c ∧ Tile c l' b := by
  induction l generalizing a with
  | nil => simp [Tile]
  | cons s l ih =>
      simp only [List.cons_append, Tile, ih]
      constructor
      · rintro ⟨hstart, c, hl, hl'⟩
        exact ⟨c, ⟨hstart, hl⟩, hl'⟩
      · rintro ⟨c, ⟨hstart, hl⟩, hl'⟩
        exact ⟨hstart, c, hl, hl'⟩

theorem Tile.append_singleton (h : Tile a l b) (hstart : s.start = b) :
    Tile a (l ++ [s]) (b + s.length) :=
  tile_append.2 ⟨b, h, hstart, rfl⟩

theorem Tile.le (h : Tile a l b) : a ≤ b := by
  induction l generalizing a with
  | nil => exact Nat.le_of_eq h
  | cons s l ih => exact Nat.le_trans (Nat.le_add_right _ _) (ih h.2)

theorem Tile.between (h : Tile a l b) (hs : s ∈ l) : a ≤ s.start ∧ s.start + s.length ≤ b := by
  induction l generalizing a with
  | nil => cases hs
  | cons s' l ih =>
      obtain ⟨hstart, hrest⟩ := h
      rcases List.mem_cons.1 hs with rfl | hs
      · have hle := hrest.le
        omega
      · have hbetween := ih hrest hs
        omega

/-- The spans come in the order of the addresses, and none reaches into another. -/
theorem Tile.pairwise (h : Tile a l b) :
    l.Pairwise fun s s' => s.start + s.length ≤ s'.start := by
  induction l generalizing a with
  | nil => exact .nil
  | cons s l ih =>
      obtain ⟨rfl, hrest⟩ := h
      exact .cons (fun s' hs' => (hrest.between hs').1) (ih hrest)

/-- Every address between the two is covered once, and no other one is. -/
theorem Tile.countP_covers (h : Tile a l b) (x : Nat) :
    l.countP (fun s => s.Covers x) = if a ≤ x ∧ x < b then 1 else 0 := by
  induction l generalizing a with
  | nil =>
      obtain rfl : a = b := h
      rw [List.countP_nil, if_neg (by omega)]
  | cons s l ih =>
      obtain ⟨rfl, hrest⟩ := h
      have hle := hrest.le
      rw [List.countP_cons, ih hrest]
      by_cases hs : s.Covers x
      · have hx : s.start ≤ x ∧ x < s.start + s.length := hs
        rw [decide_eq_true hs, if_neg (by omega), if_pos rfl, if_pos (by omega)]
      · have hx : ¬(s.start ≤ x ∧ x < s.start + s.length) := hs
        rw [decide_eq_false hs, if_neg Bool.false_ne_true]
        exact if_congr (by omega) rfl rfl

structure Covering (a b : Nat) (l : List Span) : Prop where
  tile : Tile a l b
  once : ∀ x, l.countP (fun s => s.Covers x) = if a ≤ x ∧ x < b then 1 else 0
  ordered : l.Pairwise fun s s' => s.start + s.length ≤ s'.start

theorem Tile.covering (h : Tile a l b) : Covering a b l := ⟨h, h.countP_covers, h.pairwise⟩

theorem Tile.start_succ (h : Tile a l b) {i : Nat} (hi : i + 1 < l.length) :
    l[i + 1].start = l[i].start + l[i].length := by
  induction l generalizing a i with
  | nil => cases hi
  | cons s l ih =>
      obtain ⟨rfl, hrest⟩ := h
      cases i with
      | succ i => exact ih hrest (Nat.lt_of_succ_lt_succ hi)
      | zero =>
          cases l with
          | nil => cases hi with | step h => cases h
          | cons s' l => exact hrest.1

end Span

end DfuLoader
