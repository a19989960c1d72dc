import DfuLoader.Proofs.Classification
import DfuLoader.Proofs.HealthyBoard
import DfuLoader.Proofs.RingQueue
import DfuLoader.Proofs.WindowCursor

/-!
# The turns of a window

On a healthy board a window is written in turns: it is compared and erased
(`Compares.erases`), compared and programmed page by page (`Compares.programs`), or
compared and found written (`Compares.commits`). Between two turns all that matters of
the board is what its chips store, and of the pipeline how many attempts are left. A turn
may need many ticks because the chip may be at work for a while (`exists_finds`); `Leads`
and `Concludes` put ticks together, and keep the commands that are worth counting.
-/

namespace DfuLoader

namespace Address

def page (start : Address) (i : Nat) : Address := start + UInt32.ofNat (pageSize * i)

theorem page_zero (start : Address) : start.page 0 = start := UInt32.add_zero start

theorem page_page (start : Address) (i j : Nat) : (start.page i).page j = start.page (i + j) := by
  rw [page, page, page, Nat.mul_add, UInt32.ofNat_add, UInt32.add_assoc]

theorem toNat_page {start : Address} {i : Nat} (h : start.toNat + pageSize * i < 2 ^ 32) :
    (start.page i).toNat = start.toNat + pageSize * i := toNat_add_ofNat h

end Address

namespace Command

/-- The command changes what is stored, or restarts the device. -/
def isLasting : Command → Bool
  | .erase _ _ | .program _ _ | .reboot => true
  | _ => false

def pages (start : Address) (bytes : Bytes) : List Command :=
  (Bytes.chunks pageSize bytes).mapIdx fun i page => .program (start.page i) page

theorem pages_nil (start : Address) : pages start [] = [] := rfl

theorem pages_of_pos (start : Address) {bytes : Bytes} (h : 0 < bytes.length) :
    pages start bytes =
      .program start (bytes.take pageSize) :: pages (start.page 1) (bytes.drop pageSize) := by
  have hchunks : Bytes.chunks pageSize bytes =
      bytes.take pageSize :: Bytes.chunks pageSize (bytes.drop pageSize) := by
    have hcount : (bytes.length + (pageSize - 1)) / pageSize =
        ((bytes.drop pageSize).length + (pageSize - 1)) / pageSize + 1 := by
      rw [List.length_drop, pageSize]
      omega
    rw [Bytes.chunks, hcount, Bytes.pieces_succ, Bytes.chunks]
  rw [pages, hchunks, List.mapIdx_cons, pages, Address.page_zero]
  simp only [Address.page_page, Nat.add_comm]

theorem pages_drop (start : Address) {bytes : Bytes} {i : Nat} (h : pageSize * i < bytes.length) :
    pages (start.page i) (bytes.drop (pageSize * i)) =
      .program (start.page i) ((bytes.drop (pageSize * i)).take pageSize) ::
        pages (start.page (i + 1)) (bytes.drop (pageSize * (i + 1))) := by
  rw [pages_of_pos _ (by rw [List.length_drop]; omega), Address.page_page, List.drop_drop,
    Nat.mul_succ]

theorem count_reboot_pages (start : Address) (bytes : Bytes) :
    (pages start bytes).count .reboot = 0 := by
  refine List.count_eq_zero.2 fun hmem => ?_
  obtain ⟨i, hi, heq⟩ := List.mem_mapIdx.1 hmem
  cases heq

end Command

def lasting (t : List Exchange) : List Command :=
  (t.map Exchange.command).filter Command.isLasting

theorem lasting_append (t t' : List Exchange) : lasting (t ++ t') = lasting t ++ lasting t' := by
  rw [lasting, List.map_append, List.filter_append]
  rfl

namespace Flash

variable {f : Flash} {chip : Chip} {start offset : Nat} {window : Bytes}

/-- The chip stores a window as far as `offset`, and the window can be programmed without
an erase. -/
structure Takes (f : Flash) (chip : Chip) (start : Nat) (window : Bytes) (offset : Nat) :
    Prop where
  written : ∀ {i : Nat} {b : UInt8}, i < offset → window[i]? = some b → f.cells chip (start + i) = b
  clearable : ∀ {i : Nat} {b : UInt8}, window[i]? = some b → b &&& f.cells chip (start + i) = b

theorem takes_zero (h : (classify window (f.stored chip start window.length)).needsErase = false) :
    f.Takes chip start window 0 where
  written hi _ := absurd hi (Nat.not_lt_zero _)
  clearable hb := by
    have hlt := (List.getElem?_eq_some_iff.1 hb).1
    exact spared_iff.1 h _ _ _ hb (f.getElem?_stored chip start hlt)

theorem Takes.stored_eq (h : f.Takes chip start window offset) (hall : window.length ≤ offset) :
    f.stored chip start window.length = window := by
  refine List.ext_getElem (f.length_stored _ _ _) fun i hi hw => ?_
  have hb := List.getElem?_eq_getElem hw
  have hcell := f.getElem?_stored chip start hw
  rw [h.written (by omega) hb, List.getElem?_eq_getElem hi] at hcell
  exact Option.some.inj hcell

/-- A page command brings the window further by its bytes. -/
theorem Takes.programmed (h : f.Takes chip start window offset) (hchip : f.selected = chip)
    {a : Address} (ha : a.toNat = start + offset) (n : Nat) :
    (f.programmed a ((window.drop offset).take n)).Takes chip start window (offset + n) := by
  have hcell {i : Nat} {b : UInt8} (hb : window[i]? = some b) :
      (f.programmed a ((window.drop offset).take n)).cells chip (start + i) =
        if offset ≤ i ∧ i < offset + n then b else f.cells chip (start + i) := by
    have hlt := (List.getElem?_eq_some_iff.1 hb).1
    have hlength : ((window.drop offset).take n).length = min n (window.length - offset) := by
      rw [List.length_take, List.length_drop]
    change (if chip = f.selected ∧ a.toNat ≤ start + i ∧
      start + i < a.toNat + ((window.drop offset).take n).length then _ else _) = _
    by_cases hin : offset ≤ i ∧ i < offset + n
    · have hpage : ((window.drop offset).take n).getD (start + i - a.toNat) erasedByte = b := by
        have hindex : start + i - a.toNat = i - offset := by omega
        rw [hindex, List.getD_eq_getElem?_getD, List.getElem?_take_of_lt (by omega),
          List.getElem?_drop, Nat.add_sub_cancel' hin.1, hb]
        rfl
      rw [if_pos hin, if_pos ⟨hchip.symm, by omega, by omega⟩, hpage, UInt8.and_comm]
      exact h.clearable hb
    · rw [if_neg hin, if_neg (by omega)]
  constructor
  · intro i b hi hb
    rw [hcell hb]
    split
    · rfl
    · exact h.written (by omega) hb
  · intro i b hb
    rw [hcell hb]
    split
    · exact UInt8.and_self
    · exact h.clearable hb

theorem stored_erased (hchip : f.selected = chip) (a : Address) {unit : EraseUnit} {n : Nat}
    (hn : n ≤ unit.size.toNat) :
    (f.erased a unit).stored chip a.toNat n = List.replicate n erasedByte := by
  refine List.eq_replicate_iff.2 ⟨length_stored _ _ _ _, fun b hb => ?_⟩
  obtain ⟨x, hx, rfl⟩ := List.mem_map.1 hb
  rw [List.mem_range'_1] at hx
  exact if_pos ⟨hchip.symm, hx.1, by omega⟩

end Flash

namespace Engine

theorem baseOf_eraseUnit (e : Engine) (preferred : EraseUnit)
    (h : e.windowAt.toNat % 4096 = 0) :
    (e.eraseUnit preferred).baseOf e.windowAt = e.windowAt := by
  apply UInt32.toNat_inj.1
  rw [toNat_baseOf_eraseUnit, h, Nat.sub_zero]

theorem windowAt_mod_eraseUnit (e : Engine) (preferred : EraseUnit)
    (h : e.windowAt.toNat % 4096 = 0) :
    e.windowAt.toNat % (e.eraseUnit preferred).size.toNat = 0 := by
  have hbase := congrArg UInt32.toNat (e.baseOf_eraseUnit preferred h)
  rw [EraseUnit.toNat_baseOf] at hbase
  have hle := Nat.mod_le e.windowAt.toNat (e.eraseUnit preferred).size.toNat
  omega

theorem eraseUnit_congr {e f : Engine} (hwindow : e.windowAt = f.windowAt)
    (hend : e.zoneEnd = f.zoneEnd) (preferred : EraseUnit) :
    e.eraseUnit preferred = f.eraseUnit preferred := by
  rw [eraseUnit, eraseUnit, hwindow, hend]

end Engine

namespace Pipeline

variable {σ : Type} {cfg : Config} {board : Board σ} {p q r : Pipeline} {s s₁ s₂ : σ}
  {t : List Exchange} {k : Tick} {w w' : List Command}

/-- Ticks that do not finish a window, with their lasting commands. -/
inductive Leads (cfg : Config) (board : Board σ) :
    Pipeline → σ → List Command → Pipeline → σ → Prop
  | refl (p : Pipeline) (s : σ) : Leads cfg board p s [] p s
  | tick {p q r : Pipeline} {s s₁ s₂ : σ} {t : List Exchange} {k : Tick} {w : List Command}
      (ticks : Ticks cfg p t k q) (plays : board.Plays s t s₁) (unfinished : k.released = 0)
      (rest : Leads cfg board q s₁ w r s₂) : Leads cfg board p s (lasting t ++ w) r s₂

def Concludes (cfg : Config) (board : Board σ) (p : Pipeline) (s : σ) (w : List Command) (k : Tick)
    (s₂ : σ) : Prop :=
  ∃ w₁ q s₁ t r, Leads cfg board p s w₁ q s₁ ∧ Ticks cfg q t k r ∧ board.Plays s₁ t s₂ ∧
    k.released = 1 ∧ w = w₁ ++ lasting t

theorem Leads.trans (h : Leads cfg board p s w q s₁) (h' : Leads cfg board q s₁ w' r s₂) :
    Leads cfg board p s (w ++ w') r s₂ := by
  induction h with
  | refl p s => exact h'
  | tick ticks plays unfinished rest ih =>
      rw [List.append_assoc]
      exact .tick ticks plays unfinished (ih h')

theorem Leads.concludes (h : Leads cfg board p s w q s₁)
    (h' : Concludes cfg board q s₁ w' k s₂) : Concludes cfg board p s (w ++ w') k s₂ := by
  obtain ⟨w₁, q', s', t, r, leads, ticks, plays, finished, rfl⟩ := h'
  exact ⟨_, q', s', t, r, h.trans leads, ticks, plays, finished, (List.append_assoc _ _ _).symm⟩

/-! The states of a window that is written to a healthy board. -/

structure SameWindow (p q : Pipeline) : Prop where
  windowAt_eq : q.engine.windowAt = p.engine.windowAt
  zoneEnd_eq : q.engine.zoneEnd = p.engine.zoneEnd
  chip_eq : q.engine.chip = p.engine.chip
  buffer_eq : q.buffer = p.buffer

theorem SameWindow.mapEngine (h : SameWindow p q) {f : Engine → Engine}
    (hwindow : ∀ e, (f e).windowAt = e.windowAt) (hend : ∀ e, (f e).zoneEnd = e.zoneEnd)
    (hchip : ∀ e, (f e).chip = e.chip) : SameWindow p (q.mapEngine f) where
  windowAt_eq := (hwindow _).trans h.windowAt_eq
  zoneEnd_eq := (hend _).trans h.zoneEnd_eq
  chip_eq := (hchip _).trans h.chip_eq
  buffer_eq := h.buffer_eq

/-- The window of `p` is to be compared, with `n` attempts left. -/
structure Compares (p : Pipeline) (n : Nat) (q : Pipeline) : Prop
    extends SameWindow p q.opened where
  attempts_eq : q.opened.engine.attempts.toNat = n
  stage_eq : q.opened.engine.stage = .erasing
  length_eq : q.opened.engine.length = p.engine.windowLength
  offset_eq : q.opened.engine.offset = 0

/-- The pass over the window of `p` has written `i` pages, with `n` attempts left. -/
structure Passes (p : Pipeline) (n i : Nat) (q : Pipeline) : Prop extends SameWindow p q where
  attempts_eq : q.engine.attempts.toNat = n
  stage_eq : q.engine.stage = .programming
  due : q.engine.last.needsProgram = true
  length_eq : q.engine.length = p.engine.windowLength
  offset_eq : q.engine.offset = min p.engine.windowLength (pageSize * i)

/-- A tick finds the chip ready, in the state `s₁`. -/
structure Finds (cfg : Config) (board : Board σ) (view : Board.View σ) (q : Pipeline) (s s₁ : σ) :
    Prop where
  turn : ∃ q₀ s₀ status, Leads cfg board q s [] q₀ s₀ ∧ q₀.Attended ∧ q₀.opened = q.opened ∧
    (status &&& busyBit != 0) = false ∧ board.Plays s₀ (q.opened.greeting (.ok status)) s₁
  left : q.opened.engine.attempts ≠ 0
  flash_eq : view.flash s₁ = { view.flash s with selected := q.opened.engine.chip }
  idle : view.idle s₁

variable {view : Board.View σ} {stop : Address}

theorem Finds.ticks (h : Finds cfg board view q s s₁) (works : Works cfg q.opened t k r)
    (plays : board.Plays s₁ t s₂) :
    ∃ q₀ s₀ t', Leads cfg board q s [] q₀ s₀ ∧ Ticks cfg q₀ t' k r ∧ board.Plays s₀ t' s₂ ∧
      lasting t' = lasting t := by
  obtain ⟨q₀, s₀, status, leads, attended, hopened, ready, greets⟩ := h.turn
  have hleft := h.left
  rw [← hopened] at works greets hleft
  exact ⟨q₀, s₀, _, leads, .worked attended hleft ready works, greets.append plays,
    lasting_append _ _⟩

theorem Finds.leads (h : Finds cfg board view q s s₁) (works : Works cfg q.opened t k r)
    (plays : board.Plays s₁ t s₂) (unfinished : k.released = 0) :
    Leads cfg board q s (lasting t) r s₂ := by
  obtain ⟨q₀, s₀, t', leads, ticks, plays, hlasting⟩ := h.ticks works plays
  have htick := Leads.tick ticks plays unfinished (.refl r s₂)
  rw [hlasting, List.append_nil] at htick
  exact leads.trans htick

theorem Finds.concludes (h : Finds cfg board view q s s₁) (works : Works cfg q.opened t k r)
    (plays : board.Plays s₁ t s₂) (finished : k.released = 1) :
    Concludes cfg board q s (lasting t) k s₂ := by
  obtain ⟨q₀, s₀, t', leads, ticks, plays, hlasting⟩ := h.ticks works plays
  exact ⟨_, q₀, s₀, t', r, leads, ticks, plays, finished, hlasting.symm⟩

/-- However often the chip is found at work, some tick finds it ready. -/
theorem exists_finds (cfg : Config) (healthy : board.Healthy view stop) (attended : q.Attended)
    (left : q.opened.engine.attempts ≠ 0) (s : σ) :
    ∃ s₁, Finds cfg board.withReadback view q s s₁ := by
  induction hn : view.polls s using Nat.strong_induction_on generalizing q s with
  | _ n ih =>
    obtain ⟨s₁, hselect, hflash₁, hpolls⟩ := healthy.select s q.opened.engine.chip
    obtain ⟨status, s₂, hstatus, hflash₂, hafter⟩ := healthy.readStatus s₁
    have hgreets : board.withReadback.Plays s (q.opened.greeting (.ok status)) s₂ :=
      .cons hselect (.cons hstatus (.nil s₂))
    rw [hflash₁] at hflash₂
    by_cases hbusy : (status &&& busyBit != 0) = true
    · rw [if_pos hbusy] at hafter
      have hopened : q.opened.opened = q.opened := opened_of_not_idle q.stage_opened
      obtain ⟨s₃, hfinds⟩ := ih (view.polls s₂) (by omega) (q := q.opened) (.inl q.stage_opened)
        (by rw [hopened]; exact left) s₂ rfl
      obtain ⟨q₀, s₀, status', leads, attended', hq₀, ready, greets⟩ := hfinds.turn
      have hflash := hfinds.flash_eq
      rw [hopened] at hq₀ greets hflash
      rw [hflash₂] at hflash
      exact ⟨s₃, ⟨q₀, s₀, status', .tick (.busy attended left hbusy) hgreets rfl leads, attended',
        hq₀, ready, greets⟩, left, hflash, hfinds.idle⟩
    · rw [if_neg hbusy] at hafter
      exact ⟨s₂, ⟨q, s, status, .refl q s, attended, rfl, Bool.not_eq_true _ ▸ hbusy, hgreets⟩,
        left, hflash₂, hafter⟩

/-- A block waits to be written to the window, which starts at a sector of the zone. -/
structure Waits (p : Pipeline) (block : Bytes) : Prop where
  head : p.buffer.head? = some block
  full : block.length = blockSize
  aligned : p.engine.windowAt.toNat % 4096 = 0
  inside : p.engine.windowAt < p.engine.zoneEnd

def wanted (p : Pipeline) (block : Bytes) : Bytes := block.take p.engine.windowLength

/-- The first `i` pages of the window are written, and the others can be without an erase. -/
def Written (p : Pipeline) (block : Bytes) (i : Nat) (f : Flash) : Prop :=
  f.Takes p.engine.chip p.engine.windowAt.toNat (p.wanted block) (pageSize * i)

def stored (p : Pipeline) (f : Flash) : Bytes :=
  f.stored p.engine.chip p.engine.windowAt.toNat p.engine.windowLength

namespace Waits

variable {block : Bytes} (h : p.Waits block)

include h

theorem windowLength_le :
    p.engine.windowAt.toNat + p.engine.windowLength ≤ p.engine.zoneEnd.toNat := by
  have hinside := UInt32.lt_iff_toNat_lt.1 h.inside
  rw [Engine.windowLength, Address.toNat_subSat]
  omega

theorem windowLength_pos : 0 < p.engine.windowLength := by
  have hinside := UInt32.lt_iff_toNat_lt.1 h.inside
  rw [Engine.windowLength, Address.toNat_subSat, blockSize]
  omega

theorem length_wanted : (p.wanted block).length = p.engine.windowLength := by
  rw [wanted, List.length_take, h.full, Engine.windowLength]
  omega

theorem toNat_page {i : Nat} (hi : pageSize * i < p.engine.windowLength) :
    (p.engine.windowAt.page i).toNat = p.engine.windowAt.toNat + pageSize * i := by
  have hend := h.windowLength_le
  have hstop := Address.toNat_lt p.engine.zoneEnd
  exact Address.toNat_page (by omega)

theorem length_stored (f : Flash) : (p.wanted block).length = (p.stored f).length := by
  rw [h.length_wanted, stored, Flash.length_stored]

end Waits

/-! The turns of a window. -/

theorem Compares.erased {n : Nat} (h : Compares p n q) (o : Outcome) (erasedTo : Address) :
    Compares p (n - 1) ((q.opened.compared o).mapEngine fun e =>
      { e.spendAttempt with erasedTo := erasedTo }) := by
  have hcomparing : (q.opened.compared o).engine.stage = .erasing := h.stage_eq
  have hopened : ((q.opened.compared o).mapEngine fun e =>
      { e.spendAttempt with erasedTo := erasedTo }).opened =
      (q.opened.compared o).mapEngine fun e => { e.spendAttempt with erasedTo := erasedTo } := by
    refine opened_of_not_idle fun hidle => ?_
    cases hidle.symm.trans hcomparing
  have hcompared : SameWindow p (q.opened.compared o) :=
    h.toSameWindow.mapEngine (fun _ => rfl) (fun _ => rfl) (fun _ => rfl)
  have hattempts := q.opened.engine.toNat_attempts_spendAttempt
  rw [h.attempts_eq] at hattempts
  constructor
  all_goals rw [hopened]
  · exact hcompared.mapEngine (fun _ => rfl) (fun _ => rfl) (fun _ => rfl)
  · exact hattempts
  · exact hcomparing
  · exact h.length_eq
  · exact h.offset_eq

theorem Passes.ended {n i : Nat} (h : Passes p n i q) :
    Compares p (n - 1) (q.mapEngine .endAttempt) := by
  have hopened : (q.mapEngine .endAttempt).opened =
      (q.mapEngine .endAttempt).mapEngine .openWindow := if_pos rfl
  have hended : SameWindow p (q.mapEngine .endAttempt) :=
    h.toSameWindow.mapEngine (fun _ => rfl) (fun _ => rfl) (fun _ => rfl)
  have hattempts := q.engine.toNat_attempts_spendAttempt
  rw [h.attempts_eq] at hattempts
  constructor
  all_goals rw [hopened]
  · exact hended.mapEngine (fun _ => rfl) (fun _ => rfl) (fun _ => rfl)
  · exact hattempts
  · rfl
  · exact Engine.windowLength_congr hended.zoneEnd_eq hended.windowAt_eq
  · rfl

theorem Compares.cleared {n : Nat} (h : Compares p n q) {o : Outcome}
    (due : o.needsProgram = true) : Passes p n 0 (q.opened.compared o).cleared := by
  have hprogramming (erasedTo : Address) :
      Passes p n 0 ((q.opened.compared o).programming erasedTo) := by
    have hcompared : SameWindow p (q.opened.compared o) :=
      h.toSameWindow.mapEngine (fun _ => rfl) (fun _ => rfl) (fun _ => rfl)
    refine ⟨hcompared.mapEngine (fun _ => rfl) (fun _ => rfl) (fun _ => rfl), h.attempts_eq, rfl,
      due, h.length_eq, ?_⟩
    rw [Nat.mul_zero, Nat.min_zero]
    exact h.offset_eq
  rw [Pipeline.cleared]
  exact hprogramming _

section Turns

variable {n i : Nat} {block : Bytes} (healthy : board.Healthy view p.engine.zoneEnd)
  (waits : p.Waits block)

namespace Compares

variable (h : Compares p n q)

include h waits

theorem head : q.opened.buffer.head? = some block := by rw [h.buffer_eq, waits.head]

theorem attended : q.Attended := by
  refine .inr ?_
  rw [← q.buffer_opened, h.head waits]
  exact Option.some_ne_none block

omit h in
theorem abandons (h : Compares p 0 q) (s : σ) :
    ∃ s', Concludes cfg board q s [.reboot] .abandoned s' := by
  have hspent : q.opened.engine.attempts = 0 := UInt8.toNat_inj.1 h.attempts_eq
  exact ⟨_, _, q, s, _, _, .refl q s, .abandoned (h.attended waits) hspent, .cons rfl (.nil _), rfl,
    rfl⟩

include healthy

theorem finds (cfg : Config) (hn : n ≠ 0) (s : σ) :
    ∃ s₁, Finds cfg board.withReadback view q s s₁ := by
  refine exists_finds cfg healthy (h.attended waits) (fun hspent => hn ?_) s
  rw [← h.attempts_eq, hspent]
  rfl

theorem verify (finds : Finds cfg board.withReadback view q s s₁) :
    board.withReadback.Replies view s₁
      (.verify q.opened.engine.windowAt (block.take q.opened.engine.length))
      (.ok (classify (p.wanted block) (p.stored (view.flash s))))
      { view.flash s with selected := p.engine.chip } view.idle := by
  have hinside : p.engine.windowAt.toNat + (p.wanted block).length ≤ p.engine.zoneEnd.toNat := by
    rw [waits.length_wanted]
    exact waits.windowLength_le
  have hverify := healthy.toLegible.verify finds.idle hinside
  rw [waits.length_wanted, finds.flash_eq, h.chip_eq] at hverify
  rw [h.windowAt_eq, h.length_eq]
  exact hverify

theorem commits (hn : n ≠ 0) (s : σ) (hstored : p.stored (view.flash s) = p.wanted block) :
    ∃ s', Concludes cfg board.withReadback q s [] .committed s' ∧
      p.stored (view.flash s') = p.wanted block := by
  obtain ⟨s₁, hfinds⟩ := h.finds healthy waits cfg hn s
  obtain ⟨s₂, hverify, hflash, -⟩ := h.verify healthy waits hfinds
  rw [hstored] at hverify
  obtain ⟨hspared, hdone⟩ := classify_self (p.wanted block)
  have hworks : Works cfg q.opened _ .committed _ := .fresh h.stage_eq (h.head waits) hspared
    (.written (by rw [last_cleared]; exact hdone))
  refine ⟨s₂, hfinds.concludes hworks (.cons hverify (.nil s₂)) rfl, ?_⟩
  rw [hflash]
  exact hstored

theorem erases (cfg : Config) (hn : n ≠ 0) (s : σ)
    (hneed : (classify (p.wanted block) (p.stored (view.flash s))).needsErase = true) :
    ∃ q' s', Leads cfg board.withReadback q s
        [.erase p.engine.windowAt (p.engine.eraseUnit cfg.eraseUnit)] q' s' ∧
      Compares p (n - 1) q' ∧
      p.stored (view.flash s') = List.replicate p.engine.windowLength erasedByte := by
  obtain ⟨s₁, hfinds⟩ := h.finds healthy waits cfg hn s
  obtain ⟨s₂, hverify, hflash₂, hidle⟩ := h.verify healthy waits hfinds
  obtain ⟨s₃, henable, hflash₃, henabled⟩ := healthy.writeEnable hidle
  set o := classify (p.wanted block) (p.stored (view.flash s))
  have hunit : (q.opened.compared o).engine.eraseUnit cfg.eraseUnit =
      p.engine.eraseUnit cfg.eraseUnit := Engine.eraseUnit_congr h.windowAt_eq h.zoneEnd_eq _
  have hbase : (q.opened.compared o).eraseBase cfg = p.engine.windowAt := by
    have hwindow : (q.opened.compared o).engine.windowAt = p.engine.windowAt := h.windowAt_eq
    rw [eraseBase, hunit, hwindow]
    exact p.engine.baseOf_eraseUnit _ waits.aligned
  have hregion := p.engine.windowAt_mod_eraseUnit cfg.eraseUnit waits.aligned
  obtain ⟨s₄, herase, hflash₄, -⟩ := healthy.erase henabled hregion waits.inside
  have herases : Erases cfg (q.opened.compared o) _ .progress _ := .started
  rw [hunit, hbase] at herases
  have hworks := Works.stale h.stage_eq (h.head waits) hneed herases
  refine ⟨_, s₄, hfinds.leads hworks (.cons hverify (.cons henable (.cons herase (.nil s₄)))) rfl,
    ?_, ?_⟩
  · exact h.erased o (p.engine.windowAt + (p.engine.eraseUnit cfg.eraseUnit).size)
  · have hblock : p.engine.windowLength ≤ 4096 := Nat.min_le_left _ _
    have hsize := (p.engine.eraseUnit cfg.eraseUnit).size_eq
    rw [hflash₃, hflash₂] at hflash₄
    rw [hflash₄]
    exact Flash.stored_erased rfl _ (by omega)

end Compares

namespace Passes

variable (h : Passes p n i q)

include h

theorem offset_of_lt (hi : pageSize * i < p.engine.windowLength) :
    q.engine.offset = pageSize * i := by
  rw [h.offset_eq]
  omega

theorem pageAt_eq (hi : pageSize * i < p.engine.windowLength) :
    q.engine.pageAt = p.engine.windowAt.page i := by
  rw [Engine.pageAt, h.windowAt_eq, h.offset_of_lt hi, Address.page]

include waits

/-- Windows start at pages, so no page is cut short by its end but the last. -/
theorem pageLength_eq (hi : pageSize * i < p.engine.windowLength) :
    q.engine.pageLength = min pageSize (p.engine.windowLength - pageSize * i) := by
  have haligned := waits.aligned
  rw [Engine.pageLength, h.pageAt_eq hi, waits.toNat_page hi, h.length_eq, h.offset_of_lt hi,
    pageSize]
  omega

theorem pageBytes_eq (hi : pageSize * i < p.engine.windowLength) :
    (block.drop q.engine.offset).take q.engine.pageLength =
      ((p.wanted block).drop (pageSize * i)).take pageSize := by
  rw [h.offset_of_lt hi, h.pageLength_eq waits hi, wanted, List.drop_take, List.take_take]

include healthy

theorem page (hi : pageSize * i < p.engine.windowLength) (idle : view.idle s)
    (hchip : (view.flash s).selected = p.engine.chip)
    (hwritten : p.Written block i (view.flash s)) :
    ∃ t q' s', Writes cfg q t .progress q' ∧ board.withReadback.Plays s t s' ∧
      lasting t = [.program (p.engine.windowAt.page i)
        (((p.wanted block).drop (pageSize * i)).take pageSize)] ∧
      Passes p n (i + 1) q' ∧ p.Written block (i + 1) (view.flash s') := by
  have hend := waits.windowLength_le
  have haligned := waits.aligned
  have hnat := waits.toNat_page hi
  have hpart : q.engine.offset ≠ q.engine.length := by
    rw [h.offset_of_lt hi, h.length_eq]
    omega
  have hhead : q.buffer.head? = some block := by rw [h.buffer_eq, waits.head]
  have hfits : (((p.wanted block).drop (pageSize * i)).take pageSize).length ≤
      min pageSize (p.engine.windowLength - pageSize * i) := by
    rw [List.length_take, List.length_drop, waits.length_wanted]
  have hstart : (p.engine.windowAt.page i).toNat % pageSize = 0 := by
    rw [hnat, pageSize]
    omega
  have hpaged : (p.engine.windowAt.page i).toNat % pageSize +
      (((p.wanted block).drop (pageSize * i)).take pageSize).length ≤ pageSize := by omega
  obtain ⟨s₁, henable, hflash₁, henabled⟩ := healthy.writeEnable idle
  obtain ⟨s₂, hprogram, hflash₂, -⟩ := healthy.program henabled hpaged (by omega)
  have hstarted : Programs q block _ .progress _ := .started
  rw [h.pageBytes_eq waits hi, h.pageAt_eq hi] at hstarted
  refine ⟨_, _, s₂, .page h.due hpart hhead hstarted,
    .cons henable (.cons hprogram (.nil s₂)), rfl, ?_, ?_⟩
  · refine ⟨h.toSameWindow.mapEngine (fun _ => rfl) (fun _ => rfl) (fun _ => rfl), h.attempts_eq,
      h.stage_eq, h.due, h.length_eq, ?_⟩
    change q.engine.offset + q.engine.pageLength = _
    rw [h.offset_of_lt hi, h.pageLength_eq waits hi, Nat.mul_succ]
    omega
  · rw [Written, hflash₂, hflash₁, Nat.mul_succ]
    exact hwritten.programmed hchip hnat pageSize

omit waits in
theorem finds (cfg : Config) (hn : n ≠ 0) (s : σ) :
    ∃ s₁, Finds cfg board.withReadback view q s s₁ := by
  have hstage : q.engine.stage ≠ .idle := by simp [h.stage_eq]
  refine exists_finds cfg healthy (.inl hstage) (fun hspent => hn ?_) s
  rw [opened_of_not_idle hstage] at hspent
  rw [← h.attempts_eq, hspent]
  rfl

omit healthy waits in
theorem works {t : List Exchange} {k : Tick} {r : Pipeline} (writes : Writes cfg q t k r) :
    Works cfg q.opened t k r := by
  have hopened : q.opened = q := opened_of_not_idle (by simp [h.stage_eq])
  rw [hopened]
  exact .resumed (by simp [h.stage_eq]) writes

omit healthy waits in
theorem flash_eq (finds : Finds cfg board view q s s₁) :
    view.flash s₁ = { view.flash s with selected := p.engine.chip } := by
  have hopened : q.opened = q := opened_of_not_idle (by simp [h.stage_eq])
  have hflash := finds.flash_eq
  rwa [hopened, h.chip_eq] at hflash

theorem proceeds (hn : n ≠ 0) (s : σ) (hi : pageSize * i < p.engine.windowLength)
    (hwritten : p.Written block i (view.flash s)) :
    ∃ q' s', Leads cfg board.withReadback q s [.program (p.engine.windowAt.page i)
        (((p.wanted block).drop (pageSize * i)).take pageSize)] q' s' ∧
      Passes p n (i + 1) q' ∧ p.Written block (i + 1) (view.flash s') := by
  obtain ⟨s₁, hfinds⟩ := h.finds healthy cfg hn s
  have hflash := h.flash_eq hfinds
  have hwritten₁ : p.Written block i (view.flash s₁) := by
    rw [hflash]
    exact ⟨hwritten.written, hwritten.clearable⟩
  obtain ⟨t, q', s', hwrites, hplays, hlasting, hpasses, hwritten'⟩ :=
    h.page healthy waits hi hfinds.idle (by rw [hflash]) hwritten₁
  have hleads := hfinds.leads (h.works hwrites) hplays rfl
  rw [hlasting] at hleads
  exact ⟨q', s', hleads, hpasses, hwritten'⟩

theorem ends (hn : n ≠ 0) (s : σ) (hi : p.engine.windowLength ≤ pageSize * i)
    (hwritten : p.Written block i (view.flash s)) :
    ∃ q' s', Leads cfg board.withReadback q s [] q' s' ∧ Compares p (n - 1) q' ∧
      p.stored (view.flash s') = p.wanted block := by
  obtain ⟨s₁, hfinds⟩ := h.finds healthy cfg hn s
  have hall : q.engine.offset = q.engine.length := by
    rw [h.offset_eq, h.length_eq]
    omega
  have hstored := hwritten.stored_eq (by rw [waits.length_wanted]; exact hi)
  rw [waits.length_wanted] at hstored
  refine ⟨_, s₁, hfinds.leads (h.works (.passed h.due hall)) (.nil s₁) rfl, h.ended, ?_⟩
  rw [h.flash_eq hfinds]
  exact hstored

/-- The rest of a pass writes the window, which is compared again then. -/
theorem compares (hn : n ≠ 0) (s : σ) (hwritten : p.Written block i (view.flash s)) :
    ∃ q' s', Leads cfg board.withReadback q s
        (Command.pages (p.engine.windowAt.page i) ((p.wanted block).drop (pageSize * i))) q' s' ∧
      Compares p (n - 1) q' ∧ p.stored (view.flash s') = p.wanted block := by
  induction hm : p.engine.windowLength - pageSize * i using Nat.strong_induction_on
    generalizing i q s with
  | _ m ih =>
    by_cases hi : pageSize * i < p.engine.windowLength
    · obtain ⟨q₁, s₁, hpage, hpasses, hwritten₁⟩ := h.proceeds healthy waits hn s hi hwritten
      have hless : p.engine.windowLength - pageSize * (i + 1) < m := by
        rw [pageSize] at hi hm ⊢
        omega
      obtain ⟨q', s', hrest, hcompares⟩ := ih _ hless hpasses s₁ hwritten₁ rfl
      rw [← waits.length_wanted] at hi
      rw [Command.pages_drop _ hi]
      exact ⟨q', s', hpage.trans hrest, hcompares⟩
    · rw [Nat.not_lt] at hi
      have hdone : (p.wanted block).drop (pageSize * i) = [] :=
        List.drop_eq_nil_of_le (by rw [waits.length_wanted]; exact hi)
      rw [hdone, Command.pages_nil]
      exact h.ends healthy waits hn s hi hwritten

end Passes

include healthy waits

/-- A window that needs no erase is programmed and compared again. -/
theorem Compares.programs (h : Compares p n q) (hn : n ≠ 0) (s : σ)
    (hspared : (classify (p.wanted block) (p.stored (view.flash s))).needsErase = false)
    (hdue : (classify (p.wanted block) (p.stored (view.flash s))).needsProgram = true) :
    ∃ q' s', Leads cfg board.withReadback q s
        (Command.pages p.engine.windowAt (p.wanted block)) q' s' ∧
      Compares p (n - 1) q' ∧ p.stored (view.flash s') = p.wanted block := by
  obtain ⟨s₁, hfinds⟩ := h.finds healthy waits cfg hn s
  obtain ⟨s₂, hverify, hflash₂, hidle⟩ := h.verify healthy waits hfinds
  have hwritten : p.Written block 0 (view.flash s₂) := by
    refine Flash.takes_zero ?_
    rw [hflash₂, waits.length_wanted]
    exact hspared
  -- the tick that compares the window also gives the first page command
  have hpos : pageSize * 0 < p.engine.windowLength := waits.windowLength_pos
  obtain ⟨t, q₁, s₃, hwrites, hplays, hlasting, hpasses, hwritten₃⟩ :=
    (h.cleared hdue).page healthy waits hpos hidle (by rw [hflash₂]) hwritten
  have hworks := Works.fresh h.stage_eq (h.head waits) hspared hwrites
  have hfirst := hfinds.leads hworks (.cons hverify hplays) rfl
  change Leads cfg board.withReadback q s (lasting t) q₁ s₃ at hfirst
  obtain ⟨q', s', hrest, hcompares⟩ := hpasses.compares healthy waits hn s₃ hwritten₃
  rw [← waits.length_wanted] at hpos
  have hpages := Command.pages_drop p.engine.windowAt hpos
  rw [Address.page_zero, Nat.mul_zero, List.drop_zero] at hpages
  rw [hlasting, Address.page_zero, Nat.mul_zero, List.drop_zero] at hfirst
  rw [hpages]
  exact ⟨q', s', hfirst.trans hrest, hcompares⟩

end Turns

end Pipeline

end DfuLoader
