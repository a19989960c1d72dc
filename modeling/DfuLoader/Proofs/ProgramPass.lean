import DfuLoader.Proofs.BusDiscipline

/-!
# A program pass

A window is programmed page by page, one page command a tick, and between two of them the
chip may be at work for a while and the host may go on. The pages are cut by their
addresses, but the pass counts from the start of the window, wherever that lies in its
page. A pass that no fault ends programs the whole window all the same
(`pass_programsWindow`): what holds of the pages so far (`PagesTo`) is kept by every tick
of the pass (`Passing.writes`).
-/

namespace DfuLoader

open Dialogue

def Exchange.outcome? : Exchange → Option Outcome
  | ⟨.verify _ _, .ok outcome⟩ => some outcome
  | _ => none

structure Page where
  start : Address
  bytes : Bytes
  deriving DecidableEq, Repr

namespace Page

def span (page : Page) : Span := ⟨page.start.toNat, page.bytes.length⟩

def stop (page : Page) : Nat := page.start.toNat + page.bytes.length

end Page

def Command.page? : Command → Option Page
  | .program start bytes => some ⟨start, bytes⟩
  | _ => none

def pagesOf (t : List Exchange) : List Page := t.filterMap fun e => e.command.page?

theorem pagesOf_append (t t' : List Exchange) : pagesOf (t ++ t') = pagesOf t ++ pagesOf t' :=
  List.filterMap_append

/-- Pages that make up the first bytes of a window, up to an offset. Each is cut off at the
end of its page or of the window. -/
structure PagesTo (start length : Nat) (block : Bytes) (offset : Nat) (pages : List Page) :
    Prop where
  tile : Span.Tile start (pages.map Page.span) (start + offset)
  bytes_eq : (pages.map Page.bytes).flatten = block.take offset
  in_page : ∀ page ∈ pages,
    0 < page.bytes.length ∧ page.start.toNat % 256 + page.bytes.length ≤ 256
  cut : ∀ page ∈ pages, page.stop % 256 = 0 ∨ page.stop = start + length

namespace PagesTo

variable {start length offset : Nat} {block : Bytes} {pages : List Page}

theorem nil (start length : Nat) (block : Bytes) : PagesTo start length block 0 [] where
  tile := rfl
  bytes_eq := by rw [List.take_zero]; rfl
  in_page := List.forall_mem_nil _
  cut := List.forall_mem_nil _

theorem append (h : PagesTo start length block offset pages) (hpart : offset < length)
    (hlength : length ≤ block.length) {pageAt : Address} {count : Nat} {bytes : Bytes}
    (hstart : pageAt.toNat = start + offset)
    (hcount : count = min (length - offset) (256 - pageAt.toNat % 256))
    (hbytes : bytes = (block.drop offset).take count) :
    PagesTo start length block (offset + count) (pages ++ [⟨pageAt, bytes⟩]) := by
  have hsize : bytes.length = count := by
    rw [hbytes, List.length_take, List.length_drop]
    omega
  refine ⟨?_, ?_, ?_, ?_⟩
  · have htile := h.tile.append_singleton (s := Page.span ⟨pageAt, bytes⟩) hstart
    rw [List.map_append, ← Nat.add_assoc, ← hsize]
    exact htile
  · rw [List.map_append, List.flatten_append, h.bytes_eq, List.take_add, ← hbytes]
    simp
  · refine List.forall_mem_append.2 ⟨h.in_page, List.forall_mem_singleton.2 ?_⟩
    change 0 < bytes.length ∧ pageAt.toNat % 256 + bytes.length ≤ 256
    omega
  · refine List.forall_mem_append.2 ⟨h.cut, List.forall_mem_singleton.2 ?_⟩
    change (pageAt.toNat + bytes.length) % 256 = 0 ∨ pageAt.toNat + bytes.length = start + length
    omega

theorem length_eq (h : PagesTo start length block length pages) {i : Nat} (hpos : 0 < i)
    (hi : i + 1 < pages.length) : pages[i].bytes.length = 256 := by
  obtain ⟨j, rfl⟩ := Nat.exists_eq_add_one.2 hpos
  have hmap : j + 1 + 1 < (pages.map Page.span).length := by rwa [List.length_map]
  have hbefore := h.tile.start_succ (i := j) (by omega)
  have hbehind := h.tile.start_succ hmap
  simp only [List.getElem_map, Page.span] at hbefore hbehind
  -- neither the page before nor this one ends with the window
  have hlast := (h.tile.between (List.getElem_mem hmap)).2
  simp only [List.getElem_map, Page.span] at hlast
  have hlastPos := (h.in_page _ (List.getElem_mem hi)).1
  obtain ⟨hpos, hin⟩ := h.in_page _ (List.getElem_mem (Nat.lt_of_succ_lt hi))
  have hcutBefore := h.cut _ (List.getElem_mem (show j < pages.length by omega))
  have hcut := h.cut _ (List.getElem_mem (Nat.lt_of_succ_lt hi))
  rw [Page.stop] at hcutBefore hcut
  omega

end PagesTo

/-- Pages that program a window: they cover each of its addresses once, in order, with the
bytes of the block, and all but the first and the last are whole pages. -/
structure ProgramsWindow (start length : Nat) (block : Bytes) (pages : List Page) : Prop where
  covering : Span.Covering start (start + length) (pages.map Page.span)
  in_page : ∀ page ∈ pages,
    0 < page.bytes.length ∧ page.start.toNat % 256 + page.bytes.length ≤ 256
  whole : ∀ (i : Nat) (hi : i + 1 < pages.length), 0 < i → pages[i].bytes.length = 256
  length_le : pages.length ≤ 17
  bytes_eq : (pages.map Page.bytes).flatten = block.take length

theorem PagesTo.programsWindow {start length : Nat} {block : Bytes} {pages : List Page}
    (h : PagesTo start length block length pages) (hlength : pages.length ≤ 17) :
    ProgramsWindow start length block pages where
  covering := h.tile.covering
  in_page := h.in_page
  whole _ hi hpos := h.length_eq hpos hi
  length_le := hlength
  bytes_eq := h.bytes_eq

namespace Pipeline

/-- A program pass with its exchanges so far. It begins with a tick whose comparison finds
that the window is to be programmed, and goes on until a tick finds that nothing is left
of it. No primitive fails, and nobody takes the block out of the buffer. -/
inductive Pass (cfg : Config) (p : Pipeline) : List Exchange → Pipeline → Prop
  | first {t : List Exchange} {k : Tick} {q : Pipeline} (ends : Ends (p.tick cfg) t (k, q))
      (unfailed : ∀ e ∈ t, e.fault? = none) (due : ∃ e ∈ t, e.outcome? = some .program) :
      Pass cfg p t q
  | tick {t t' : List Exchange} {k : Tick} {r q : Pipeline} (pass : Pass cfg p t r)
      (unfinished : r.engine.stage = .programming) (ends : Ends (r.tick cfg) t' (k, q))
      (unfailed : ∀ e ∈ t', e.fault? = none) : Pass cfg p (t ++ t') q
  | operate {t : List Exchange} {r : Pipeline} (pass : Pass cfg p t r)
      {op : BlockRing.Operation} (keeps : op.KeepsHead) :
      Pass cfg p t { r with buffer := (r.buffer.perform op).2 }
  | host {t : List Exchange} {r : Pipeline} (pass : Pass cfg p t r)
      (receiveAt readAt : Address) :
      Pass cfg p t (r.mapEngine fun e => { e with receiveAt := receiveAt, readAt := readAt })

/-- The pass over the window of a pipeline has got to another one, having programmed some
pages of the block. -/
structure Passing (p : Pipeline) (block : Bytes) (r : Pipeline) (pages : List Page) : Prop where
  steady : ∃ z m, r.engine.Steady z m
  standsFor : ∃ queue, r.buffer.StandsFor queue
  stage_eq : r.engine.stage = .programming
  left : r.engine.attempts ≠ 0
  head : r.buffer.head? = some block
  windowAt_eq : r.engine.windowAt = p.engine.windowAt
  length_eq : r.engine.length = p.engine.windowLength
  pagesTo : PagesTo p.engine.windowAt.toNat p.engine.windowLength block r.engine.offset pages
  length_le : pages.length + r.engine.pagesLeft ≤ 17

def PassingOr (p : Pipeline) (block : Bytes) (q : Pipeline) (pages : List Page) : Prop :=
  p.Passing block q pages ∨ q.engine.stage ≠ .programming ∧ pages.length ≤ 17 ∧
    PagesTo p.engine.windowAt.toNat p.engine.windowLength block p.engine.windowLength pages

variable {cfg : Config} {p q r : Pipeline} {t : List Exchange} {k : Tick} {block : Bytes}
  {pages : List Page}

theorem Passing.page (h : p.Passing block r pages) (part : r.engine.offset ≠ r.engine.length) :
    p.Passing block
      (r.mapEngine fun e => { e with offset := e.offset + r.engine.pageLength })
      (pages ++ [⟨r.engine.pageAt, (block.drop r.engine.offset).take r.engine.pageLength⟩]) := by
  obtain ⟨z, m, hsteady⟩ := h.steady
  obtain ⟨queue, hqueue⟩ := h.standsFor
  have hopen : r.engine.stage ≠ .idle := by simp [h.stage_eq]
  have hpart : r.engine.offset < r.engine.length := lt_of_le_of_ne (hsteady.offset_le hopen) part
  have hpage := hsteady.pageAt_eq hopen
  have hleft := Engine.pagesLeft_page hpage hpart
  have hblock : block.length = blockSize := by
    refine hqueue.length_block block (List.mem_of_head? ?_)
    rw [BlockRing.head?_queue, h.head]
  have hlength : r.engine.pageLength = min (p.engine.windowLength - r.engine.offset)
      (256 - r.engine.pageAt.toNat % 256) := by
    rw [← h.length_eq]
    rfl
  rw [h.windowAt_eq] at hpage
  rw [h.length_eq] at hpart
  have programs : Programs r block _ .progress _ := .started
  refine ⟨⟨z, m, programs.steady hsteady h.stage_eq⟩, ⟨queue, hqueue⟩,
    h.stage_eq, h.left, h.head, h.windowAt_eq, h.length_eq,
    h.pagesTo.append hpart (p.engine.windowLength_le_length hblock) hpage hlength rfl, ?_⟩
  have hcount := h.length_le
  rw [List.length_append, engine_mapEngine]
  change pages.length + 1 + _ ≤ 17
  omega

theorem Passing.writes (h : p.Passing block r pages) (writes : Writes cfg r t k q)
    (unfailed : ∀ e ∈ t, e.fault? = none) : p.PassingOr block q (pages ++ pagesOf t) := by
  obtain ⟨z, m, hsteady⟩ := h.steady
  cases writes with
  | written done =>
      rw [hsteady.last_eq h.stage_eq] at done
      cases done
  | passed due all =>
      refine .inr ⟨(fun hn => by cases hn), ?_⟩
      rw [pagesOf, List.filterMap_nil, List.append_nil]
      have hpages := h.pagesTo
      rw [all, h.length_eq] at hpages
      exact ⟨(Nat.le_add_right _ _).trans h.length_le, hpages⟩
  | starved due part empty => exact absurd (h.head.symm.trans empty) (by simp)
  | page due part head programs =>
      cases h.head.symm.trans head
      cases programs with
      | locked fault => exact absurd (unfailed _ (.head _)) (by simp [Exchange.fault?])
      | refused fault => exact absurd (unfailed _ (.tail _ (.head _))) (by simp [Exchange.fault?])
      | started => exact .inl (h.page part)

theorem Passing.tick (h : p.Passing block r pages) (ticks : Ticks cfg r t k q)
    (unfailed : ∀ e ∈ t, e.fault? = none) : p.PassingOr block q (pages ++ pagesOf t) := by
  have hopen : r.engine.stage ≠ .idle := by simp [h.stage_eq]
  have hopened := opened_of_not_idle hopen
  cases ticks with
  | resting stage _ => exact absurd stage hopen
  | abandoned _ spent =>
      rw [hopened] at spent
      exact absurd spent h.left
  | unanswered _ _ fault =>
      exact absurd (unfailed _ (.tail _ (.head _))) (by simp [Exchange.fault?])
  | busy _ _ _ =>
      rw [hopened]
      refine .inl ?_
      rwa [show pagesOf (r.greeting _) = [] from rfl, List.append_nil]
  | worked _ _ _ works =>
      rw [hopened] at works unfailed ⊢
      rw [pagesOf_append, show pagesOf (r.greeting _) = [] from rfl, List.nil_append]
      cases works with
      | resumed _ writes =>
          exact h.writes writes fun e he => unfailed e (List.mem_append_right _ he)
      | starved stage _ | unread stage _ _ | stale stage _ _ _ | fresh stage _ _ _ =>
          exact absurd (h.stage_eq.symm.trans stage) (by simp)

/-! The tick that begins a pass. -/

theorem Writes.outcome?_eq_none (h : Writes cfg p t k q) : ∀ e ∈ t, e.outcome? = none := by
  cases h with
  | page due part head programs => cases programs <;> simp [Exchange.outcome?]
  | written _ | passed _ _ | starved _ _ _ => exact List.forall_mem_nil _

theorem Erases.outcome?_eq_none (h : Erases cfg p t k q) : ∀ e ∈ t, e.outcome? = none := by
  cases h <;> simp [Exchange.outcome?]

/-- A comparison that asks for programming only is followed by that in the same tick. -/
theorem Works.of_due (h : Works cfg p t k q) (due : ∃ e ∈ t, e.outcome? = some .program) :
    p.engine.stage = .erasing ∧ ∃ block t', p.buffer.head? = some block ∧
      t = ⟨.verify p.engine.windowAt (block.take p.engine.length), .ok .program⟩ :: t' ∧
      Writes cfg (p.compared .program).cleared t' k q := by
  obtain ⟨e, he, houtcome⟩ := due
  cases h with
  | starved _ _ => cases he
  | unread _ _ _ =>
      rw [List.mem_singleton.1 he] at houtcome
      cases houtcome
  | stale _ _ needed erases =>
      rcases List.mem_cons.1 he with rfl | he
      · cases houtcome
        cases needed
      · rw [erases.outcome?_eq_none e he] at houtcome
        cases houtcome
  | fresh stage head _ writes =>
      rcases List.mem_cons.1 he with rfl | he
      · cases houtcome
        exact ⟨stage, _, _, head, rfl, writes⟩
      · rw [writes.outcome?_eq_none e he] at houtcome
        cases houtcome
  | resumed _ writes =>
      rw [writes.outcome?_eq_none e he] at houtcome
      cases houtcome

/-- The state in which the tick that begins a pass has compared its window. -/
theorem Reached.passing (hp : Reached cfg p) (hstage : p.opened.engine.stage = .erasing)
    (left : p.opened.engine.attempts ≠ 0) (head : p.buffer.head? = some block) :
    p.Passing block (p.opened.compared .program).cleared [] := by
  obtain ⟨z, m, hsteady⟩ := hp.steady
  obtain ⟨queue, hqueue⟩ := hp.standsFor
  obtain ⟨hopened, hopen⟩ := steady_opened hsteady
  have hplaced := placed_cleared (placed_compared hopened.toPlaced .program) hopen
  have hbuffer : (p.opened.compared .program).cleared.buffer = p.buffer :=
    (buffer_cleared _).trans (buffer_opened p)
  refine ⟨⟨z, m, hplaced, fun _ => last_cleared _⟩, ⟨queue, ?_⟩, stage_cleared _,
    ?_, ?_, ?_, ?_, ?_, ?_⟩
  · rwa [hbuffer]
  · rwa [attempts_cleared]
  · rwa [hbuffer]
  · exact (windowAt_cleared _).trans p.window_opened.1
  · exact (length_cleared _).trans (length_opened hsteady)
  · have hoffset : (p.opened.compared .program).cleared.engine.offset = 0 :=
      (offset_cleared _).trans (offset_opened hp.offset_of_erasing hstage)
    rw [hoffset]
    exact .nil _ _ _
  · rw [List.length_nil, Nat.zero_add]
    exact Engine.pagesLeft_le (hplaced.length_le (by simp [stage_cleared]))

theorem passing_first (hp : Reached cfg p) (ticks : Ticks cfg p t k q)
    (unfailed : ∀ e ∈ t, e.fault? = none) (due : ∃ e ∈ t, e.outcome? = some .program) :
    ∃ block, p.buffer.head? = some block ∧ p.PassingOr block q (pagesOf t) := by
  have hgreeting (status : Except Fault UInt8) :
      ∀ e ∈ p.opened.greeting status, e.outcome? = none := by simp [greeting, Exchange.outcome?]
  obtain ⟨e, he, houtcome⟩ := due
  cases ticks with
  | resting _ _ => cases he
  | abandoned _ _ =>
      rw [List.mem_singleton.1 he] at houtcome
      cases houtcome
  | unanswered _ _ _ | busy _ _ _ =>
      rw [hgreeting _ e he] at houtcome
      cases houtcome
  | worked _ left _ works =>
      have he := (List.mem_append.1 he).resolve_left fun he => by
        rw [hgreeting _ e he] at houtcome
        cases houtcome
      obtain ⟨hstage, block, t', hhead, rfl, writes⟩ := works.of_due ⟨e, he, houtcome⟩
      rw [buffer_opened] at hhead
      refine ⟨block, hhead, (hp.passing hstage left hhead).writes writes fun e he => ?_⟩
      exact unfailed e (List.mem_append_right _ (List.mem_cons_of_mem _ he))

/-- What has been programmed of the window at any moment of a pass. -/
theorem Pass.passingOr (hp : Reached cfg p) (h : Pass cfg p t q) :
    ∃ block, p.buffer.head? = some block ∧ p.PassingOr block q (pagesOf t) := by
  induction h with
  | first ends unfailed due => exact passing_first hp (ends_tick.1 ends) unfailed due
  | tick _ unfinished ends unfailed ih =>
      obtain ⟨block, hhead, hpassing⟩ := ih
      refine ⟨block, hhead, ?_⟩
      rw [pagesOf_append]
      rcases hpassing with hpassing | hover
      · exact hpassing.tick (ends_tick.1 ends) unfailed
      · exact absurd unfinished hover.1
  | @operate _ r _ op keeps ih =>
      obtain ⟨block, hhead, hpassing⟩ := ih
      refine ⟨block, hhead, ?_⟩
      rcases hpassing with hpassing | hover
      · obtain ⟨queue, hqueue⟩ := hpassing.standsFor
        have hstands := (hqueue.perform op).2
        have hhead : queue.blocks.head? = some block := hqueue.shows.head?_eq ▸ hpassing.head
        have hkept : (queue.perform op).2.blocks.head? = some block := by
          obtain ⟨more, hmore⟩ := BlockQueue.blocks_perform (q := queue) keeps
          rw [hmore, List.head?_append, hhead, Option.some_or]
        exact .inl { hpassing with
          standsFor := ⟨_, hstands⟩
          head := hstands.shows.head?_eq.trans hkept }
      · exact .inr hover
  | host _ receiveAt readAt ih =>
      obtain ⟨block, hhead, hpassing⟩ := ih
      refine ⟨block, hhead, ?_⟩
      rcases hpassing with hpassing | hover
      · obtain ⟨z, m, hsteady⟩ := hpassing.steady
        exact .inl { hpassing with
          steady := ⟨z, m, (hsteady.withReceiveAt receiveAt).withReadAt readAt⟩ }
      · exact .inr hover

/-- A pass that has come to its end has programmed the window. -/
theorem pass_programsWindow (hp : Reached cfg p) (h : Pass cfg p t q)
    (ended : q.engine.stage ≠ .programming) :
    ∃ block, p.buffer.head? = some block ∧
      ProgramsWindow p.engine.windowAt.toNat p.engine.windowLength block (pagesOf t) := by
  obtain ⟨block, hhead, hpassing | ⟨-, hlength, hpages⟩⟩ := h.passingOr hp
  · exact absurd hpassing.stage_eq ended
  · exact ⟨block, hhead, hpages.programsWindow hlength⟩

/-! A pass comes to an end if the chip is ready often enough. -/

theorem Passing.exists_writes (h : p.Passing block r pages) (cfg : Config) :
    ∃ t k q, Writes cfg r t k q ∧ (∀ e ∈ t, e.fault? = none) ∧
      (q.engine.stage = .programming → (pagesOf t).length = 1) := by
  obtain ⟨z, m, hsteady⟩ := h.steady
  have hdue : r.engine.last.needsProgram = true := by
    rw [hsteady.last_eq h.stage_eq]
    rfl
  by_cases hall : r.engine.offset = r.engine.length
  · exact ⟨_, _, _, .passed hdue hall, List.forall_mem_nil _, (fun hstage => by cases hstage)⟩
  · exact ⟨_, _, _, .page hdue hall h.head .started, by simp [Exchange.fault?], fun _ => rfl⟩

/-- A tick that finds the chip ready programs the next page, or finds the pass over. -/
theorem Passing.exists_tick (h : p.Passing block r pages) (pass : Pass cfg p t r) :
    ∃ t' q, Pass cfg p t' q ∧ (q.engine.stage ≠ .programming ∨
      ∃ pages', pages'.length = pages.length + 1 ∧ p.Passing block q pages') := by
  obtain ⟨t', k, q, writes, unfailed, hone⟩ := h.exists_writes cfg
  have hopen : r.engine.stage ≠ .idle := by simp [h.stage_eq]
  have hopened := opened_of_not_idle hopen
  have ticks : Ticks cfg r (r.opened.greeting (.ok 0) ++ t') k q :=
    ticks_of_works (.inl hopen) h.left
      (.resumed (by rw [hopened]; simp [h.stage_eq]) (by rwa [hopened]))
  have hgreeting : ∀ e ∈ r.opened.greeting (.ok 0), e.fault? = none := by
    simp [greeting, Exchange.fault?]
  refine ⟨_, q, pass.tick h.stage_eq (ends_tick.2 ticks)
    (List.forall_mem_append.2 ⟨hgreeting, unfailed⟩), ?_⟩
  rcases h.writes writes unfailed with hpassing | ⟨hover, -⟩
  · exact .inr ⟨_, by rw [List.length_append, hone hpassing.stage_eq], hpassing⟩
  · exact .inl hover

theorem Passing.exists_over (h : p.Passing block r pages) (pass : Pass cfg p t r) :
    ∃ t q, Pass cfg p t q ∧ q.engine.stage ≠ .programming := by
  generalize hgap : 17 - pages.length = gap
  induction gap generalizing r pages t with
  | zero =>
      obtain ⟨t', q, pass, hover | ⟨pages', hlength, hpassing⟩⟩ := h.exists_tick pass
      · exact ⟨t', q, pass, hover⟩
      · have hle := hpassing.length_le
        omega
  | succ gap ih =>
      obtain ⟨t', q, pass, hover | ⟨pages', hlength, hpassing⟩⟩ := h.exists_tick pass
      · exact ⟨t', q, pass, hover⟩
      · exact ih hpassing pass (by omega)

/-- Whatever window is at the head of the queue, some chip lets a pass over it come to its
end. -/
theorem exists_pass_over (hp : Reached cfg p) (hstage : p.engine.stage = .idle)
    (left : p.engine.attempts ≠ 0) (hhead : p.buffer.head? ≠ none) :
    ∃ t q, Pass cfg p t q ∧ q.engine.stage ≠ .programming := by
  obtain ⟨block, head⟩ := Option.ne_none_iff_exists'.1 hhead
  have herasing := stage_opened_of_idle hstage
  have hbegun := hp.passing herasing ((attempts_opened p).symm ▸ left) head
  obtain ⟨t, k, q, writes, unfailed, -⟩ := hbegun.exists_writes cfg
  have ticks : Ticks cfg p _ k q :=
    ticks_of_works (.inr hhead) left (.fresh herasing (by rwa [buffer_opened]) rfl writes)
  have hunfailed : ∀ e ∈ p.opened.greeting (.ok 0) ++ ⟨.verify p.opened.engine.windowAt
      (block.take p.opened.engine.length), .ok .program⟩ :: t, e.fault? = none := by
    refine List.forall_mem_append.2 ⟨by simp [greeting, Exchange.fault?],
      List.forall_mem_cons.2 ⟨rfl, unfailed⟩⟩
  have hpass : Pass cfg p _ q := .first (ends_tick.2 ticks) hunfailed
    ⟨_, List.mem_append_right _ List.mem_cons_self, rfl⟩
  rcases hbegun.writes writes unfailed with hpassing | ⟨hover, -⟩
  · exact hpassing.exists_over hpass
  · exact ⟨_, q, hpass, hover⟩

/-- A window of `0x120` bytes that begins and ends in the middle of a page. -/
theorem pass_programsWindow_unaligned :
    ∃ (p q : Pipeline) (t : List Exchange) (block : Bytes), Reached {} p ∧ Pass {} p t q ∧
      q.engine.stage ≠ .programming ∧ p.buffer.head? = some block ∧
      ProgramsWindow 0x1f0 0x120 block (pagesOf t) := by
  let zone : Zone := ⟨.internal, 0x1f0, 0x310, "unaligned"⟩
  let loaded : Pipeline := Pipeline.mapEngine ⟨.unloaded 4, .empty⟩ fun _ => .loaded zone 4
  let p : Pipeline := { loaded with buffer := (loaded.buffer.perform (.pushBlock [0x42])).2 }
  have hp : Reached {} p := ((Reached.unloaded 4).load zone 4).operate (.pushBlock [0x42])
  have hhead : p.buffer.head? ≠ none := by
    rw [BlockRing.head?_ne_none_iff]
    decide +kernel
  obtain ⟨t, q, hpass, hover⟩ := exists_pass_over hp rfl (by decide) hhead
  obtain ⟨block, head, hwindow⟩ := pass_programsWindow hp hpass hover
  have hstart : p.engine.windowAt.toNat = 0x1f0 ∧ p.engine.windowLength = 0x120 := by decide
  rw [hstart.1, hstart.2] at hwindow
  exact ⟨p, q, t, block, hp, hpass, hover, head, hwindow⟩

end Pipeline

end DfuLoader
