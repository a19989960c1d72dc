import DfuLoader.Proofs.HealthyBoard
import DfuLoader.Proofs.Reachable

/-!
# What an earlier image leaves behind

Clearing the ring does not blank its slots, so a session that selects a zone keeps bytes of
the image before. Nothing that follows depends on them. Two rings that stand for the same
content may hold any bytes besides (`BlockRing.Agree`), and every operation on them has the
same outcome and leaves rings that agree again. So do the tick, each operation of a session and
with them every run (`Session.Alike.performAll`): the dialogues ask the same commands, with the
same data, whatever the board replies (`Dialogue.Matches`).
-/

namespace DfuLoader

namespace Dialogue

variable {α α' β β' σ : Type}

/-- Two dialogues ask the same commands, whatever the replies, and end in related values. -/
inductive Matches (R : α → α' → Prop) : Dialogue α → Dialogue α' → Prop
  | done {a : α} {a' : α'} (related : R a a') : Matches R (.done a) (.done a')
  | ask (c : Command) {next : c.Reply → Dialogue α} {next' : c.Reply → Dialogue α'}
      (rest : ∀ reply, Matches R (next reply) (next' reply)) :
      Matches R (.ask c next) (.ask c next')

variable {R : α → α' → Prop} {S : β → β' → Prop} {d : Dialogue α} {d' : Dialogue α'}

theorem matches_self (d : Dialogue α) : Matches Eq d d := by
  induction d with
  | done a => exact .done rfl
  | ask c next ih => exact .ask c ih

theorem Matches.bind {f : α → Dialogue β} {f' : α' → Dialogue β'} (h : Matches R d d')
    (hf : ∀ a a', R a a' → Matches S (f a) (f' a')) : Matches S (d >>= f) (d' >>= f') := by
  induction h with
  | done related => exact hf _ _ related
  | ask c rest ih => exact .ask c ih

theorem matches_bind (d : Dialogue α) {f : α → Dialogue β} {f' : α → Dialogue β'}
    (hf : ∀ a, Matches S (f a) (f' a)) : Matches S (d >>= f) (d >>= f') :=
  (matches_self d).bind fun a _ heq => heq ▸ hf a

theorem matches_orFail (d : Dialogue (Except Fault α)) {failed : β} {failed' : β'}
    {next : α → Dialogue β} {next' : α → Dialogue β'} (hfailed : S failed failed')
    (hnext : ∀ a, Matches S (next a) (next' a)) :
    Matches S (d.orFail failed next) (d.orFail failed' next') := by
  refine matches_bind d fun reply => ?_
  cases reply with
  | error fault => exact .done hfailed
  | ok a => exact hnext a

theorem Matches.run (h : Matches R d d') (board : Board σ) (x : σ) :
    R (d.run board x).1 (d'.run board x).1 ∧ (d.run board x).2 = (d'.run board x).2 ∧
      d.trace board x = d'.trace board x := by
  induction h generalizing x with
  | done related => exact ⟨related, rfl, rfl⟩
  | ask c rest ih =>
      obtain ⟨hvalue, hboard, htrace⟩ := ih (board.answer c x).1 (board.answer c x).2
      exact ⟨hvalue, hboard, congrArg _ htrace⟩

end Dialogue

namespace BlockRing

/-- Two rings stand for the same bytes. -/
structure Agree (b c : BlockRing) : Prop where
  left : b.WellFormed
  right : c.WellFormed
  content_eq : b.content = c.content

namespace Agree

variable {b c : BlockRing}

/-- How the bytes lie in the slots follows from their number. -/
theorem fields_eq (h : Agree b c) : b.committed = c.committed ∧ b.fill = c.fill := by
  have hb := h.left.content_length
  have hc := h.right.content_length
  have hbfill := h.left.fill_lt
  have hcfill := h.right.fill_lt
  rw [h.content_eq] at hb
  rw [blockSize] at hb hc hbfill hcfill
  omega

theorem committed_eq (h : Agree b c) : b.committed = c.committed := h.fields_eq.1

theorem fill_eq (h : Agree b c) : b.fill = c.fill := h.fields_eq.2

theorem isEmpty_eq (h : Agree b c) : b.isEmpty = c.isEmpty := by
  rw [isEmpty, isEmpty, h.committed_eq, h.fill_eq]

theorem room_eq (h : Agree b c) : b.room = c.room := by
  rw [room, room, h.committed_eq, h.fill_eq]

theorem head?_eq (h : Agree b c) : b.head? = c.head? := by
  cases hb : b.head? with
  | none =>
      rw [head?_eq_none_iff, h.committed_eq] at hb
      exact (head?_eq_none_iff.2 hb).symm
  | some block =>
      obtain ⟨hpos, rfl⟩ := h.left.head?_eq_some hb
      rw [h.committed_eq] at hpos
      obtain ⟨block', hc⟩ := Option.ne_none_iff_exists'.1 (head?_ne_none_iff.2 hpos)
      rw [hc, (h.right.head?_eq_some hc).2, h.content_eq]

theorem pop (h : Agree b c) : Agree b.pop c.pop := by
  by_cases hpos : 0 < b.committed
  · refine ⟨h.left.pop, h.right.pop, ?_⟩
    rw [h.left.content_pop hpos, h.right.content_pop (h.committed_eq ▸ hpos), h.content_eq]
  · have hb : b.committed = 0 := by omega
    have hc : c.committed = 0 := h.committed_eq ▸ hb
    rw [BlockRing.pop, BlockRing.pop, if_pos hb, if_pos hc]
    exact h

theorem close (h : Agree b c) (hlt : b.committed < 2) : Agree b.close c.close := by
  have hlt' : c.committed < 2 := h.committed_eq ▸ hlt
  refine ⟨h.left.toLaid.close hlt, h.right.toLaid.close hlt', ?_⟩
  rw [h.left.toLaid.content_close hlt, h.right.toLaid.content_close hlt', h.content_eq, h.fill_eq]

theorem append (h : Agree b c) (bytes : Bytes) :
    Option.Rel Agree (b.append bytes) (c.append bytes) := by
  cases hb : b.append bytes with
  | none =>
      cases hc : c.append bytes with
      | none => exact .none
      | some c' =>
          have hroom := append_eq_some_iff.1 ⟨c', hc⟩
          rw [← h.room_eq] at hroom
          obtain ⟨b', hb'⟩ := append_eq_some_iff.2 hroom
          exact absurd (hb.symm.trans hb') (by simp)
  | some b' =>
      have hroom := append_eq_some_iff.1 ⟨b', hb⟩
      rw [h.room_eq] at hroom
      obtain ⟨c', hc⟩ := append_eq_some_iff.2 hroom
      obtain ⟨hleft, hcontent⟩ := h.left.append hb
      obtain ⟨hright, hcontent'⟩ := h.right.append hc
      rw [hc]
      exact .some ⟨hleft, hright, by rw [hcontent, hcontent', h.content_eq]⟩

end Agree

theorem WellFormed.agree_clear {b c : BlockRing} (hb : b.WellFormed) (hc : c.WellFormed) :
    Agree b.clear c.clear :=
  ⟨hb.clear, hc.clear, rfl⟩

end BlockRing

open Dialogue

namespace Pipeline

structure Alike (p q : Pipeline) : Prop where
  engine_eq : p.engine = q.engine
  buffer : p.buffer.Agree q.buffer

def AlikeAfter (r r' : Tick × Pipeline) : Prop := r.1 = r'.1 ∧ r.2.Alike r'.2

namespace Alike

variable {cfg : Config} {p q : Pipeline}

theorem after (h : p.Alike q) (k : Tick) : AlikeAfter (k, p) (k, q) := ⟨rfl, h⟩

theorem mapEngine (h : p.Alike q) (f : Engine → Engine) : (p.mapEngine f).Alike (q.mapEngine f) :=
  ⟨congrArg f h.engine_eq, h.buffer⟩

theorem failed (h : p.Alike q) : AlikeAfter p.failed q.failed := (h.mapEngine _).after _

theorem starved (h : p.Alike q) : AlikeAfter p.starved q.starved := (h.mapEngine _).after _

theorem programPage (h : p.Alike q) (block : Bytes) :
    Matches AlikeAfter (p.programPage block) (q.programPage block) := by
  rw [Pipeline.programPage, Pipeline.programPage, h.engine_eq]
  refine matches_orFail _ h.failed fun _ => matches_orFail _ h.failed fun _ => ?_
  exact .done ((h.mapEngine _).after _)

theorem write (h : p.Alike q) : Matches AlikeAfter (p.write cfg) (q.write cfg) := by
  rw [Pipeline.write, Pipeline.write, h.engine_eq, h.buffer.head?_eq]
  split
  · exact .done ⟨rfl, congrArg (·.advance cfg.maxAttempts) h.engine_eq, h.buffer.pop⟩
  split
  · exact .done ((h.mapEngine _).after _)
  cases q.buffer.head? with
  | none => exact .done h.starved
  | some block => exact h.programPage block

theorem erase (h : p.Alike q) : Matches AlikeAfter (p.erase cfg) (q.erase cfg) := by
  rw [Pipeline.erase, Pipeline.erase, h.engine_eq]
  have herasing := h.mapEngine fun e =>
    { e with erasedTo := (q.engine.eraseUnit cfg.eraseUnit).baseOf q.engine.windowAt }
  refine matches_orFail _ herasing.failed fun _ => matches_orFail _ herasing.failed fun _ => ?_
  exact .done ((herasing.mapEngine _).after _)

theorem resolve (h : p.Alike q) : Matches AlikeAfter (p.resolve cfg) (q.resolve cfg) := by
  rw [Pipeline.resolve, Pipeline.resolve, h.engine_eq]
  split
  · exact h.erase
  · exact (h.mapEngine _).write

theorem examine (h : p.Alike q) : Matches AlikeAfter (p.examine cfg) (q.examine cfg) := by
  rw [Pipeline.examine, Pipeline.examine, h.engine_eq, h.buffer.head?_eq]
  cases q.buffer.head? with
  | none => exact .done h.starved
  | some block => exact matches_orFail _ h.failed fun outcome => (h.mapEngine _).resolve

theorem work (h : p.Alike q) : Matches AlikeAfter (p.work cfg) (q.work cfg) := by
  rw [Pipeline.work, Pipeline.work, h.engine_eq]
  split
  · exact h.examine
  · exact h.write

theorem proceed (h : p.Alike q) : Matches AlikeAfter (p.proceed cfg) (q.proceed cfg) := by
  rw [Pipeline.proceed, Pipeline.proceed, h.engine_eq]
  split
  · refine matches_bind _ fun _ => .done ⟨rfl, ?_, h.buffer.pop⟩
    exact congrArg (·.giveUp cfg.maxAttempts) h.engine_eq
  refine matches_bind _ fun _ => matches_orFail _ h.failed fun status => ?_
  split
  · exact .done (h.after _)
  · exact h.work

theorem tick (h : p.Alike q) : Matches AlikeAfter (p.tick cfg) (q.tick cfg) := by
  rw [Pipeline.tick, Pipeline.tick, h.engine_eq, h.buffer.head?_eq]
  split
  · exact h.proceed
  split
  · exact .done (h.after _)
  · exact (h.mapEngine _).proceed

end Alike

end Pipeline

namespace Session

inductive Alike (s : Session) : Session → Prop
  | mk {c : BlockRing} (agree : s.buffer.Agree c) : Alike s { s with buffer := c }

def AlikeAfter {α : Type} (r r' : α × Session) : Prop := r.1 = r'.1 ∧ r.2.Alike r'.2

namespace Alike

variable {cfg : Config} {limit : Nat} {s r : Session}

theorem pipeline (h : s.Alike r) : s.toPipeline.Alike r.toPipeline := by
  obtain ⟨agree⟩ := h
  exact ⟨rfl, agree⟩

theorem buffer (h : s.Alike r) : s.buffer.Agree r.buffer := h.pipeline.buffer

theorem engine_eq (h : s.Alike r) : s.engine = r.engine := h.pipeline.engine_eq

theorem state_eq (h : s.Alike r) : s.state = r.state := by
  obtain ⟨agree⟩ := h
  rfl

theorem withState (h : s.Alike r) (state : State) :
    { s with state := state }.Alike { r with state := state } := by
  obtain ⟨agree⟩ := h
  exact .mk agree

theorem withPipeline {p q : Pipeline} (h : s.Alike r) (hp : p.Alike q) :
    (s.withPipeline p).Alike (r.withPipeline q) := by
  obtain ⟨agree⟩ := h
  obtain ⟨e, b⟩ := p
  obtain ⟨_, c⟩ := q
  obtain rfl := hp.engine_eq
  exact .mk hp.buffer

/-! What does not look at the ring. -/

theorem fail (h : s.Alike r) (e : SessionError) : (s.fail e).Alike (r.fail e) := by
  obtain ⟨agree⟩ := h
  exact .mk agree

theorem request (h : s.Alike r) (code : UInt8) : AlikeAfter (s.request code) (r.request code) := by
  obtain ⟨agree⟩ := h
  rw [Session.request, Session.request]
  cases Request.ofCode? code with
  | none => exact ⟨rfl, .mk agree⟩
  | some req =>
      dsimp only
      split <;> exact ⟨rfl, .mk agree⟩

/-! Loading a zone. -/

theorem selectAlt (h : s.Alike r) (cfg : Config) (alt : UInt8) :
    Option.Rel Alike (s.selectAlt cfg alt) (r.selectAlt cfg alt) := by
  obtain ⟨agree⟩ := h
  rw [Session.selectAlt, Session.selectAlt]
  cases cfg.zones.get? alt with
  | none => exact .none
  | some zone => exact .some (.mk (agree.left.agree_clear agree.right))

theorem configured (h : s.Alike r) : (s.configured cfg).Alike (r.configured cfg) := by
  have hselect := h.selectAlt cfg 0
  rw [Session.configured, Session.configured, h.state_eq]
  split
  · generalize s.selectAlt cfg 0 = x, r.selectAlt cfg 0 = y at hselect
    cases hselect with
    | none => exact h
    | some loaded => exact loaded
  · exact h

/-! Bytes from the host. -/

theorem commitTail (h : s.Alike r) : s.commitTail.Alike r.commitTail := by
  have hagree := h.buffer
  by_cases hfill : s.buffer.fill = 0
  · have hfill' : r.buffer.fill = 0 := hagree.fill_eq ▸ hfill
    rw [commitTail_of_fill_eq_zero hfill, commitTail_of_fill_eq_zero hfill']
    exact h
  · have hfill' : r.buffer.fill ≠ 0 := hagree.fill_eq ▸ hfill
    rw [commitTail_of_fill_ne_zero hagree.left hfill,
      commitTail_of_fill_ne_zero hagree.right hfill']
    have hclose := hagree.close (fill_pos_committed_lt hagree.left hfill)
    obtain ⟨agree⟩ := h
    exact .mk hclose

theorem commitImageTail (h : s.Alike r) : s.commitImageTail.Alike r.commitImageTail := by
  have htail := h.commitTail
  rw [Session.commitImageTail, Session.commitImageTail]
  obtain ⟨agree⟩ := h
  change Alike (if s.endOfImage then _ else _) (if s.endOfImage then _ else _)
  split
  · exact htail
  · exact .mk agree

theorem closedIfShort (h : s.Alike r) (cfg : Config) (length : Nat) :
    (s.closedIfShort cfg length).Alike (r.closedIfShort cfg length) := by
  rw [Session.closedIfShort, Session.closedIfShort]
  split
  · exact h.commitTail
  · exact h

theorem received (h : s.Alike r) {b c : BlockRing} (agree : b.Agree c) (receiveAt : Address) :
    (s.received b receiveAt).Alike (r.received c receiveAt) := by
  obtain ⟨-⟩ := h
  exact .mk agree

theorem received_nil (h : s.Alike r) :
    { s with endOfImage := true, state := .manifestSync }.Alike
      { r with endOfImage := true, state := .manifestSync } := by
  obtain ⟨agree⟩ := h
  exact .mk agree

theorem download (h : s.Alike r) (cfg : Config) (bytes : Bytes) :
    AlikeAfter (s.download cfg bytes) (r.download cfg bytes) := by
  have happend := h.buffer.append bytes
  rw [Session.download, Session.download]
  split
  · exact ⟨rfl, h.received_nil⟩
  cases hadd : (s.engine.receiveAt.add? bytes.length).filter (· ≤ s.engine.zoneEnd) with
  | none =>
      rw [h.engine_eq] at hadd
      rw [hadd]
      exact ⟨rfl, h.fail _⟩
  | some receiveAt =>
      rw [h.engine_eq] at hadd
      rw [hadd]
      generalize s.buffer.append bytes = b, r.buffer.append bytes = c at happend
      cases happend with
      | none => exact ⟨rfl, h.fail _⟩
      | some agree =>
          have hclosed := (h.received agree receiveAt).closedIfShort cfg bytes.length
          exact ⟨rfl, hclosed.withState _⟩

/-! Dialogues with the board. -/

theorem upload (h : s.Alike r) (room requested : Nat) :
    Matches AlikeAfter (s.upload room requested) (r.upload room requested) := by
  obtain ⟨agree⟩ := h
  rw [Session.upload, Session.upload]
  dsimp only
  split
  · exact .done ⟨rfl, .mk agree⟩
  refine matches_bind _ fun _ => matches_bind _ fun reply => ?_
  cases reply with
  | error fault => exact .done ⟨rfl, .mk agree⟩
  | ok bytes => exact .done ⟨rfl, .mk agree⟩

theorem step (h : s.Alike r) : Matches AlikeAfter (s.step cfg) (r.step cfg) := by
  refine h.commitImageTail.pipeline.tick.bind ?_
  rintro ⟨k, p⟩ ⟨_, q⟩ ⟨rfl, hp⟩
  exact .done ⟨rfl, h.commitImageTail.withPipeline hp⟩

theorem drain (h : s.Alike r) :
    Matches (Option.Rel Alike) (s.drain cfg limit) (r.drain cfg limit) := by
  induction limit generalizing s r with
  | zero =>
      rw [Session.drain, Session.drain, h.buffer.isEmpty_eq]
      split
      · exact .done (.some h)
      · exact .done .none
  | succ limit ih =>
      rw [Session.drain, Session.drain, h.buffer.isEmpty_eq]
      split
      · exact .done (.some h)
      refine h.step.bind ?_
      rintro ⟨k, s'⟩ ⟨_, r'⟩ ⟨rfl, h'⟩
      exact ih h'

theorem rewind (h : s.Alike r) (cfg : Config) : (s.rewind cfg).Alike (r.rewind cfg) := by
  obtain ⟨agree⟩ := h
  exact .mk agree

theorem report_eq (h : s.Alike r) (state : State) : s.report cfg state = r.report cfg state := by
  obtain ⟨agree⟩ := h
  rfl

theorem manifest (h : s.Alike r) :
    Matches (Option.Rel AlikeAfter) (s.manifest cfg limit) (r.manifest cfg limit) := by
  rw [Session.manifest, Session.manifest]
  cases cfg.manifest with
  | drain =>
      refine (h.withState .idle).drain.bind ?_
      rintro _ _ (hdrained | _)
      · exact .done (.some ⟨(hdrained.rewind cfg).report_eq _, hdrained.rewind cfg⟩)
      · exact .done .none
  | report =>
      have htail := h.commitImageTail
      have hidle := (htail.withState .idle).rewind cfg
      dsimp only
      rw [htail.buffer.isEmpty_eq]
      split
      · exact .done (.some ⟨hidle.report_eq _, hidle⟩)
      · exact .done (.some ⟨htail.report_eq _, htail⟩)

theorem getStatus (h : s.Alike r) :
    Matches (Option.Rel AlikeAfter) (s.getStatus cfg limit) (r.getStatus cfg limit) := by
  have hother (state : State) : Matches (Option.Rel AlikeAfter)
      (.done (some (s.report cfg state, s))) (.done (some (r.report cfg state, r))) :=
    .done (.some ⟨h.report_eq state, h⟩)
  rw [Session.getStatus, Session.getStatus, ← h.state_eq]
  cases s.state with
  | downloadSync =>
      dsimp only
      rw [h.buffer.committed_eq]
      split
      · exact .done (.some ⟨h.report_eq _, h.withState _⟩)
      · exact hother _
  | manifestSync => exact h.manifest
  | appIdle | appDetach | idle | downloadBusy | downloadIdle | manifest | manifestWaitReset
  | uploadIdle | error => exact hother _

theorem busReset (h : s.Alike r) : Matches Alike (s.busReset cfg) (r.busReset cfg) := by
  rw [Session.busReset, Session.busReset, h.state_eq]
  split
  · exact .done h
  · refine matches_bind _ fun _ => ?_
    obtain ⟨agree⟩ := h
    exact .done (.mk (agree.left.agree_clear agree.right))

theorem poll (h : s.Alike r) : Matches Alike s.poll r.poll := by
  obtain ⟨agree⟩ := h
  rw [Session.poll, Session.poll]
  dsimp only
  split
  · exact matches_bind _ fun _ => .done (.mk agree)
  · exact .done (.mk agree)

theorem tick (h : s.Alike r) : Matches AlikeAfter (s.tick cfg) (r.tick cfg) := by
  obtain ⟨agree⟩ := h
  rw [Session.tick, Session.tick]
  dsimp only
  split
  · exact .done ⟨rfl, .mk agree⟩
  · exact Alike.step (.mk agree)

theorem perform (h : s.Alike r) (op : Operation) :
    Matches (Option.Rel AlikeAfter) (s.perform cfg limit op) (r.perform cfg limit op) := by
  have hquiet {s r : Session} (h : s.Alike r) : Matches (Option.Rel AlikeAfter)
      (.done (some (Answer.quiet, s))) (.done (some (Answer.quiet, r))) := .done (.some ⟨rfl, h⟩)
  cases op with
  | configured => exact hquiet h.configured
  | selectAlt alt =>
      rw [Session.perform, Session.perform]
      have hselect := h.selectAlt cfg alt
      generalize s.selectAlt cfg alt = x, r.selectAlt cfg alt = y at hselect
      cases hselect with
      | none => exact .done (.some ⟨rfl, h⟩)
      | some loaded => exact .done (.some ⟨rfl, loaded⟩)
  | request code =>
      obtain ⟨hresult, hrequest⟩ := h.request code
      exact .done (.some ⟨congrArg Answer.requested hresult, hrequest⟩)
  | fail e => exact .done (.some ⟨rfl, h.fail e⟩)
  | detach =>
      obtain ⟨agree⟩ := h
      exact hquiet (.mk agree)
  | download bytes =>
      obtain ⟨hresult, hdownload⟩ := h.download cfg bytes
      exact .done (.some ⟨congrArg Answer.downloaded hresult, hdownload⟩)
  | upload room requested =>
      refine (h.upload room requested).bind ?_
      rintro ⟨result, s'⟩ ⟨_, r'⟩ ⟨rfl, h'⟩
      exact .done (.some ⟨rfl, h'⟩)
  | getStatus =>
      refine h.getStatus.bind ?_
      rintro _ _ (⟨hreport, h'⟩ | _)
      · exact .done (.some ⟨congrArg Answer.reported hreport, h'⟩)
      · exact .done .none
  | clearStatus =>
      obtain ⟨agree⟩ := h
      exact hquiet (.mk agree)
  | getState => exact .done (.some ⟨congrArg Answer.state h.state_eq, h⟩)
  | abort => exact hquiet (h.withState .idle)
  | busReset => exact h.busReset.bind fun _ _ h' => hquiet h'
  | poll => exact h.poll.bind fun _ _ h' => hquiet h'
  | tick =>
      refine h.tick.bind ?_
      rintro ⟨k, s'⟩ ⟨_, r'⟩ ⟨rfl, h'⟩
      exact .done (.some ⟨rfl, h'⟩)

theorem performAll (h : s.Alike r) (cfg : Config) (limit : Nat) (ops : List Operation) :
    Matches (Option.Rel AlikeAfter) (performAll cfg limit ops s) (performAll cfg limit ops r) := by
  induction ops generalizing s r with
  | nil => exact .done (.some ⟨rfl, h⟩)
  | cons op ops ih =>
      rw [Session.performAll, Session.performAll]
      refine (h.perform op).bind ?_
      rintro _ _ (@⟨⟨answer, s₁⟩, ⟨_, r₁⟩, ⟨rfl, h₁⟩⟩ | _)
      · refine (ih h₁).bind ?_
        rintro _ _ (@⟨⟨answers, s₂⟩, ⟨_, r₂⟩, ⟨rfl, h₂⟩⟩ | _)
        · exact .done (.some ⟨rfl, h₂⟩)
        · exact .done .none
      · exact .done .none

end Alike

/-- What the outside can see of a session: everything but the bytes in the slots, of which it
sees the oldest block. -/
structure Observation where
  engine : Engine
  committed : Nat
  fill : Nat
  room : Nat
  head? : Option Bytes
  state : State
  status : Status
  alt : UInt8
  skipped : UInt8
  endOfImage : Bool
  detachPending : Bool

def observe (s : Session) : Observation where
  engine := s.engine
  committed := s.buffer.committed
  fill := s.buffer.fill
  room := s.buffer.room
  head? := s.buffer.head?
  state := s.state
  status := s.status
  alt := s.alt
  skipped := s.skipped
  endOfImage := s.endOfImage
  detachPending := s.detachPending

theorem Alike.observe_eq {s r : Session} (h : s.Alike r) : s.observe = r.observe := by
  obtain ⟨agree⟩ := h
  rw [observe, observe, agree.committed_eq, agree.fill_eq, agree.room_eq, agree.head?_eq]

section Board

variable {σ : Type} {cfg : Config} {s₁ s₂ r₁ r₂ : Session}

/-- What comes of some operations on a board: the exchanges, the answers and what is seen of
the session, and the state of the board. -/
def outcome (cfg : Config) (limit : Nat) (ops : List Operation) (s : Session) (board : Board σ)
    (x : σ) : List Exchange × Option (List Answer × Observation) × σ :=
  ((performAll cfg limit ops s).trace board x,
    ((performAll cfg limit ops s).run board x).1.map fun r => (r.1, r.2.observe),
    ((performAll cfg limit ops s).run board x).2)

theorem Alike.outcome_eq (h : r₁.Alike r₂) (limit : Nat) (ops : List Operation) (board : Board σ)
    (x : σ) : outcome cfg limit ops r₁ board x = outcome cfg limit ops r₂ board x := by
  obtain ⟨hresult, hboard, htrace⟩ := (h.performAll cfg limit ops).run board x
  have hsame : ((Session.performAll cfg limit ops r₁).run board x).1.map
      (fun r => (r.1, r.2.observe)) =
        ((Session.performAll cfg limit ops r₂).run board x).1.map
          (fun r => (r.1, r.2.observe)) := by
    generalize ((Session.performAll cfg limit ops r₁).run board x).1 = a,
      ((Session.performAll cfg limit ops r₂).run board x).1 = b at hresult
    cases hresult with
    | none => rfl
    | some after => exact congrArg some (Prod.ext after.1 after.2.observe_eq)
  rw [outcome, outcome, htrace, hboard, hsame]

/-- Selecting a zone forgets the past. Whatever two sessions had queued, under way or in
progress, every run after it comes out the same in both, and as if nothing had ever been in the
slots. -/
theorem selectAlt_forgets (hs₁ : Reachable cfg s₁) (hs₂ : Reachable cfg s₂)
    (hskipped : s₁.skipped = s₂.skipped) (hpending : s₁.detachPending = s₂.detachPending)
    {alt : UInt8} (hr₁ : s₁.selectAlt cfg alt = some r₁) (hr₂ : s₂.selectAlt cfg alt = some r₂)
    (limit : Nat) (ops : List Operation) (board : Board σ) (x : σ) :
    outcome cfg limit ops r₁ board x = outcome cfg limit ops r₂ board x ∧
      outcome cfg limit ops r₁ board x =
        outcome cfg limit ops { r₁ with buffer := .empty } board x := by
  have hring₁ := hs₁.located.wellFormed
  have hring₂ := hs₂.located.wellFormed
  obtain ⟨zone, hzone, rfl⟩ := selectAlt_eq_some_iff.1 hr₁
  obtain ⟨zone', hzone', rfl⟩ := selectAlt_eq_some_iff.1 hr₂
  obtain rfl : zone = zone' := Option.some.inj (hzone.symm.trans hzone')
  have halike : (s₁.loaded cfg alt zone).Alike (s₂.loaded cfg alt zone) := by
    have hrest : s₂.loaded cfg alt zone =
        { s₁.loaded cfg alt zone with buffer := s₂.buffer.clear } := by
      rw [loaded, loaded, hskipped, hpending]
    rw [hrest]
    exact .mk (hring₁.agree_clear hring₂)
  have hfresh : (s₁.loaded cfg alt zone).Alike
      { s₁.loaded cfg alt zone with buffer := .empty } :=
    .mk (hring₁.agree_clear BlockRing.wellFormed_empty)
  exact ⟨halike.outcome_eq limit ops board x, hfresh.outcome_eq limit ops board x⟩

end Board

/-- A session with half an image in its buffer, and one that just started. The bytes of that
image are still in a slot behind the three bytes of the next one. -/
theorem selectAlt_forgets_halfImage :
    ∃ r₁ r₂ : Session,
      (halfImage {}).selectAlt {} 0 = some r₁ ∧ (initial {}).selectAlt {} 0 = some r₂ ∧
        r₁.buffer ≠ r₂.buffer ∧
        ∀ x : TimedFlash,
          outcome {} 0 [.download [1, 2, 3], .tick, .getStatus] r₁ (TimedFlash.chips 3) x =
            outcome {} 0 [.download [1, 2, 3], .tick, .getStatus] r₂ (TimedFlash.chips 3) x := by
  obtain ⟨zone, hzone⟩ := ZoneTable.get?_zero ({} : Config).zones
  have hr₁ : (halfImage {}).selectAlt {} 0 = _ := selectAlt_eq_some_iff.2 ⟨zone, hzone, rfl⟩
  have hr₂ : (initial {}).selectAlt {} 0 = _ := selectAlt_eq_some_iff.2 ⟨zone, hzone, rfl⟩
  have hstale : (halfImage {}).buffer.clear ≠ (initial {}).buffer.clear := by decide +kernel
  exact ⟨_, _, hr₁, hr₂, hstale, fun x =>
    (selectAlt_forgets (reachable_halfImage rfl) .initial (by decide +kernel) (by decide +kernel)
      hr₁ hr₂ 0 [.download [1, 2, 3], .tick, .getStatus] (TimedFlash.chips 3) x).1⟩

end Session

end DfuLoader
