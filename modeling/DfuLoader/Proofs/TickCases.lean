import DfuLoader.Engine.Tick
import Mathlib.Tactic.Common

/-!
# What a tick can do

A tick is a dialogue of a few commands, and a fault may end it after each of them.
Here its outcomes are listed once and for all, with the exchanges that lead to
each: `Ticks cfg p t k q` says that a tick of the pipeline `p` may hold the
exchanges `t`, come out as `k` and leave the pipeline `q`. The list is exact
(`ends_tick`), so later modules reason by its cases and never open a tick again.
-/

namespace DfuLoader

namespace Dialogue

variable {α β : Type}

/-- Where a dialogue of one exchange may fail, the whole either ends with the
fault or goes on from the reply. -/
theorem ends_orFail_exchange {d : Dialogue (Except Fault α)} {x : Except Fault α → Exchange}
    (hd : ∀ t r, Ends d t r ↔ t = [x r]) {failed : β} {next : α → Dialogue β}
    {t : List Exchange} {b : β} :
    Ends (d.orFail failed next) t b ↔
      (∃ fault, t = [x (.error fault)] ∧ b = failed) ∨
        ∃ a t', t = x (.ok a) :: t' ∧ Ends (next a) t' b := by
  rw [ends_orFail]
  constructor
  · rintro (⟨fault, h, rfl⟩ | ⟨t₁, t₂, a, rfl, h, hnext⟩)
    · exact .inl ⟨fault, (hd _ _).1 h, rfl⟩
    · rw [(hd _ _).1 h]
      exact .inr ⟨a, t₂, rfl, hnext⟩
  · rintro (⟨fault, rfl, rfl⟩ | ⟨a, t', rfl, hnext⟩)
    · exact .inl ⟨fault, (hd _ _).2 rfl, rfl⟩
    · exact .inr ⟨[x (.ok a)], t', a, rfl, (hd _ _).2 rfl, hnext⟩

end Dialogue

namespace Pipeline

open Dialogue

def Attended (p : Pipeline) : Prop := p.engine.stage ≠ .idle ∨ p.buffer.head? ≠ none

def opened (p : Pipeline) : Pipeline :=
  if p.engine.stage = .idle then p.mapEngine .openWindow else p

def compared (p : Pipeline) (outcome : Outcome) : Pipeline :=
  p.mapEngine fun e => { e with last := outcome }

/-- The pipeline whose window is erased up to an address and is to be programmed. -/
def programming (p : Pipeline) (erasedTo : Address) : Pipeline :=
  p.mapEngine fun e => { e with erasedTo := erasedTo, stage := .programming }

def cleared (p : Pipeline) : Pipeline :=
  p.programming (p.engine.windowAt + UInt32.ofNat blockSize)

@[simp] theorem buffer_mapEngine (p : Pipeline) (f : Engine → Engine) :
    (p.mapEngine f).buffer = p.buffer := rfl

@[simp] theorem engine_mapEngine (p : Pipeline) (f : Engine → Engine) :
    (p.mapEngine f).engine = f p.engine := rfl

theorem buffer_cleared (p : Pipeline) : p.cleared.buffer = p.buffer := by
  rw [cleared, programming, buffer_mapEngine]

theorem stage_cleared (p : Pipeline) : p.cleared.engine.stage = .programming := by
  rw [cleared, programming, engine_mapEngine]

theorem length_cleared (p : Pipeline) : p.cleared.engine.length = p.engine.length := by
  rw [cleared, programming, engine_mapEngine]

theorem offset_cleared (p : Pipeline) : p.cleared.engine.offset = p.engine.offset := by
  rw [cleared, programming, engine_mapEngine]

theorem last_cleared (p : Pipeline) : p.cleared.engine.last = p.engine.last := by
  rw [cleared, programming, engine_mapEngine]

theorem receiveAt_cleared (p : Pipeline) :
    p.cleared.engine.receiveAt = p.engine.receiveAt := by
  rw [cleared, programming, engine_mapEngine]

theorem readAt_cleared (p : Pipeline) : p.cleared.engine.readAt = p.engine.readAt := by
  rw [cleared, programming, engine_mapEngine]

theorem windowAt_cleared (p : Pipeline) : p.cleared.engine.windowAt = p.engine.windowAt := by
  rw [cleared, programming, engine_mapEngine]

theorem attempts_cleared (p : Pipeline) : p.cleared.engine.attempts = p.engine.attempts := by
  rw [cleared, programming, engine_mapEngine]

def erasing (p : Pipeline) (base : Address) : Pipeline :=
  p.mapEngine fun e => { e with erasedTo := base }

def eraseBase (cfg : Config) (p : Pipeline) : Address :=
  (p.engine.eraseUnit cfg.eraseUnit).baseOf p.engine.windowAt

def greeting (p : Pipeline) (status : Except Fault UInt8) : List Exchange :=
  [⟨.select p.engine.chip, ()⟩, ⟨.readStatus, status⟩]

inductive Programs (p : Pipeline) (block : Bytes) : List Exchange → Tick → Pipeline → Prop
  | locked (fault : Fault) :
      Programs p block [⟨.writeEnable, .error fault⟩] .failed (p.mapEngine .endAttempt)
  | refused (fault : Fault) :
      Programs p block
        [⟨.writeEnable, .ok ()⟩,
          ⟨.program p.engine.pageAt ((block.drop p.engine.offset).take p.engine.pageLength),
            .error fault⟩]
        .failed (p.mapEngine .endAttempt)
  | started :
      Programs p block
        [⟨.writeEnable, .ok ()⟩,
          ⟨.program p.engine.pageAt ((block.drop p.engine.offset).take p.engine.pageLength),
            .ok ()⟩]
        .progress (p.mapEngine fun e => { e with offset := e.offset + p.engine.pageLength })

inductive Writes (cfg : Config) (p : Pipeline) : List Exchange → Tick → Pipeline → Prop
  | written (done : p.engine.last.needsProgram = false) :
      Writes cfg p [] .committed
        { engine := p.engine.advance cfg.maxAttempts, buffer := p.buffer.pop }
  | passed (due : p.engine.last.needsProgram = true) (all : p.engine.offset = p.engine.length) :
      Writes cfg p [] .progress (p.mapEngine .endAttempt)
  | starved (due : p.engine.last.needsProgram = true) (part : p.engine.offset ≠ p.engine.length)
      (empty : p.buffer.head? = none) : Writes cfg p [] .idle (p.mapEngine .rest)
  | page (due : p.engine.last.needsProgram = true) (part : p.engine.offset ≠ p.engine.length)
      {block : Bytes} (head : p.buffer.head? = some block) {t : List Exchange} {k : Tick}
      {q : Pipeline} (programs : Programs p block t k q) : Writes cfg p t k q

inductive Erases (cfg : Config) (p : Pipeline) : List Exchange → Tick → Pipeline → Prop
  | locked (fault : Fault) :
      Erases cfg p [⟨.writeEnable, .error fault⟩] .failed
        ((p.erasing (p.eraseBase cfg)).mapEngine .endAttempt)
  | refused (fault : Fault) :
      Erases cfg p
        [⟨.writeEnable, .ok ()⟩,
          ⟨.erase (p.eraseBase cfg) (p.engine.eraseUnit cfg.eraseUnit), .error fault⟩]
        .failed ((p.erasing (p.eraseBase cfg)).mapEngine .endAttempt)
  | started :
      Erases cfg p
        [⟨.writeEnable, .ok ()⟩,
          ⟨.erase (p.eraseBase cfg) (p.engine.eraseUnit cfg.eraseUnit), .ok ()⟩]
        .progress
        (p.mapEngine fun e =>
          { e.spendAttempt with
            erasedTo := p.eraseBase cfg + (p.engine.eraseUnit cfg.eraseUnit).size })

inductive Works (cfg : Config) (p : Pipeline) : List Exchange → Tick → Pipeline → Prop
  | starved (stage : p.engine.stage = .erasing) (empty : p.buffer.head? = none) :
      Works cfg p [] .idle (p.mapEngine .rest)
  | unread (stage : p.engine.stage = .erasing) {block : Bytes}
      (head : p.buffer.head? = some block) (fault : Fault) :
      Works cfg p [⟨.verify p.engine.windowAt (block.take p.engine.length), .error fault⟩]
        .failed (p.mapEngine .endAttempt)
  | stale (stage : p.engine.stage = .erasing) {block : Bytes}
      (head : p.buffer.head? = some block) {outcome : Outcome}
      (needed : outcome.needsErase = true) {t : List Exchange} {k : Tick} {q : Pipeline}
      (erases : Erases cfg (p.compared outcome) t k q) :
      Works cfg p (⟨.verify p.engine.windowAt (block.take p.engine.length), .ok outcome⟩ :: t) k q
  | fresh (stage : p.engine.stage = .erasing) {block : Bytes}
      (head : p.buffer.head? = some block) {outcome : Outcome}
      (spared : outcome.needsErase = false) {t : List Exchange} {k : Tick} {q : Pipeline}
      (writes : Writes cfg (p.compared outcome).cleared t k q) :
      Works cfg p (⟨.verify p.engine.windowAt (block.take p.engine.length), .ok outcome⟩ :: t) k q
  | resumed (stage : p.engine.stage ≠ .erasing) {t : List Exchange} {k : Tick} {q : Pipeline}
      (writes : Writes cfg p t k q) : Works cfg p t k q

inductive Ticks (cfg : Config) (p : Pipeline) : List Exchange → Tick → Pipeline → Prop
  | resting (stage : p.engine.stage = .idle) (empty : p.buffer.head? = none) :
      Ticks cfg p [] .idle p
  | abandoned (attended : p.Attended) (spent : p.opened.engine.attempts = 0) :
      Ticks cfg p [⟨.reboot, ()⟩] .abandoned
        { engine := p.opened.engine.giveUp cfg.maxAttempts, buffer := p.opened.buffer.pop }
  | unanswered (attended : p.Attended) (left : p.opened.engine.attempts ≠ 0) (fault : Fault) :
      Ticks cfg p (p.opened.greeting (.error fault)) .failed (p.opened.mapEngine .endAttempt)
  | busy (attended : p.Attended) (left : p.opened.engine.attempts ≠ 0) {status : UInt8}
      (working : (status &&& busyBit != 0) = true) :
      Ticks cfg p (p.opened.greeting (.ok status)) .busy p.opened
  | worked (attended : p.Attended) (left : p.opened.engine.attempts ≠ 0) {status : UInt8}
      (ready : (status &&& busyBit != 0) = false) {t : List Exchange} {k : Tick} {q : Pipeline}
      (works : Works cfg p.opened t k q) :
      Ticks cfg p (p.opened.greeting (.ok status) ++ t) k q

variable {cfg : Config} {p q : Pipeline} {t : List Exchange} {k : Tick}

theorem ends_programPage {block : Bytes} :
    Ends (p.programPage block) t (k, q) ↔ Programs p block t k q := by
  rw [programPage, ends_orFail_exchange (fun _ _ => ends_command)]
  constructor
  · rintro (⟨fault, rfl, h⟩ | ⟨_, t', rfl, h⟩)
    · cases h
      exact .locked fault
    · rw [ends_orFail_exchange (fun _ _ => ends_command)] at h
      rcases h with ⟨fault, rfl, h⟩ | ⟨_, t'', rfl, h⟩
      · cases h
        exact .refused fault
      · cases h
        exact .started
  · rintro (fault | fault | _)
    · exact .inl ⟨fault, rfl, rfl⟩
    · refine .inr ⟨(), _, rfl, ?_⟩
      rw [ends_orFail_exchange (fun _ _ => ends_command)]
      exact .inl ⟨fault, rfl, rfl⟩
    · refine .inr ⟨(), _, rfl, ?_⟩
      rw [ends_orFail_exchange (fun _ _ => ends_command)]
      exact .inr ⟨(), [], rfl, .done _⟩

theorem ends_write : Ends (p.write cfg) t (k, q) ↔ Writes cfg p t k q := by
  rw [write]
  by_cases hdue : p.engine.last.needsProgram = false
  · rw [if_pos hdue]
    constructor
    · intro h
      cases h
      exact .written hdue
    · rintro (_ | ⟨due, _⟩ | ⟨due, _, _⟩ | ⟨due, _, _, _⟩)
      · exact .done _
      all_goals exact absurd hdue (by simp [due])
  rw [if_neg hdue]
  rw [Bool.not_eq_false] at hdue
  by_cases hall : p.engine.offset = p.engine.length
  · rw [if_pos hall]
    constructor
    · intro h
      cases h
      exact .passed hdue hall
    · rintro (done | _ | ⟨_, part, _⟩ | ⟨_, part, _, _⟩)
      · exact absurd hdue (by simp [done])
      · exact .done _
      all_goals exact absurd hall part
  rw [if_neg hall]
  cases hhead : p.buffer.head? with
  | none =>
      constructor
      · intro h
        cases h
        exact .starved hdue hall hhead
      · rintro (done | ⟨_, all⟩ | _ | ⟨_, _, head, _⟩)
        · exact absurd hdue (by simp [done])
        · exact absurd all hall
        · exact .done _
        · exact absurd (hhead.symm.trans head) (by simp)
  | some block =>
      rw [ends_programPage]
      constructor
      · exact .page hdue hall hhead
      · rintro (done | ⟨_, all⟩ | ⟨_, _, empty⟩ | ⟨_, _, head, programs⟩)
        · exact absurd hdue (by simp [done])
        · exact absurd all hall
        · exact absurd (hhead.symm.trans empty) (by simp)
        · cases hhead.symm.trans head
          exact programs

theorem ends_erase : Ends (p.erase cfg) t (k, q) ↔ Erases cfg p t k q := by
  rw [erase, ends_orFail_exchange (fun _ _ => ends_command)]
  constructor
  · rintro (⟨fault, rfl, h⟩ | ⟨_, t', rfl, h⟩)
    · cases h
      exact .locked fault
    · rw [ends_orFail_exchange (fun _ _ => ends_command)] at h
      rcases h with ⟨fault, rfl, h⟩ | ⟨_, t'', rfl, h⟩
      · cases h
        exact .refused fault
      · cases h
        exact .started
  · rintro (fault | fault | _)
    · exact .inl ⟨fault, rfl, rfl⟩
    · refine .inr ⟨(), _, rfl, ?_⟩
      rw [ends_orFail_exchange (fun _ _ => ends_command)]
      exact .inl ⟨fault, rfl, rfl⟩
    · refine .inr ⟨(), _, rfl, ?_⟩
      rw [ends_orFail_exchange (fun _ _ => ends_command)]
      exact .inr ⟨(), [], rfl, .done _⟩

theorem resolve_stale {outcome : Outcome} (h : outcome.needsErase = true) :
    (p.compared outcome).resolve cfg = (p.compared outcome).erase cfg := if_pos h

theorem resolve_fresh {outcome : Outcome} (h : outcome.needsErase = false) :
    (p.compared outcome).resolve cfg = (p.compared outcome).cleared.write cfg := by
  have hlast : ¬(p.compared outcome).engine.last.needsErase = true := by
    simpa [compared, mapEngine] using h
  rw [resolve, if_neg hlast]
  simp only [cleared, programming, mapEngine]

theorem ends_work : Ends (p.work cfg) t (k, q) ↔ Works cfg p t k q := by
  rw [work]
  by_cases hstage : p.engine.stage = .erasing
  swap
  · rw [if_neg hstage, ends_write]
    constructor
    · exact .resumed hstage
    · intro h
      cases h with
      | resumed _ writes => exact writes
      | starved stage _ => exact absurd stage hstage
      | unread stage _ _ => exact absurd stage hstage
      | stale stage _ _ _ => exact absurd stage hstage
      | fresh stage _ _ _ => exact absurd stage hstage
  rw [if_pos hstage, examine]
  cases hhead : p.buffer.head? with
  | none =>
      constructor
      · intro h
        cases h
        exact .starved hstage hhead
      · intro h
        cases h with
        | starved _ _ => exact .done _
        | unread _ head _ => exact absurd (hhead.symm.trans head) (by simp)
        | stale _ head _ _ => exact absurd (hhead.symm.trans head) (by simp)
        | fresh _ head _ _ => exact absurd (hhead.symm.trans head) (by simp)
        | resumed stage _ => exact absurd hstage stage
  | some block =>
      rw [ends_orFail_exchange (fun _ _ => ends_command)]
      constructor
      · rintro (⟨fault, rfl, h⟩ | ⟨outcome, t', rfl, h⟩)
        · cases h
          exact .unread hstage hhead fault
        · change Ends ((p.compared outcome).resolve cfg) t' (k, q) at h
          cases hneed : outcome.needsErase with
          | true =>
              rw [resolve_stale hneed, ends_erase] at h
              exact .stale hstage hhead hneed h
          | false =>
              rw [resolve_fresh hneed, ends_write] at h
              exact .fresh hstage hhead hneed h
      · intro h
        cases h with
        | starved _ empty => exact absurd (hhead.symm.trans empty) (by simp)
        | unread _ head fault =>
            cases hhead.symm.trans head
            exact .inl ⟨fault, rfl, rfl⟩
        | stale _ head needed erases =>
            cases hhead.symm.trans head
            rw [← ends_erase, ← resolve_stale needed] at erases
            exact .inr ⟨_, _, rfl, erases⟩
        | fresh _ head spared writes =>
            cases hhead.symm.trans head
            rw [← ends_write, ← resolve_fresh spared] at writes
            exact .inr ⟨_, _, rfl, writes⟩
        | resumed stage _ => exact absurd hstage stage

theorem tick_of_attended (h : p.Attended) : p.tick cfg = p.opened.proceed cfg := by
  rw [tick, opened]
  by_cases hstage : p.engine.stage = .idle
  · rw [if_neg (not_not_intro hstage), if_neg (h.resolve_left (not_not_intro hstage)),
      if_pos hstage]
  · rw [if_pos hstage, if_neg hstage]

theorem ends_tick : Ends (p.tick cfg) t (k, q) ↔ Ticks cfg p t k q := by
  by_cases hattended : p.Attended
  swap
  · have hrest : p.engine.stage = .idle ∧ p.buffer.head? = none := by
      simpa only [Attended, not_or, not_not] using hattended
    rw [tick, if_neg (not_not_intro hrest.1), if_pos hrest.2]
    constructor
    · intro h
      cases h
      exact .resting hrest.1 hrest.2
    · intro h
      cases h with
      | resting _ _ => exact .done _
      | abandoned attended _ => exact absurd attended hattended
      | unanswered attended _ _ => exact absurd attended hattended
      | busy attended _ _ => exact absurd attended hattended
      | worked attended _ _ _ => exact absurd attended hattended
  have hresting : ¬(p.engine.stage = .idle ∧ p.buffer.head? = none) := fun h =>
    hattended.elim (fun hs => hs h.1) (fun he => he h.2)
  rw [tick_of_attended hattended, proceed]
  by_cases hspent : p.opened.engine.attempts = 0
  · rw [if_pos hspent, abandon, reboot, command, ask_bind, ends_ask]
    constructor
    · rintro ⟨_, _, rfl, h⟩
      cases h
      exact .abandoned hattended hspent
    · intro h
      cases h with
      | resting stage empty => exact (hresting ⟨stage, empty⟩).elim
      | abandoned _ _ => exact ⟨(), [], rfl, .done _⟩
      | unanswered _ left _ => exact absurd hspent left
      | busy _ left _ => exact absurd hspent left
      | worked _ left _ _ => exact absurd hspent left
  rw [if_neg hspent, select, command, ask_bind, ends_ask]
  constructor
  · rintro ⟨_, t', rfl, h⟩
    rw [done_bind, ends_orFail_exchange (fun _ _ => ends_command)] at h
    rcases h with ⟨fault, rfl, h⟩ | ⟨status, t'', rfl, h⟩
    · cases h
      exact .unanswered hattended hspent fault
    · by_cases hbusy : (status &&& busyBit != 0) = true
      · rw [if_pos hbusy] at h
        cases h
        exact .busy hattended hspent hbusy
      · rw [if_neg hbusy, ends_work] at h
        exact .worked hattended hspent (Bool.not_eq_true _ ▸ hbusy) h
  · intro h
    cases h with
    | resting stage empty => exact (hresting ⟨stage, empty⟩).elim
    | abandoned _ spent => exact absurd spent hspent
    | unanswered _ _ fault =>
        refine ⟨(), _, rfl, ?_⟩
        rw [done_bind, ends_orFail_exchange (fun _ _ => ends_command)]
        exact .inl ⟨fault, rfl, rfl⟩
    | busy _ _ working =>
        refine ⟨(), _, rfl, ?_⟩
        rw [done_bind, ends_orFail_exchange (fun _ _ => ends_command)]
        exact .inr ⟨_, _, rfl, by rw [if_pos working]; exact .done _⟩
    | worked _ _ ready works =>
        refine ⟨(), _, rfl, ?_⟩
        rw [done_bind, ends_orFail_exchange (fun _ _ => ends_command)]
        exact .inr ⟨_, _, rfl, by rw [if_neg (by simp [ready]), ends_work]; exact works⟩

end Pipeline

end DfuLoader
