import DfuLoader.Proofs.BlockQueue
import DfuLoader.Proofs.CommittedWindows
import DfuLoader.Proofs.Effort
import DfuLoader.Proofs.Integrity

/-!
# Runs of the engine

Between its ticks, anybody may drive the engine and its buffer: load a zone at any
moment, also in the middle of a window, put blocks into the buffer, take some out, and
move the cursors of the host's side. Whatever can be reached so is `Reached`, and the
states of a session are among it (`Session.Reachable.reached`).

The engine keeps the outcome of its last comparison over all of this, and commits a
window by it. A stale outcome never does: between two ticks it is only relied on while
a window is programmed, and then the window still needed that (`Engine.Steady`). So a
tick that commits has compared the window itself (`committed_verified`).
-/

namespace DfuLoader

open Dialogue

namespace Pipeline

/-- What an engine and its buffer can get to, with some replies of the board. -/
inductive Reached (cfg : Config) : Pipeline → Prop
  | unloaded (attempts : UInt8) : Reached cfg ⟨.unloaded attempts, .empty⟩
  | load {p : Pipeline} (reached : Reached cfg p) (zone : Zone) (attempts : UInt8) :
      Reached cfg (p.mapEngine fun _ => .loaded zone attempts)
  | operate {p : Pipeline} (reached : Reached cfg p) (op : BlockRing.Operation) :
      Reached cfg { p with buffer := (p.buffer.perform op).2 }
  | host {p : Pipeline} (reached : Reached cfg p) (receiveAt readAt : Address) :
      Reached cfg (p.mapEngine fun e => { e with receiveAt := receiveAt, readAt := readAt })
  | tick {p q : Pipeline} {t : List Exchange} {k : Tick} (reached : Reached cfg p)
      (ends : Ends (p.tick cfg) t (k, q)) : Reached cfg q

variable {cfg : Config} {p q : Pipeline} {t : List Exchange} {k : Tick}

theorem Reached.steady (h : Reached cfg p) : ∃ z m, p.engine.Steady z m := by
  induction h with
  | unloaded attempts => exact ⟨.vacant, 0, Engine.steady_loaded .vacant attempts⟩
  | load _ zone attempts _ => exact ⟨zone, 0, Engine.steady_loaded zone attempts⟩
  | operate _ op ih => exact ih
  | host _ receiveAt readAt ih =>
      obtain ⟨z, m, hp⟩ := ih
      exact ⟨z, m, (hp.withReceiveAt receiveAt).withReadAt readAt⟩
  | tick _ ends ih =>
      obtain ⟨z, m, hp⟩ := ih
      exact ⟨z, _, (ends_tick.1 ends).steady hp⟩

theorem Reached.standsFor (h : Reached cfg p) : ∃ queue, p.buffer.StandsFor queue := by
  induction h with
  | unloaded attempts => exact ⟨_, BlockRing.standsFor_empty⟩
  | load _ zone attempts ih => exact ih
  | operate _ op ih =>
      obtain ⟨queue, hp⟩ := ih
      exact ⟨_, (hp.perform op).2⟩
  | host _ receiveAt readAt ih => exact ih
  | tick _ ends ih =>
      obtain ⟨queue, hp⟩ := ih
      have hbuffer := (ends_tick.1 ends).leaves.buffer_eq
      split at hbuffer
      · exact ⟨_, hbuffer ▸ hp.pop⟩
      · exact ⟨queue, hbuffer ▸ hp⟩

theorem Writes.stage_ne_erasing (h : Writes cfg p t k q) (hp : p.engine.stage ≠ .erasing) :
    q.engine.stage ≠ .erasing := by
  cases h with
  | page due part head programs =>
      cases programs with
      | started => exact hp
      | locked _ | refused _ => exact fun hn => by cases hn
  | written _ | passed _ _ | starved _ _ _ => exact fun hn => by cases hn

/-- Of a window that is only compared nothing was programmed. -/
theorem Works.offset_of_erasing (h : Works cfg p t k q)
    (hp : p.engine.stage = .erasing → p.engine.offset = 0) (hq : q.engine.stage = .erasing) :
    q.engine.offset = 0 := by
  cases h with
  | stale stage head needed erases =>
      cases erases with
      | started => exact hp stage
      | locked _ | refused _ => cases hq
  | fresh stage head spared writes =>
      have hne := writes.stage_ne_erasing (by rw [stage_cleared]; exact fun hn => by cases hn)
      exact absurd hq hne
  | resumed stage writes => exact absurd hq (writes.stage_ne_erasing stage)
  | starved _ _ | unread _ _ _ => cases hq

theorem offset_opened (hp : p.engine.stage = .erasing → p.engine.offset = 0)
    (hstage : p.opened.engine.stage = .erasing) : p.opened.engine.offset = 0 := by
  by_cases hidle : p.engine.stage = .idle
  · rw [opened, if_pos hidle]
    rfl
  · rw [opened_of_not_idle hidle] at hstage ⊢
    exact hp hstage

theorem Reached.offset_of_erasing (h : Reached cfg p) :
    p.engine.stage = .erasing → p.engine.offset = 0 := by
  induction h with
  | unloaded attempts => exact fun hstage => by cases hstage
  | load _ zone attempts _ => exact fun hstage => by cases hstage
  | operate _ op ih => exact ih
  | host _ receiveAt readAt ih => exact ih
  | tick _ ends ih =>
      intro hstage
      cases ends_tick.1 ends with
      | resting _ _ => exact ih hstage
      | busy _ _ _ => exact offset_opened ih hstage
      | worked _ _ _ works => exact works.offset_of_erasing (offset_opened ih) hstage
      | abandoned _ _ | unanswered _ _ _ => cases hstage

end Pipeline

/-! Sessions drive the engine in no other way. -/

namespace Session

open Pipeline

variable {cfg : Config} {limit : Nat} {s s' : Session} {t : List Exchange}

theorem reached_commitTail (h : Reached cfg s.toPipeline) :
    Reached cfg s.commitTail.toPipeline := by
  rw [commitTail]
  split
  · exact h
  · cases hcommit : s.buffer.commit with
    | none => exact h
    | some buffer =>
        have hperform : (s.buffer.perform .commit).2 = buffer := by
          rw [BlockRing.perform, hcommit]
          rfl
        have hclosed := (h.operate .commit).host s.engine.paddedReceive s.engine.readAt
        rwa [hperform] at hclosed

theorem reached_commitImageTail (h : Reached cfg s.toPipeline) :
    Reached cfg s.commitImageTail.toPipeline :=
  commitImageTail_of (P := fun s => Reached cfg s.toPipeline) (reached_commitTail h) h

theorem Downloads.reached {bytes : Bytes} {x : Except SessionError Unit}
    (h : Downloads cfg s bytes x s') (hs : Reached cfg s.toPipeline) :
    Reached cfg s'.toPipeline := by
  cases h with
  | ended _ | overflowed _ _ | crowded _ _ _ => exact hs
  | @taken _ receiveAt buffer _ _ append =>
      have hperform : (s.buffer.perform (.append bytes)).2 = buffer := by
        rw [BlockRing.perform, append]
        rfl
      have hreceived := (hs.operate (.append bytes)).host receiveAt s.engine.readAt
      rw [hperform] at hreceived
      exact closedIfShort_of (s := s.received buffer receiveAt)
        (P := fun s => Reached cfg s.toPipeline) (reached_commitTail hreceived) hreceived
        bytes.length

theorem Uploads.reached {room requested : Nat} {x : Except SessionError Bytes}
    (h : Uploads s room requested t x s') (hs : Reached cfg s.toPipeline) :
    Reached cfg s'.toPipeline := by
  cases h with
  | finished _ | unread _ _ => exact hs
  | read _ _ => exact hs.host s.engine.receiveAt _

theorem Steps.reached {k : Tick} (h : Steps cfg s t k s') (hs : Reached cfg s.toPipeline) :
    Reached cfg s'.toPipeline := by
  cases h with
  | step ticks => exact (reached_commitImageTail hs).tick (ends_tick.2 ticks)

theorem reached_rewind (h : Reached cfg s.toPipeline) : Reached cfg (s.rewind cfg).toPipeline := by
  cases hzone : cfg.zones.get? s.alt with
  | none =>
      simp only [Session.rewind, hzone]
      exact h
  | some zone =>
      simp only [Session.rewind, hzone]
      exact h.load zone cfg.maxAttempts

theorem Reports.reached {report : StatusReport}
    (h : Reports cfg limit s t (some (report, s'))) (hs : Reached cfg s.toPipeline) :
    Reached cfg s'.toPipeline := by
  cases h with
  | drained state policy drains =>
      exact reached_rewind (drains.preserves (P := fun s => Reached cfg s.toPipeline)
        Steps.reached hs rfl).1
  | finished state policy empty => exact reached_rewind (reached_commitImageTail hs)
  | manifesting state policy queued => exact reached_commitImageTail hs
  | ready _ _ | crowded _ _ | other _ _ => exact hs

theorem Performs.reached {op : Operation} {a : Answer}
    (h : Performs cfg limit s op t (some (a, s'))) (hs : Reached cfg s.toPipeline) :
    Reached cfg s'.toPipeline := by
  cases h with
  | @configured zone _ _ | @selected _ zone _ =>
      exact (hs.operate .clear).load zone cfg.maxAttempts
  | reset state => exact (hs.operate .clear).load .vacant cfg.maxAttempts
  | download downloads => exact downloads.reached hs
  | upload uploads => exact uploads.reached hs
  | reported reports => exact reports.reached hs
  | ticked due steps => exact steps.reached hs
  | unconfigured | unselected _ | allowed _ _ | refused _ | fail _ | detach | clearStatus
  | getState | abort | unreset _ | polled _ | detached _ | throttled _ => exact hs

theorem Reachable.reached (h : Reachable cfg s) : Reached cfg s.toPipeline := by
  induction h with
  | initial => exact .unloaded cfg.maxAttempts
  | perform _ ends ih => exact (performs_of_ends ends).reached ih

end Session

/-! A commit. -/

theorem Engine.windowLength_le_length (e : Engine) {block : Bytes}
    (hblock : block.length = blockSize) : e.windowLength ≤ block.length := by
  rw [hblock, Engine.windowLength]
  exact Nat.min_le_left _ _

theorem Outcome.eq_same {o : Outcome} (herase : o.needsErase = false)
    (hprogram : o.needsProgram = false) : o = .same := by
  cases o with
  | same => rfl
  | erase | eraseProgram => cases herase
  | program => cases hprogram

namespace Pipeline

variable {cfg : Config} {z : Zone} {m : Nat} {p q : Pipeline} {t : List Exchange}

theorem window_opened (p : Pipeline) :
    p.opened.engine.windowAt = p.engine.windowAt ∧
      p.opened.engine.windowLength = p.engine.windowLength ∧
      p.opened.engine.chip = p.engine.chip := by
  rw [opened]
  split <;> exact ⟨rfl, rfl, rfl⟩

theorem length_opened (hp : p.engine.Steady z m) :
    p.opened.engine.length = p.engine.windowLength := by
  obtain ⟨hopened, hstage⟩ := steady_opened hp
  rw [hopened.length_eq hstage, p.window_opened.2.1]

/-- All that a tick asks for that commits. -/
theorem Ticks.exchanges_of_committed (h : Ticks cfg p t .committed q) (hp : p.engine.Steady z m) :
    ∃ block status, p.buffer.head? = some block ∧
      t = [⟨.select p.engine.chip, ()⟩, ⟨.readStatus, .ok status⟩,
        ⟨.verify p.engine.windowAt (block.take p.engine.windowLength), .ok .same⟩] ∧
      q.engine.length = p.engine.windowLength ∧ q.engine.attempts = cfg.maxAttempts := by
  obtain ⟨hopened, hstage⟩ := steady_opened hp
  obtain ⟨hwindow, -, hchip⟩ := p.window_opened
  have hlength := length_opened hp
  cases h with
  | @worked _ _ status _ _ _ _ works =>
      have hkept := works.length_of_committed
      have hattempts := works.attempts_of_committed
      obtain ⟨block, outcome, hhead, herase, hprogram, rfl⟩ :=
        works.compared_of_committed hopened hstage
      rw [buffer_opened] at hhead
      refine ⟨block, status, hhead, ?_, hkept.trans hlength, hattempts⟩
      rw [greeting, hchip, hwindow, hlength, Outcome.eq_same herase hprogram]
      rfl

/-- A tick that commits has asked for nothing but a comparison of its window with the block
at the head of the queue, and was told that they are the same. The block leaves the queue,
the window cursor moves on by the length of the window, and the next window has all
attempts. If the comparison was served by reading back, the chip stores the block. -/
theorem committed_verified (hp : Reached cfg p) (h : Ends (p.tick cfg) t (.committed, q)) :
    ∃ block status, p.buffer.queue = block :: q.buffer.queue ∧
      t = [⟨.select p.engine.chip, ()⟩, ⟨.readStatus, .ok status⟩,
        ⟨.verify p.engine.windowAt (block.take q.engine.length), .ok .same⟩] ∧
      q.engine.length = p.engine.windowLength ∧
      q.engine.windowAt.toNat = p.engine.windowAt.toNat + q.engine.length ∧
      q.engine.attempts = cfg.maxAttempts ∧
      ∀ f f' : Flash, f.Run t f' →
        f'.stored p.engine.chip p.engine.windowAt.toNat q.engine.length =
          block.take q.engine.length := by
  obtain ⟨z, m, hsteady⟩ := hp.steady
  obtain ⟨queue, hqueue⟩ := hp.standsFor
  have hticks := ends_tick.1 h
  obtain ⟨block, status, hhead, ht, hlength, hattempts⟩ := hticks.exchanges_of_committed hsteady
  have hpop : p.buffer.queue = block :: q.buffer.queue := by
    have hbuffer : q.buffer = p.buffer.pop := hticks.leaves.buffer_eq
    rw [← BlockRing.head?_queue] at hhead
    rw [hbuffer, hqueue.queue_pop]
    exact (List.cons_head?_tail hhead).symm
  have hend : q.engine.windowAt.toNat = p.engine.windowAt.toNat + q.engine.length := by
    rw [(hticks.steady hsteady).windowAt_eq, hlength, hsteady.windowLength_eq]
    rfl
  refine ⟨block, status, hpop, hlength ▸ ht, hlength, hend, hattempts, ?_⟩
  intro f f' hrun
  obtain ⟨block', hhead', hstored⟩ := hticks.stored_of_committed hsteady hrun
  obtain rfl : block = block' := Option.some.inj (hhead.symm.trans hhead')
  have hcut : z.windowStart (m + 1) - z.windowStart m = q.engine.length := by
    rw [← hsteady.windowLength_eq, ← hsteady.windowAt_eq, hlength, Nat.add_sub_cancel_left]
  have hblock : block.length = blockSize :=
    hqueue.length_block block (hpop ▸ List.mem_cons_self)
  have hle : q.engine.length ≤ block.length :=
    hlength ▸ p.engine.windowLength_le_length hblock
  rw [hcut, List.length_take, Nat.min_eq_left hle] at hstored
  rwa [hsteady.chip_eq, hsteady.windowAt_eq]

/-- Half an image that the chip of its zone stores already is committed by one tick. -/
theorem committed_verified_halfImage :
    ∃ (p q : Pipeline) (t : List Exchange) (f f' : Flash), Reached {} p ∧
      Ends (p.tick {}) t (.committed, q) ∧ f.Run t f' ∧ q.engine.windowAt = 0x100 ∧
      f'.stored .cartridge 0 0x100 = List.replicate 0x80 0x42 ++ List.replicate 0x80 0xff := by
  let f : Flash := ⟨.internal, fun _ x => if x < 0x80 then 0x42 else 0xff⟩
  let p := (Session.halfImage {}).commitImageTail.toPipeline
  have hreached : Reached {} p :=
    Session.reached_commitImageTail (Session.reachable_halfImage rfl).reached
  have hvalue : ((p.tick {}).run Flash.chips.withReadback f).1.1 = .committed ∧
      ((p.tick {}).run Flash.chips.withReadback f).1.2.engine.length = 0x100 := by decide +kernel
  have hblock : p.buffer.queue.map (List.take 0x100) =
      [List.replicate 0x80 0x42 ++ List.replicate 0x80 0xff] := by decide +kernel
  have hstart : p.engine.chip = .cartridge ∧ p.engine.windowAt = 0 := by decide +kernel
  have hrun := Flash.run_chips (p.tick {}) f
  generalize htick : (p.tick {}).run Flash.chips.withReadback f = r at hvalue hrun
  obtain ⟨⟨k, q⟩, f'⟩ := r
  obtain ⟨rfl, hlength⟩ := hvalue
  have hends := ends_of_run htick
  obtain ⟨block, status, hqueue, -, -, hend, -, hstored⟩ := committed_verified hreached hends
  have hstored' := hstored f f' hrun
  rw [hlength, hstart.2] at hend
  rw [hlength, hstart.1, hstart.2] at hstored'
  rw [hqueue, List.map_cons, List.cons.injEq] at hblock
  exact ⟨p, q, _, f, f', hreached, hends, hrun, UInt32.toNat_inj.1 hend, hstored'.trans hblock.1⟩

end Pipeline

end DfuLoader
