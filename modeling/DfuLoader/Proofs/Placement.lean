import DfuLoader.Proofs.Effort
import DfuLoader.Proofs.FlowControl

/-!
# Blocks at their addresses

The receiving cursor says where a byte from the host belongs, and the window cursor where
the block at the head of the queue goes. Nothing ties a block to its address but the order
of the queue, so the two agree as long as every window that leaves the buffer moves the
window cursor on. A commit does, giving a window up does not: from then on, until the zone
is loaded again, every block goes to the window of one that came before it
(`inPlace_iff`). Zones of more than a window are exposed to that (`placesBlocks_iff`).
-/

namespace DfuLoader

namespace Command

def TakesBytes : Command → Prop
  | .verify _ _ | .program _ _ => True
  | _ => False

/-- With the addresses at which the bytes of the content were accepted, the command takes
each of its bytes to one of these. -/
def InPlace (stamps : List Nat) (content : Bytes) : Command → Prop
  | .verify start bytes | .program start bytes =>
      ∀ i byte, bytes[i]? = some byte →
        ∃ j : Nat, stamps[j]? = some (start.toNat + i) ∧ content[j]? = some byte
  | _ => True

end Command

def Tick.givenUp : Tick → Nat
  | .abandoned => 1
  | _ => 0

theorem Tick.released_eq (k : Tick) : k.released = k.passed + k.givenUp := by cases k <;> rfl

namespace Pipeline

variable {cfg : Config} {z : Zone} {m n given : Nat} {stamps : List Nat} {p q : Pipeline}
  {t : List Exchange} {k : Tick}

/-- The bytes of the buffer were accepted one behind the other, the first at the address
behind the windows that have left the buffer. Of these, `m` were committed. -/
structure Stamped (z : Zone) (m given : Nat) (stamps : List Nat) (p : Pipeline) : Prop where
  tracks : p.Tracks z m (m + given)
  stamps_eq : stamps =
    List.range' (z.start.toNat + 4096 * (m + given)) p.buffer.content.length

/-- Bytes of the block at the head of the queue, taken to their place in the window that
is worked on. -/
theorem Stamped.takes_iff (h : Stamped z m given stamps p) {block : Bytes}
    (head : p.buffer.head? = some block) {start : Address} {offset length : Nat}
    (start_eq : start.toNat = z.windowStart m + offset)
    (stop_le : start.toNat + length ≤ z.windowStart (m + 1)) (some_left : 0 < length) :
    (∀ i byte, ((block.drop offset).take length)[i]? = some byte →
      ∃ j : Nat, stamps[j]? = some (start.toNat + i) ∧ p.buffer.content[j]? = some byte) ↔
        given = 0 := by
  obtain ⟨hpos, hblock⟩ := h.tracks.ring.head?_eq_some head
  have hwindow := Zone.windowStart_eq (h.tracks.window_lt hpos)
  have hnext := z.windowStart_succ m
  have hcontent := h.tracks.ring.content_length
  rw [blockSize] at hblock hcontent
  have hlength : block.length = 4096 := by
    rw [hblock, List.length_take]
    omega
  constructor
  · intro hplaced
    have hlt : offset < block.length := by omega
    have hfirst : ((block.drop offset).take length)[0]? = some block[offset] := by
      rw [List.getElem?_take_of_lt some_left, List.getElem?_drop, Nat.add_zero,
        List.getElem?_eq_getElem hlt]
    obtain ⟨j, hstamp, -⟩ := hplaced 0 _ hfirst
    have hmem := List.mem_of_getElem? hstamp
    rw [h.stamps_eq, List.mem_range'_1] at hmem
    omega
  · rintro rfl i byte hbyte
    have hi : i < length := by
      by_contra hge
      rw [List.getElem?_take_eq_none (not_lt.1 hge)] at hbyte
      cases hbyte
    rw [List.getElem?_take_of_lt hi, List.getElem?_drop, hblock,
      List.getElem?_take_of_lt (by omega)] at hbyte
    have hin := (List.getElem?_eq_some_iff.1 hbyte).1
    refine ⟨offset + i, ?_, hbyte⟩
    rw [h.stamps_eq, List.getElem?_range' hin, Nat.one_mul, start_eq, hwindow, Nat.add_zero]
    congr 1
    omega

/-- A block that is taken to the window that is worked on gets to its address exactly if
no window was given up. -/
theorem Stamped.inPlace_iff (h : Stamped z m given stamps p) {c : Command}
    (hon : OnWindow z m p.buffer c) (hc : c.TakesBytes) :
    c.InPlace stamps p.buffer.content ↔ given = 0 := by
  cases hon with
  | writeEnable => exact hc.elim
  | erase _ _ => exact hc.elim
  | verify head start_eq stop_eq =>
      have hpos := (h.tracks.ring.head?_eq_some head).1
      have hlt := Zone.windowStart_lt_succ_iff.2 (h.tracks.window_lt hpos)
      have hstart : _ = z.windowStart m + 0 := start_eq
      have hiff := h.takes_iff head hstart stop_eq.le (by omega)
      rwa [List.drop_zero] at hiff
  | program head start_eq stop_le some_left => exact h.takes_iff head start_eq stop_le some_left

theorem Ticks.inPlace_iff (h : Ticks cfg p t k q) (hp : Stamped z m given stamps p)
    {e : Exchange} (he : e ∈ t) (hc : e.command.TakesBytes) :
    e.command.InPlace stamps p.buffer.content ↔ given = 0 := by
  rcases h.exchanges hp.tracks.steady with rfl | rfl | ⟨status, works, rfl, hworks⟩
  · cases he
  · rw [List.mem_singleton] at he
    subst he
    exact hc.elim
  · rcases List.mem_cons.1 he with rfl | he
    · exact hc.elim
    rcases List.mem_cons.1 he with rfl | he
    · exact hc.elim
    exact hp.inPlace_iff (hworks e he) hc

theorem Ticks.content_length (h : Ticks cfg p t k q) (hp : p.Tracks z m n) :
    q.buffer.content.length = p.buffer.content.length - 4096 * k.released := by
  have hbuffer := h.leaves.buffer_eq
  by_cases hk : k.released = 1
  · rw [if_pos hk] at hbuffer
    have hpos : 0 < p.buffer.committed := by
      rcases h.attended_or with hattended | ⟨-, rfl, -⟩
      · exact hp.committed_pos hattended
      · cases hk
    rw [hbuffer, hp.ring.content_pop hpos, List.length_drop, hk, blockSize, Nat.mul_one]
  · have hzero : k.released = 0 := by cases k <;> simp_all [Tick.released]
    rw [hbuffer, if_neg hk, hzero, Nat.mul_zero, Nat.sub_zero]

/-- A window that leaves the buffer takes its addresses with it. -/
theorem Ticks.stamped (h : Ticks cfg p t k q) (hp : Stamped z m given stamps p) :
    Stamped z (m + k.passed) (given + k.givenUp) (stamps.drop (4096 * k.released)) q := by
  have hcount : m + k.passed + (given + k.givenUp) = m + given + k.released := by
    rw [k.released_eq]
    omega
  refine ⟨hcount ▸ h.tracks hp.tracks, ?_⟩
  rw [hp.stamps_eq, List.drop_range', h.content_length hp.tracks, hcount]
  congr 1
  omega

end Pipeline

namespace Session

open Dialogue Pipeline

variable {cfg : Config} {zone : Zone} {m given : Nat} {stamps : List Nat} {s s' : Session}
  {t : List Exchange} {k : Tick}

/-- The addresses of the bytes that came behind those in the buffer, from the receiving
cursor on. -/
def stamp (s s' : Session) : List Nat :=
  List.range' s.engine.receiveAt.toNat (s'.buffer.content.length - s.buffer.content.length)

/-- Where there is something to accept, or a block under way, the receiving cursor is
right behind the bytes of the buffer. -/
theorem receiveAt_eq {n : Nat} (h : s.Tracks zone m n)
    (hin : s.engine.receiveAt.toNat < zone.stop.toNat ∨ 0 < s.buffer.fill) :
    s.engine.receiveAt.toNat = zone.start.toNat + 4096 * n + s.buffer.content.length := by
  have hreceive := h.receive_eq
  have hpending := h.pending
  have hlength := h.ring.content_length
  rw [Zone.limit] at hreceive
  rw [blockSize] at hlength
  rcases hin with hlt | hfill
  · omega
  · have hinside := hpending hfill
    omega

/-- What comes into the buffer at the receiving cursor is stamped with its addresses. -/
theorem stamped_accept (h : s.Stamped zone m given stamps)
    (htracks : s'.Tracks zone m (m + given))
    (hle : s.buffer.content.length ≤ s'.buffer.content.length)
    (hin : s.buffer.content.length < s'.buffer.content.length →
      s.engine.receiveAt.toNat < zone.stop.toNat ∨ 0 < s.buffer.fill) :
    s'.Stamped zone m given (stamps ++ s.stamp s') := by
  refine ⟨htracks, ?_⟩
  rw [h.stamps_eq, stamp]
  by_cases hlt : s.buffer.content.length < s'.buffer.content.length
  · rw [receiveAt_eq h.tracks (hin hlt), List.range'_append_1]
    congr 1
    omega
  · have heq : s'.buffer.content.length = s.buffer.content.length := by omega
    rw [heq, Nat.sub_self, List.range'_zero, List.append_nil]

theorem stamped_same (h : s.Stamped zone m given stamps) (hsame : s'.toPipeline = s.toPipeline) :
    s'.Stamped zone m given (stamps ++ s.stamp s') := by
  refine stamped_accept h (hsame ▸ h.tracks) (by rw [hsame]) fun hlt => ?_
  rw [hsame] at hlt
  exact absurd hlt (lt_irrefl _)

theorem content_length_commitTail (h : s.buffer.WellFormed) :
    s.buffer.content.length ≤ s.commitTail.buffer.content.length ∧
      (s.buffer.content.length < s.commitTail.buffer.content.length → 0 < s.buffer.fill) := by
  by_cases hfill : s.buffer.fill = 0
  · rw [commitTail_of_fill_eq_zero hfill]
    exact ⟨le_refl _, fun hlt => absurd hlt (lt_irrefl _)⟩
  · rw [commitTail_of_fill_ne_zero h hfill]
    have hcontent := h.toLaid.content_close (fill_pos_committed_lt h hfill)
    refine ⟨?_, fun _ => Nat.pos_of_ne_zero hfill⟩
    change _ ≤ s.buffer.close.content.length
    rw [hcontent, List.length_append]
    exact Nat.le_add_right _ _

theorem stamped_commitTail (h : s.Stamped zone m given stamps) :
    s.commitTail.Stamped zone m given (stamps ++ s.stamp s.commitTail) := by
  obtain ⟨hle, hin⟩ := content_length_commitTail h.tracks.ring
  exact stamped_accept h (tracks_commitTail h.tracks) hle fun hlt => .inr (hin hlt)

theorem stamped_commitImageTail (h : s.Stamped zone m given stamps) :
    s.commitImageTail.Stamped zone m given (stamps ++ s.stamp s.commitImageTail) :=
  commitImageTail_of (P := fun s' => s'.Stamped zone m given (stamps ++ s.stamp s'))
    (stamped_commitTail h) (stamped_same h rfl)

theorem content_length_closedIfShort (h : s.buffer.WellFormed) (length : Nat) :
    s.buffer.content.length ≤ (s.closedIfShort cfg length).buffer.content.length :=
  closedIfShort_of (P := fun s' => s.buffer.content.length ≤ s'.buffer.content.length)
    (content_length_commitTail h).1 (le_refl _) length

theorem Downloads.stamped {bytes : Bytes} {x : Except SessionError Unit}
    (h' : Downloads cfg s bytes x s') (h : s.Stamped zone m given stamps) :
    s'.Stamped zone m given (stamps ++ s.stamp s') := by
  cases h' with
  | ended none_left => exact stamped_same h rfl
  | overflowed some_left past => exact stamped_same h rfl
  | crowded some_left inside full => exact stamped_same h rfl
  | @taken some_left receiveAt buffer inside receiveAt_eq append =>
      have hreceived := tracks_received h.tracks some_left inside receiveAt_eq append
      have hlength := List.length_pos_iff.2 some_left
      refine stamped_accept h (tracks_closedIfShort hreceived _) ?_ fun _ => .inl ?_
      · have hclosed : buffer.content.length ≤
            ((s.received buffer receiveAt).closedIfShort cfg bytes.length).buffer.content.length :=
          content_length_closedIfShort hreceived.ring bytes.length
        refine le_trans ?_ hclosed
        rw [(h.tracks.ring.append append).2, List.length_append]
        exact Nat.le_add_right _ _
      · rw [h.tracks.steady.zoneEnd_eq] at inside
        omega

/-- What happens between a load of the zone and the next, as far as the pipeline sees it:
the session, the addresses at which the bytes in its buffer were accepted, and the number
of windows that were given up. -/
inductive Carries (cfg : Config) (zone : Zone) : Session → List Nat → Nat → Prop
  | loaded {s s' : Session} {alt : UInt8} (reachable : Reachable cfg s)
      (known : cfg.zones.get? alt = some zone) (selected : s.selectAlt cfg alt = some s') :
      Carries cfg zone s' [] 0
  | rewound {s : Session} {stamps : List Nat} {given : Nat}
      (carries : Carries cfg zone s stamps given)
      (empty : s.buffer.isEmpty = true) : Carries cfg zone (s.rewind cfg) [] 0
  | aside {s s' : Session} {stamps : List Nat} {given : Nat}
      (carries : Carries cfg zone s stamps given)
      (pipeline_eq : s'.toPipeline = s.toPipeline) (alt_eq : s'.alt = s.alt) :
      Carries cfg zone s' stamps given
  | download {s s' : Session} {stamps : List Nat} {given : Nat} {bytes : Bytes}
      {x : Except SessionError Unit} (carries : Carries cfg zone s stamps given)
      (taken : s.download cfg bytes = (x, s')) :
      Carries cfg zone s' (stamps ++ s.stamp s') given
  | upload {s s' : Session} {stamps : List Nat} {given room requested : Nat} {t : List Exchange}
      {x : Except SessionError Bytes} (carries : Carries cfg zone s stamps given)
      (ends : Ends (s.upload room requested) t (x, s')) : Carries cfg zone s' stamps given
  | close {s : Session} {stamps : List Nat} {given : Nat}
      (carries : Carries cfg zone s stamps given) :
      Carries cfg zone s.commitImageTail (stamps ++ s.stamp s.commitImageTail) given
  | tick {s : Session} {stamps : List Nat} {given : Nat} {t : List Exchange} {k : Tick}
      {p : Pipeline} (carries : Carries cfg zone s stamps given)
      (ends : Ends (s.toPipeline.tick cfg) t (k, p)) :
      Carries cfg zone (s.withPipeline p) (stamps.drop (4096 * k.released)) (given + k.givenUp)

/-- No block is taken to another address than its own. -/
def PlacesBlocks (cfg : Config) (zone : Zone) : Prop :=
  ∀ {s : Session} {stamps : List Nat} {given : Nat} {t : List Exchange} {k : Tick} {p : Pipeline},
    Carries cfg zone s stamps given → Ends (s.toPipeline.tick cfg) t (k, p) →
    ∀ e ∈ t, e.command.InPlace stamps s.buffer.content

theorem Downloads.alt_eq {bytes : Bytes} {x : Except SessionError Unit}
    (h : Downloads cfg s bytes x s') : s'.alt = s.alt := by
  rw [h.frame]

theorem Uploads.alt_eq {room requested : Nat} {x : Except SessionError Bytes}
    (h : Uploads s room requested t x s') : s'.alt = s.alt := by
  cases h <;> rfl

theorem Carries.known (h : Carries cfg zone s stamps given) :
    cfg.zones.get? s.alt = some zone := by
  induction h with
  | loaded reachable known selected =>
      obtain ⟨_, -, rfl⟩ := selectAlt_eq_some_iff.1 selected
      exact known
  | rewound _ _ ih => exact ih
  | aside _ _ alt_eq ih => rw [alt_eq, ih]
  | download _ taken ih => rw [(downloads_of_eq taken).alt_eq, ih]
  | upload _ ends ih => rw [(uploads_of_ends ends).alt_eq, ih]
  | @close s _ _ _ ih => rw [s.commitImageTail_fields.1, ih]
  | tick _ _ ih => exact ih

theorem stamped_loaded (hengine : s.engine = .loaded zone cfg.maxAttempts)
    (hring : s.buffer.WellFormed) (hempty : s.buffer.isEmpty = true) :
    s.Stamped zone 0 0 [] := by
  have htracks := tracks_loaded zone cfg.maxAttempts hring hempty
  rw [← hengine] at htracks
  obtain ⟨hcommitted, hfill⟩ := BlockRing.isEmpty_iff.1 hempty
  refine ⟨htracks, ?_⟩
  rw [hring.content_length, hcommitted, hfill, Nat.zero_mul, List.range'_zero]

theorem Carries.stamped (h : Carries cfg zone s stamps given) :
    ∃ m, s.Stamped zone m given stamps := by
  induction h with
  | loaded reachable known selected =>
      obtain ⟨_, hknown, rfl⟩ := selectAlt_eq_some_iff.1 selected
      cases known.symm.trans hknown
      have hring := reachable.located.wellFormed.clear
      exact ⟨0, stamped_loaded rfl hring (BlockRing.isEmpty_clear _)⟩
  | @rewound s _ _ carries empty ih =>
      obtain ⟨m, hm⟩ := ih
      have hengine : (s.rewind cfg).engine = .loaded zone cfg.maxAttempts := by
        simp only [Session.rewind, carries.known]
      exact ⟨0, stamped_loaded (s := s.rewind cfg) hengine hm.tracks.ring empty⟩
  | aside _ pipeline_eq _ ih =>
      rw [pipeline_eq]
      exact ih
  | download _ taken ih =>
      obtain ⟨m, hm⟩ := ih
      exact ⟨m, (downloads_of_eq taken).stamped hm⟩
  | upload _ ends ih =>
      obtain ⟨m, hm⟩ := ih
      cases uploads_of_ends ends with
      | finished none_left => exact ⟨m, hm⟩
      | unread some_left fault => exact ⟨m, hm⟩
      | read some_left bytes => exact ⟨m, tracks_uploaded hm.tracks some_left, hm.stamps_eq⟩
  | close _ ih =>
      obtain ⟨m, hm⟩ := ih
      exact ⟨m, stamped_commitImageTail hm⟩
  | tick _ ends ih =>
      obtain ⟨m, hm⟩ := ih
      exact ⟨_, (ends_tick.1 ends).stamped hm⟩

theorem Carries.attempts_le (h : Carries cfg zone s stamps given) :
    s.engine.attempts.toNat ≤ cfg.maxAttempts.toNat := by
  induction h with
  | loaded reachable known selected =>
      obtain ⟨_, -, rfl⟩ := selectAlt_eq_some_iff.1 selected
      exact le_refl _
  | @rewound s _ _ carries empty ih =>
      have hengine : (s.rewind cfg).engine = .loaded zone cfg.maxAttempts := by
        simp only [Session.rewind, carries.known]
      rw [hengine]
      exact le_refl _
  | aside _ pipeline_eq _ ih => rwa [pipeline_eq]
  | download carries taken ih =>
      obtain ⟨m, hm⟩ := carries.stamped
      rwa [((downloads_of_eq taken).keeps hm.tracks.ring).attempts_eq]
  | upload _ ends ih => rwa [(uploads_of_ends ends).keeps.attempts_eq]
  | @close s _ _ _ ih => rwa [s.keeps_commitImageTail.attempts_eq]
  | tick _ ends ih =>
      have hle := (ends_tick.1 ends).attempts_le
      rwa [max_eq_right ih] at hle

theorem Carries.inPlace_iff (h : Carries cfg zone s stamps given) {p : Pipeline}
    (ends : Ends (s.toPipeline.tick cfg) t (k, p)) {e : Exchange} (he : e ∈ t)
    (hc : e.command.TakesBytes) : e.command.InPlace stamps s.buffer.content ↔ given = 0 := by
  obtain ⟨m, hm⟩ := h.stamped
  exact (ends_tick.1 ends).inPlace_iff hm he hc

/-! All that a session does while the zone stays loaded is of this kind. -/

def Carried (cfg : Config) (zone : Zone) (e : Exchange) : Prop :=
  ∃ (s : Session) (stamps : List Nat) (given : Nat) (t : List Exchange) (k : Tick) (p : Pipeline),
    Carries cfg zone s stamps given ∧ Ends (s.toPipeline.tick cfg) t (k, p) ∧ e ∈ t

theorem Steps.carries (h : Steps cfg s t k s')
    (hs : ∃ stamps given, Carries cfg zone s stamps given) :
    (∀ e ∈ t, e.command.TakesBytes → Carried cfg zone e) ∧
      ∃ stamps given, Carries cfg zone s' stamps given := by
  obtain ⟨stamps, given, hs⟩ := hs
  cases h with
  | step ticks =>
      have hends := ends_tick.2 ticks
      exact ⟨fun e he _ => ⟨_, _, _, _, _, _, .close hs, hends, he⟩, _, _, .tick (.close hs) hends⟩

def Operation.KeepsZone : Operation → Prop
  | .configured | .selectAlt _ | .busReset => False
  | _ => True

theorem Performs.carried {limit : Nat} {op : Operation} {r : Option (Answer × Session)}
    (h : Performs cfg limit s op t r) (hs : Carries cfg zone s stamps given) :
    ∀ e ∈ t, e.command.TakesBytes → Carried cfg zone e := by
  by_cases hop : op.IsUpload
  · cases h with
    | upload uploads =>
        cases uploads with
        | finished none_left => exact List.forall_mem_nil _
        | unread some_left fault =>
            exact List.forall_mem_cons.2 ⟨False.elim, List.forall_mem_singleton.2 False.elim⟩
        | read some_left bytes =>
            exact List.forall_mem_cons.2 ⟨False.elim, List.forall_mem_singleton.2 False.elim⟩
    | _ => exact hop.elim
  · exact h.trace (I := fun s => ∃ stamps given, Carries cfg zone s stamps given)
      (P := fun t => ∀ e ∈ t, e.command.TakesBytes → Carried cfg zone e) ⟨_, _, hs⟩ hop
      (List.forall_mem_nil _) (List.forall_mem_singleton.2 False.elim)
      (fun h h' => List.forall_mem_append.2 ⟨h, h'⟩)
      (fun _ _ hp ha ⟨_, _, hs⟩ => ⟨_, _, .aside hs hp ha⟩) (fun steps hs => steps.carries hs)

theorem Reports.carries {limit : Nat} {report : StatusReport}
    (h : Reports cfg limit s t (some (report, s'))) (hs : Carries cfg zone s stamps given) :
    ∃ stamps given, Carries cfg zone s' stamps given := by
  have hidle : Carries cfg zone { s with state := .idle } stamps given := .aside hs rfl rfl
  cases h with
  | ready state free => exact ⟨_, _, .aside hs rfl rfl⟩
  | crowded state full => exact ⟨_, _, hs⟩
  | drained state policy drains =>
      obtain ⟨⟨_, _, hdrained⟩, hempty⟩ :=
        drains.preserves (P := fun s => ∃ stamps given, Carries cfg zone s stamps given)
          (fun steps hs => (steps.carries hs).2) ⟨_, _, hidle⟩ rfl
      exact ⟨_, _, .rewound hdrained hempty⟩
  | finished state policy empty =>
      exact ⟨_, _, .rewound (.aside (.close hs) rfl rfl) empty⟩
  | manifesting state policy queued => exact ⟨_, _, .close hs⟩
  | other sync manifest => exact ⟨_, _, hs⟩

theorem Carries.perform {limit : Nat} {op : Operation} {a : Answer}
    (hs : Carries cfg zone s stamps given) (hop : op.KeepsZone)
    (hends : Ends (s.perform cfg limit op) t (some (a, s'))) :
    ∃ stamps given, Carries cfg zone s' stamps given := by
  cases performs_of_ends hends with
  | download downloads =>
      cases hends
      exact ⟨_, _, .download hs rfl⟩
  | upload uploads =>
      rw [Session.perform, ends_bind] at hends
      obtain ⟨_, _, ⟨x, s''⟩, -, hupload, hends⟩ := hends
      cases hends
      exact ⟨_, _, .upload hs hupload⟩
  | reported reports => exact reports.carries hs
  | ticked due steps => exact (steps.carries ⟨_, _, .aside hs rfl rfl⟩).2
  | configured _ _ | unconfigured | selected _ | unselected _ | unreset _ | reset _ =>
      exact hop.elim
  | allowed _ _ | refused _ | fail _ | detach | clearStatus | getState | abort | polled _
  | detached _ | throttled _ => exact ⟨_, _, .aside hs rfl rfl⟩

/-! Where no window is given up before another. -/

theorem inPlace_of_not_takesBytes {c : Command} (hc : ¬c.TakesBytes) (content : Bytes) :
    c.InPlace stamps content := by
  cases c with
  | verify start bytes => exact absurd trivial hc
  | program start bytes => exact absurd trivial hc
  | select | readStatus | read | writeEnable | erase | vendorIn | vendorOut | reboot => trivial

theorem placesBlocks_of_maxAttempts (hmax : cfg.maxAttempts = 0) : PlacesBlocks cfg zone := by
  intro s stamps given t k p hcarries hends e he
  have hzero : s.toPipeline.opened.engine.attempts = 0 := by
    have hle := hcarries.attempts_le
    rw [hmax] at hle
    rw [attempts_opened]
    exact UInt8.toNat_inj.1 (Nat.le_zero.1 hle)
  cases ends_tick.1 hends with
  | resting stage empty => cases he
  | abandoned attended spent =>
      rw [List.mem_singleton] at he
      subst he
      trivial
  | unanswered attended left fault => exact absurd hzero left
  | busy attended left working => exact absurd hzero left
  | worked attended left ready works => exact absurd hzero left

/-- A zone of one window has no block behind one that was given up. -/
theorem placesBlocks_of_short (hshort : zone.stop.toNat - zone.start.toNat ≤ 4096) :
    PlacesBlocks cfg zone := by
  intro s stamps given t k p hcarries hends e he
  by_cases hc : e.command.TakesBytes
  swap
  · exact inPlace_of_not_takesBytes hc _
  obtain ⟨m, hm⟩ := hcarries.stamped
  rw [hcarries.inPlace_iff hends he hc]
  rcases (ends_tick.1 hends).attended_or with hattended | ⟨rfl, -, -⟩
  swap
  · cases he
  have hpos := hm.tracks.committed_pos hattended
  have hqueued := hm.tracks.queued hpos
  omega

/-! A run that gives a window up with another behind it. -/

/-- Any chip may fail to answer until the window is given up. -/
theorem Carries.abandons (h : Carries cfg zone s stamps given) (hstage : s.engine.stage = .idle)
    (hpos : 0 < s.buffer.committed) :
    ∃ s' stamps', Carries cfg zone s' stamps' (given + 1) ∧ s'.engine.stage = .idle ∧
      s'.engine.attempts = cfg.maxAttempts ∧ s'.buffer = s.buffer.pop := by
  generalize hattempts : s.engine.attempts.toNat = r
  induction r generalizing s stamps with
  | zero =>
      have hattended : s.Attended := .inr (BlockRing.head?_ne_none_iff.2 hpos)
      have hspent : s.opened.engine.attempts = 0 := by
        rw [attempts_opened]
        exact UInt8.toNat_inj.1 hattempts
      have hticks : Ticks cfg s.toPipeline _ .abandoned _ := .abandoned hattended hspent
      exact ⟨_, _, .tick h (ends_tick.2 hticks), rfl, rfl, congrArg BlockRing.pop (buffer_opened _)⟩
  | succ r ih =>
      have hattended : s.Attended := .inr (BlockRing.head?_ne_none_iff.2 hpos)
      have hleft : s.opened.engine.attempts ≠ 0 := by
        intro hzero
        rw [← attempts_opened, hzero] at hattempts
        cases hattempts
      have hticks : Ticks cfg s.toPipeline _ .failed _ := .unanswered hattended hleft .bus
      have hbuffer := buffer_opened s.toPipeline
      have hspent : (s.opened.mapEngine .endAttempt).engine.attempts.toNat = r := by
        refine (Engine.toNat_attempts_spendAttempt _).trans ?_
        rw [attempts_opened, hattempts]
        rfl
      obtain ⟨s', stamps', hs', hidle, hall, hpop⟩ :=
        ih (.tick h (ends_tick.2 hticks)) rfl (hbuffer ▸ hpos) hspent
      exact ⟨s', stamps', hs', hidle, hall, hpop.trans (congrArg BlockRing.pop hbuffer)⟩

theorem committed_commitTail_of_long (h : s.buffer.WellFormed)
    (hlong : 4096 < s.buffer.content.length) : s.commitTail.buffer.committed = 2 := by
  have hlength := h.content_length
  have hle := h.committed_le
  have hlt := h.fill_lt
  rw [blockSize] at hlength hlt
  by_cases hfill : s.buffer.fill = 0
  · rw [commitTail_of_fill_eq_zero hfill]
    omega
  · have hfree := fill_pos_committed_lt h hfill
    rw [commitTail_of_fill_ne_zero h hfill]
    change s.buffer.committed + 1 = 2
    omega

/-- Two blocks can be queued in a zone of more than one window. -/
theorem exists_queued (hzone : zone ∈ cfg.zones.zones)
    (hlong : 4096 < zone.stop.toNat - zone.start.toNat) :
    ∃ s stamps, Carries cfg zone s stamps 0 ∧ s.engine.stage = .idle ∧
      s.buffer.committed = 2 := by
  obtain ⟨alt, halt⟩ := ZoneTable.exists_get?_of_mem hzone
  let s₁ := (initial cfg).loaded cfg alt zone
  have h₁ : Carries cfg zone s₁ [] 0 :=
    .loaded .initial halt (selectAlt_eq_some_iff.2 ⟨zone, halt, rfl⟩)
  have hstamped : s₁.Stamped zone 0 0 [] :=
    stamped_loaded rfl BlockRing.wellFormed_empty.clear rfl
  have hbytes : (List.replicate 4097 (0 : UInt8)).length = 4097 := List.length_replicate
  generalize List.replicate 4097 (0 : UInt8) = bytes at hbytes
  have hsome : bytes ≠ [] := List.ne_nil_of_length_pos (by omega)
  have hinside : s₁.engine.receiveAt.toNat + bytes.length ≤ s₁.engine.zoneEnd.toNat := by
    change zone.start.toNat + bytes.length ≤ zone.stop.toNat
    omega
  have hroom : bytes.length ≤ BlockRing.empty.clear.room := by
    rw [hbytes]
    decide
  obtain ⟨receiveAt, buffer, inside, receiveAt_eq, append, hdownload⟩ :=
    exists_taken cfg hsome hinside hroom
  have h₂ := Carries.download h₁ hdownload
  have htracks := tracks_received hstamped.tracks hsome inside receiveAt_eq append
  obtain ⟨a, hengine⟩ := engine_closedIfShort cfg (s₁.received buffer receiveAt) bytes.length
  have hclosed :
      ((s₁.received buffer receiveAt).closedIfShort cfg bytes.length).Tracks zone 0 0 :=
    tracks_closedIfShort htracks _
  have hcontent : 4096 <
      ((s₁.received buffer receiveAt).closedIfShort cfg bytes.length).buffer.content.length := by
    refine lt_of_lt_of_le ?_ (content_length_closedIfShort htracks.ring bytes.length)
    change 4096 < buffer.content.length
    rw [(hstamped.tracks.ring.append append).2, List.length_append]
    omega
  let s₃ : Session := { (s₁.received buffer receiveAt).closedIfShort cfg bytes.length with
    endOfImage := true, state := .manifestSync }
  have h₃ : Carries cfg zone s₃.commitTail _ 0 :=
    .close (.download h₂ (download_nil cfg _))
  obtain ⟨a', hengine'⟩ := s₃.engine_commitTail
  refine ⟨s₃.commitTail, _, h₃, ?_, committed_commitTail_of_long hclosed.ring hcontent⟩
  rw [hengine']
  exact congrArg Engine.stage hengine

/-- The second block of a zone is compared with the first window once the block of that
was given up. -/
theorem not_placesBlocks (hmax : cfg.maxAttempts ≠ 0) (hzone : zone ∈ cfg.zones.zones)
    (hlong : 4096 < zone.stop.toNat - zone.start.toNat) : ¬PlacesBlocks cfg zone := by
  intro hplaces
  obtain ⟨s, stamps, hcarries, hidle, htwo⟩ := exists_queued hzone hlong
  obtain ⟨s', stamps', hgiven, hidle', hleft, hpop⟩ := hcarries.abandons hidle (by omega)
  have hpos : 0 < s'.buffer.committed := by
    rw [hpop, BlockRing.committed_pop]
    omega
  have hhead := BlockRing.head?_ne_none_iff.2 hpos
  obtain ⟨block, hblock⟩ := Option.ne_none_iff_exists'.1 hhead
  rw [← hleft] at hmax
  rw [← buffer_opened] at hblock
  have hticks : Ticks cfg s'.toPipeline _ .failed _ :=
    ticks_of_works (.inr hhead) hmax (.unread (stage_opened_of_idle hidle') hblock .bus)
  have hends := ends_tick.2 hticks
  have hmem := List.mem_append_right (s'.opened.greeting (.ok 0)) (List.mem_singleton_self
    ⟨.verify s'.opened.engine.windowAt (block.take s'.opened.engine.length), .error .bus⟩)
  have hplaced := hplaces hgiven hends _ hmem
  exact absurd ((hgiven.inPlace_iff hends hmem trivial).1 hplaced) (Nat.succ_ne_zero 0)

/-- A block that is taken to the chip gets to its address exactly if no window was given
up since the zone was loaded. So every block gets there, whatever happens, if the loader
gives up before it takes any, or if no block can come behind another. -/
theorem placesBlocks_iff (cfg : Config) (zone : Zone) :
    (∀ {s : Session} {stamps : List Nat} {given : Nat} {t : List Exchange} {k : Tick}
        {p : Pipeline}, Carries cfg zone s stamps given → Ends (s.toPipeline.tick cfg) t (k, p) →
      ∀ e ∈ t, e.command.TakesBytes →
        (e.command.InPlace stamps s.buffer.content ↔ given = 0)) ∧
      (PlacesBlocks cfg zone ↔ zone ∉ cfg.zones.zones ∨ cfg.maxAttempts = 0 ∨
        zone.stop.toNat - zone.start.toNat ≤ 4096) := by
  refine ⟨fun h hends _ he hc => h.inPlace_iff hends he hc, ?_, ?_⟩
  · intro hplaces
    by_contra hexposed
    push Not at hexposed
    obtain ⟨hzone, hmax, hlong⟩ := hexposed
    exact not_placesBlocks hmax hzone hlong hplaces
  · rintro (hunknown | hmax | hshort)
    · intro s stamps given t k p hcarries
      exact absurd (List.mem_of_getElem? hcarries.known) hunknown
    · exact placesBlocks_of_maxAttempts hmax
    · exact placesBlocks_of_short hshort

/-- The zone at the start of the reference board's flash has windows enough. -/
theorem not_placesBlocks_reference :
    ¬PlacesBlocks {} ⟨.internal, 0, 0x200000, "bootloader bitstream"⟩ := by
  have hzone : ⟨.internal, 0, 0x200000, "bootloader bitstream"⟩ ∈ ({} : Config).zones.zones := by
    simp [ZoneTable.reference]
  exact not_placesBlocks (by decide) hzone (by decide)

end Session

end DfuLoader
