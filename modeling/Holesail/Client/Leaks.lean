import Holesail.Client.Callbacks
import Holesail.Client.Flush

/-!
# Drain contexts

`make_side` allocates a `DrainCtx` for each write of the pipe, and `drain_cb` frees it when hyperdht
acks the write. hyperdht acks nothing after `on_close`, so what is un-acked then is never freed.

The pipe counts bytes: it keeps reading as long as less than `kStreamHighWaterMark` of them is
un-acked, in however many writes. So this file says for which runs at most one context is lost:
those in which at most one write is un-acked whenever the stream closes.

## Main results

* `Tracked.next`: the contexts are those of the un-acked writes, event by event.
* `Tracked.live_step`: which events close the stream.
* `lost_le_one_iff_balanced`: when at most one context is lost.
-/

namespace Holesail

namespace HolesailClient

namespace Conn

open Run Ctx

variable {x : Ctx} {a : Answers}

/-! ## What is asked -/

/-- The stream takes what is read. -/
def Takes (c : Conn) : Event → Prop
  | .read (.data bytes) a => bytes ≠ [] ∧ c.stream = true ∧ 0 ≤ a.write
  | _ => False

instance (c : Conn) : (e : Event) → Decidable (c.Takes e)
  | .read (.data _) _ => inferInstanceAs (Decidable (_ ∧ _))
  | .read .eof _ | .read .error _ | .streamOpen _ | .streamData _ _ | .streamClose
  | .drained _ _ | .written _ _ | .closed => inferInstanceAs (Decidable False)

def Event.isAck : Event → Bool
  | .drained _ _ => true
  | _ => false

/-- hyperdht fires `on_close`: some time, or from inside the `hyperdht_stream_close` that an event
comes to. -/
def Closes (c : Conn) : Event → Prop
  | .streamClose => True
  | .read (.data bytes) a => a.sync = true ∧ bytes ≠ [] ∧ a.write < 0
  | .read .eof a | .read .error a => a.sync = true
  | .streamData data a =>
    a.sync = true ∧ data ≠ [] ∧ a.uv.write ≠ 0 ∧ ∃ p ∈ c.pipe, p.destroyed = false
  | .written status a =>
    a.sync = true ∧ ∃ p ∈ c.pipe, p.destroyed = false ∧
      (status ≠ 0 ∨ (p.streamClosed = true ∧ p.inflightWrites ≤ 1))
  | .streamOpen _ | .drained _ _ | .closed => False

instance (c : Conn) : (e : Event) → Decidable (c.Closes e)
  | .streamClose => inferInstanceAs (Decidable True)
  | .read (.data _) _ => inferInstanceAs (Decidable (_ ∧ _))
  | .read .eof _ | .read .error _ => inferInstanceAs (Decidable (_ = _))
  | .streamData _ _ => inferInstanceAs (Decidable (_ ∧ _ ∧ _ ∧ ∃ p ∈ c.pipe, _))
  | .written _ _ => inferInstanceAs (Decidable (_ ∧ ∃ p ∈ c.pipe, _))
  | .streamOpen _ | .drained _ _ | .closed => inferInstanceAs (Decidable False)

/-- The writes that hyperdht took and has not acked, after an event that finds `n` of them. -/
def unacked (c : Conn) (n : ℕ) (e : Event) : ℕ :=
  n + (if c.Takes e then 1 else 0) - (if e.isAck then 1 else 0)

/-- At most one write is un-acked whenever the stream closes; `n` are to begin with. -/
def Balanced : ℕ → Ctx → List Event → Prop
  | _, _, [] => True
  | n, x, e :: es => (x.conn.Closes e → n ≤ 1) ∧
      Balanced (x.conn.unacked n e) (step x e) es

instance : (n : ℕ) → (x : Ctx) → (es : List Event) → Decidable (Balanced n x es)
  | _, _, [] => inferInstanceAs (Decidable True)
  | n, x, e :: es =>
    have := instDecidableBalanced (x.conn.unacked n e) (step x e) es
    inferInstanceAs (Decidable ((x.conn.Closes e → n ≤ 1) ∧ _))

/-- The `DrainCtx`s that nothing will free: hyperdht has fired `on_close`. -/
def lost (c : Conn) : ℕ := if c.live then 0 else c.drains.length

/-! ## What leaves the contexts alone -/

/-- `y` has `n` more `DrainCtx`s than `x`, and a pipe if `x` has one. -/
def Adds (n : ℕ) (x y : Ctx) : Prop :=
  (x.conn.pipe.isSome → y.conn.pipe.isSome) ∧ y.conn.streamOpen = x.conn.streamOpen ∧
    y.conn.drains.length = x.conn.drains.length + n

theorem Adds.trans {n : ℕ} {x y z : Ctx} (h : Adds n x y) (h' : Adds 0 y z) : Adds n x z :=
  ⟨h'.1 ∘ h.1, h'.2.1.trans h.2.1, h'.2.2.trans h.2.2⟩

theorem Adds.after {n : ℕ} {x y z : Ctx} (h : Adds 0 x y) (h' : Adds n y z) : Adds n x z :=
  ⟨h'.1 ∘ h.1, h'.2.1.trans h.2.1, by rw [h'.2.2, h.2.2, Nat.add_zero]⟩

/-- **Only a write that the stream takes leaves a context behind.** -/
theorem adds_write_of_refused {k : Ctx → Ctx} {data : Bytes} {drain : Drain}
    (hfails : ¬(x.conn.stream = true ∧ 0 ≤ a.write)) :
    Adds 0 x ((makeSide k a).write data (some drain) x).2 := by
  simp only [makeSide]
  split_ifs with hclosed hopening hfull hrc
  · exact ⟨id, rfl, rfl⟩
  · exact ⟨id, rfl, rfl⟩
  · exact ⟨id, rfl, rfl⟩
  -- The context is freed again if the write fails.
  · refine ⟨id, rfl, ?_⟩
    change ((x.conn.drains ++ [drain]).erase drain).length = x.conn.drains.length
    rw [List.length_erase_of_mem List.mem_concat_self, List.length_append, List.length_singleton,
      Nat.add_sub_cancel]
  · rw [not_or, Bool.not_eq_false] at hopening
    exact absurd ⟨hopening.1, not_lt.mp hrc⟩ hfails

/-- But for the writes, no callback adds a context. -/
theorem allows_adds : AllowsLife (Adds 0) where
  refl := fun _ ↦ ⟨id, rfl, rfl⟩
  trans := Adds.trans
  own := fun _ _ _ _ _ _ _ hpipe ↦ ⟨hpipe, rfl, rfl⟩
  dropClient := by
    intro x
    rw [Adds, conn_dropClient]
    exact ⟨id, rfl, rfl⟩
  pause := fun _ ↦ ⟨id, rfl, rfl⟩
  resume := fun _ ↦ ⟨id, rfl, rfl⟩
  closeLater := fun _ ↦ ⟨id, rfl, rfl⟩
  life := fun _ _ _ _ _ _ _ ↦ ⟨id, rfl, rfl⟩

/-! ## Reads -/

/-- The connection is open to its stream. -/
structure Linked (c : Conn) : Prop where
  held : c.held = true
  stream : c.stream = true
  streamClosed : c.streamClosed = false
  live : c.live = true

theorem adds_write_of_taken {k : Ctx → Ctx} {data : Bytes} {drain : Drain} (h : x.conn.Linked)
    (hopen : x.conn.streamOpen = true) (hrc : 0 ≤ a.write) :
    Adds 1 x ((makeSide k a).write data (some drain) x).2 := by
  have hrc' : ¬a.write < 0 := not_lt.mpr hrc
  simp only [makeSide, h.held, h.stream, h.streamClosed, hopen, streamWrite, Bool.true_eq_false,
    Bool.false_eq_true, or_self, if_false, hrc']
  exact ⟨id, rfl, List.length_append⟩

theorem exists_adds_readCb {k : Ctx → Ctx} {bytes : Bytes} {p : TcpPipe}
    (hk : ∀ x, Adds 0 x (k x)) (hp : x.conn.pipe = some p) (hdestroyed : p.destroyed = false)
    (hne : bytes ≠ []) : ∃ p' drain, Adds 0
      ((makeSide k a).write bytes (some drain) (x.modify fun c ↦ { c with pipe := some p' })).2
      (TcpPipe.readCb (host k a) (.data bytes) x) := by
  have hwithin := allows_adds.within hk a
  refine ⟨{ p with
    streamPendingBytes := p.streamPendingBytes + bytes.length
    drains := p.drains + 1 }, ⟨p.drains, bytes.length⟩, ?_⟩
  unfold TcpPipe.readCb
  rw [pipe_host hp, if_neg (by rw [hdestroyed]; decide)]
  dsimp only
  rw [if_neg hne, TcpPipe.Host.modify, pipe_host hp]
  split_ifs
  · exact (hwithin.setPipe _ _).trans (hwithin.destroy _)
  · exact hwithin.setPipe _ _
  · exact hwithin.refl _

/-! ## When the stream closes -/

/-- `y` owes an `on_close` if `x` does. -/
def SameLive (x y : Ctx) : Prop := y.conn.live = x.conn.live

/-- Only `on_close` itself settles what is owed. -/
theorem allows_sameLive : Allows SameLive where
  refl := fun _ ↦ rfl
  trans := fun h h' ↦ h'.trans h
  own := fun _ _ _ _ _ _ _ _ ↦ rfl
  dropClient := fun x ↦ congrArg Conn.live (conn_dropClient x)
  pause := fun _ ↦ rfl
  resume := fun _ ↦ rfl
  closeLater := fun _ ↦ rfl

theorem within_sameLive (a : Answers) : (muteHost closeLater a).Within SameLive :=
  allows_sameLive.within allows_sameLive.closeLater a

theorem live_streamCloseCb (x : Ctx) : x.streamCloseCb.conn.live = false := by
  unfold streamCloseCb
  dsimp only
  split_ifs
  · rfl
  · exact (allows_sameLive.reap _).trans (allows_sameLive.dropClient _)
  · exact (allows_sameLive.reap _).trans ((within_sameLive {}).onStreamClose _)
  · exact allows_sameLive.shutdownConn allows_sameLive.closeLater {} _
  · exact allows_sameLive.reap _

/-- The side's `close` closes the stream if hyperdht does so at once. -/
theorem live_close (h : x.conn.Linked) :
    ((makeSide (streamClose a) a).close x).conn.live = true ↔ ¬a.sync = true := by
  simp only [makeSide]
  rw [if_pos ⟨h.held, h.stream, h.streamClosed⟩, streamClose]
  split_ifs with hsync
  · rw [live_streamCloseCb]
    exact iff_of_false Bool.false_ne_true (not_not.mpr hsync)
  · exact iff_of_true h.live hsync

variable {p : TcpPipe}

theorem live_destroy (h : x.conn.Linked) (hp : x.conn.pipe = some p) :
    (TcpPipe.destroy (host (streamClose a) a) x).conn.live = true ↔
      ¬(a.sync = true ∧ p.destroyed = false) := by
  cases hdestroyed : p.destroyed with
  | true =>
    rw [TcpPipe.destroy_of_destroyed _ (by rw [pipe_host hp, hdestroyed])]
    exact iff_of_true h.live fun hcloses ↦ Bool.noConfusion hcloses.2
  | false =>
    rw [TcpPipe.destroy_of_not_destroyed _ (lawful_host _ a) (by rw [pipe_host hp, hdestroyed]),
      and_iff_left rfl, ← live_close (a := a) (x := x.modify fun c ↦ { c with
        pipe := some (TcpPipe.stopReading { p with destroyed := true }) })
        ⟨h.held, h.stream, h.streamClosed, h.live⟩, pipe_host hp]
    exact iff_of_eq (congrArg (· = true) ((within_sameLive a).closeHandle _))

theorem Linked.pipe (h : x.conn.Linked) (p : TcpPipe) :
    (x.modify fun c ↦ { c with pipe := some p }).conn.Linked :=
  ⟨h.held, h.stream, h.streamClosed, h.live⟩

theorem write_of_linked {k : Ctx → Ctx} (data : Bytes) (drain : Drain) (h : x.conn.Linked)
    (hopen : x.conn.streamOpen = true) :
    ((makeSide k a).write data (some drain) x).1 = a.write ∧
      ((makeSide k a).write data (some drain) x).2.conn.Linked ∧
      ((makeSide k a).write data (some drain) x).2.conn.pipe = x.conn.pipe := by
  constructor
  · simp only [makeSide, h.held, h.stream, h.streamClosed, hopen, streamWrite, Bool.true_eq_false,
      Bool.false_eq_true, or_self, if_false]
    by_cases hrc : a.write < 0
    · simp only [hrc, if_true]
    · simp only [hrc, if_false]
  · obtain ⟨pending, drains, calls, heq, -⟩ := exists_write_eq k a data (some drain) x
    rw [heq]
    exact ⟨⟨h.held, h.stream, h.streamClosed, h.live⟩, rfl⟩

theorem linked_resume {k : Ctx → Ctx} (h : x.conn.Linked) :
    ((makeSide k a).resume x).conn.Linked ∧
      ((makeSide k a).resume x).conn.pipe = x.conn.pipe := by
  simp only [makeSide]
  split_ifs <;> exact ⟨⟨h.held, h.stream, h.streamClosed, h.live⟩, rfl⟩

theorem live_readCb (h : x.conn.Linked) (hopen : x.conn.streamOpen = true)
    (hp : x.conn.pipe = some p) (hdestroyed : p.destroyed = false) (nread : Read) :
    (TcpPipe.readCb (host (streamClose a) a) nread x).conn.live = true ↔
      ¬x.conn.Closes (.read nread a) := by
  unfold TcpPipe.readCb
  rw [pipe_host hp, if_neg (by rw [hdestroyed]; decide)]
  cases nread with
  | eof => exact live_close (h.pipe _)
  | error => exact (live_destroy h hp).trans (not_congr (and_iff_left hdestroyed))
  | data bytes =>
    dsimp only
    rw [TcpPipe.Host.modify, pipe_host hp]
    by_cases hne : bytes = []
    · rw [if_pos hne]
      exact iff_of_true h.live fun hcloses ↦ hcloses.2.1 hne
    obtain ⟨hrc, hlinked, hpipe⟩ := write_of_linked (k := streamClose a) (a := a) bytes
      ⟨p.drains, bytes.length⟩ (h.pipe { p with
        streamPendingBytes := p.streamPendingBytes + bytes.length
        drains := p.drains + 1 }) hopen
    rw [if_neg hne]
    split_ifs with hfails hfull
    · refine (live_destroy (hlinked.pipe _) rfl).trans (not_congr (and_congr_right fun _ ↦ ?_))
      refine iff_of_true ?_ ⟨hne, hrc.symm.trans_lt hfails⟩
      exact (congrArg TcpPipe.destroyed (pipe_host hpipe _ a) :).trans hdestroyed
    · exact iff_of_true hlinked.live fun hcloses ↦ hfails (hrc.trans_lt hcloses.2.2)
    · exact iff_of_true hlinked.live fun hcloses ↦ hfails (hrc.trans_lt hcloses.2.2)

theorem live_onStreamData (h : x.conn.Linked) (hp : x.conn.pipe = some p) {t : UvTcp}
    (ht : p.tcp = some t) (hdestroyed : p.destroyed = false) (hclosing : p.closing = false)
    {data : Bytes} (hne : data ≠ []) :
    (TcpPipe.onStreamData (host (streamClose a) a) a.uv data x).conn.live = true ↔
      ¬(a.sync = true ∧ a.uv.write ≠ 0) := by
  have hlive : ¬(p.destroyed = true ∨ p.closing = true) := by
    rw [hdestroyed, hclosing]
    decide
  unfold TcpPipe.onStreamData
  rw [pipe_host hp, ht]
  dsimp only
  rw [if_neg hlive, if_neg hne]
  by_cases hrefused : a.uv.write ≠ 0
  · rw [if_pos hrefused]
    refine (live_destroy h hp).trans (not_congr ?_)
    exact and_congr_right fun _ ↦ iff_of_true hdestroyed hrefused
  · rw [if_neg hrefused]
    refine iff_of_true ?_ fun hcloses ↦ hrefused hcloses.2
    split_ifs
    · exact ((within_sameLive a).pause _).trans h.live
    · exact h.live

theorem live_onStreamData_of_destroyed (hp : x.conn.pipe = some p) (hdestroyed : p.destroyed = true)
    (data : Bytes) : SameLive x (TcpPipe.onStreamData (host (streamClose a) a) a.uv data x) := by
  unfold TcpPipe.onStreamData
  rw [pipe_host hp, hdestroyed]
  split
  · rfl
  · exact congrArg (fun y : Ctx ↦ y.conn.live) (if_pos (Or.inl rfl))

theorem live_flushFinished (h : x.conn.Linked) (hp : x.conn.pipe = some p) :
    (TcpPipe.flushFinished (host (streamClose a) a) x).conn.live = true ↔
      ¬(a.sync = true ∧ p.destroyed = false ∧ p.streamClosed = true ∧ p.inflightWrites ≤ 0) := by
  unfold TcpPipe.flushFinished
  rw [pipe_host hp]
  split_ifs with hwait
  · refine iff_of_true h.live fun hcloses ↦ ?_
    rcases hwait with hwait | hwait
    · exact absurd (hwait.symm.trans hcloses.2.2.1) Bool.false_ne_true
    · exact absurd hwait (not_lt.mpr hcloses.2.2.2)
  · rw [not_or, Bool.not_eq_false, not_lt] at hwait
    refine (live_destroy h hp).trans (not_congr (and_congr_right fun _ ↦ ?_))
    exact (and_iff_left hwait).symm

/-- **A local write completes**: the stream is told to close if it failed, or was the last one that
the pipe was waiting for. -/
theorem live_writeCb (h : x.conn.Linked) (hp : x.conn.pipe = some p) {t : UvTcp}
    (ht : p.tcp = some t) (hwrites : t.writes ≠ []) (status : ℤ) :
    (TcpPipe.writeCb (host (streamClose a) a) status x).conn.live = true ↔
      ¬(a.sync = true ∧ p.destroyed = false ∧
        (status ≠ 0 ∨ (p.streamClosed = true ∧ p.inflightWrites ≤ 1))) := by
  obtain ⟨d, rest, hcons⟩ := List.exists_cons_of_ne_nil hwrites
  unfold TcpPipe.writeCb
  rw [pipe_host hp, ht]
  dsimp only
  rw [hcons]
  dsimp only
  rw [TcpPipe.Host.modify, pipe_host hp]
  by_cases hfailed : status ≠ 0
  · rw [if_pos hfailed]
    refine (live_destroy (h.pipe _) rfl).trans (not_congr (and_congr_right fun _ ↦ ?_))
    exact (and_iff_left (Or.inl hfailed)).symm
  · rw [if_neg hfailed]
    have hflush : ∀ {y : Ctx} {p' : TcpPipe}, y.conn.Linked → y.conn.pipe = some p' →
        p'.destroyed = p.destroyed → p'.streamClosed = p.streamClosed →
        p'.inflightWrites = p.inflightWrites - 1 →
        ((TcpPipe.flushFinished (host (streamClose a) a) y).conn.live = true ↔
          ¬(a.sync = true ∧ p.destroyed = false ∧
            (status ≠ 0 ∨ (p.streamClosed = true ∧ p.inflightWrites ≤ 1)))) := by
      intro y p' hy hp' hdestroyed hclosed hinflight
      rw [live_flushFinished hy hp', hdestroyed, hclosed, hinflight, or_iff_right hfailed,
        sub_nonpos]
    generalize p.pendingBytes - _ = pendingBytes
    split_ifs
    · have hlinked := (h.pipe { p with
        tcp := some { t with writes := rest }
        inflightWrites := p.inflightWrites - 1
        pendingBytes := pendingBytes }).pipe
      obtain ⟨hresumed, hpipe⟩ := linked_resume (k := streamClose a) (a := a) (hlinked { p with
        tcp := some { t with writes := rest }
        inflightWrites := p.inflightWrites - 1
        pendingBytes := pendingBytes
        streamPaused := false })
      exact hflush hresumed hpipe rfl rfl rfl
    · exact hflush (h.pipe _) rfl rfl rfl rfl

/-! ## Runs -/

/-- How far a connection has come. -/
structure Tracked (x : Ctx) : Prop where
  sound : x.conn.Sound
  exact : x.conn.Exact
  place : (∃ handle proxy, x = dialled handle proxy) ∨
    (x.conn.pipe.isSome ∧ x.conn.streamOpen = true) ∨ (x.conn.live = false ∧ x.conn.pipe = none)

theorem Tracked.linked (h : Tracked x) (hlive : x.conn.live = true) : x.conn.Linked := by
  have hstream := h.sound.live.symm.trans hlive
  exact ⟨h.exact.held_of_stream hstream, hstream, h.sound.stream hstream, hlive⟩

/-- Where there is a handle there is a pipe, not destroyed as long as the handle is open. -/
theorem Tracked.exists_pipe (h : Tracked x) {t : UvTcp} (ht : t ∈ TcpPipe.handle x.conn.pipe) :
    x.conn.streamOpen = true ∧ ∃ p, x.conn.pipe = some p ∧ p.tcp = some t ∧
      (t.closing = false → p.destroyed = false) := by
  obtain ⟨p, hp, hpt⟩ := Option.bind_eq_some_iff.mp ht
  have hopen : x.conn.streamOpen = true := by
    rcases h.place with ⟨handle, proxy, rfl⟩ | ⟨-, hopen⟩ | ⟨-, hpipe⟩
    · exact absurd hp.symm (Option.some_ne_none p)
    · exact hopen
    · exact absurd (hp.symm.trans hpipe) (Option.some_ne_none p)
  refine ⟨hopen, p, hp, hpt, fun hclosing ↦ ?_⟩
  rcases (h.sound.pipe p hp).2.2 with ⟨hattached | hdetaching, -⟩ | ⟨hdetached, -⟩
  · exact hattached.1
  · obtain ⟨-, -, -, id, hbond⟩ := hdetaching
    rw [TcpPipe.bond, hpt, Option.map_some] at hbond
    exact absurd (hclosing.symm.trans (congrArg Prod.snd (Option.some.inj hbond)))
      Bool.false_ne_true
  · exact absurd (hdetached.2.2.2.symm.trans hpt) (Option.some_ne_none t).symm

theorem readCb_nil (k : Ctx → Ctx) (a : Answers) (x : Ctx) :
    TcpPipe.readCb (host k a) (.data []) x = x := by
  unfold TcpPipe.readCb
  split_ifs <;> rfl

/-- **A read** adds a context if the stream takes it. -/
theorem Tracked.adds_read (h : Tracked x) {nread : Read} (he : x.conn.Enabled (.read nread a)) :
    Adds (if x.conn.Takes (.read nread a) then 1 else 0) x (step x (.read nread a)) := by
  obtain ⟨t, ht, -, hclosing, -⟩ := he
  obtain ⟨hopen, p, hp, -, hdestroyed⟩ := h.exists_pipe ht
  have hwithin := allows_adds.within (allows_adds.streamClose a) a
  have hmarked := hwithin.modify (TcpPipe.markEnded nread) x
  refine hmarked.after ?_
  cases nread with
  | eof => exact hwithin.readCb .eof _
  | error => exact hwithin.readCb .error _
  | data bytes =>
    by_cases hne : bytes = []
    · change Adds _ _ (TcpPipe.readCb (host (streamClose a) a) (.data bytes) _)
      rw [if_neg fun htakes ↦ htakes.1 hne, hne, readCb_nil]
      exact hwithin.refl _
    obtain ⟨p', drain, hrest⟩ := exists_adds_readCb (a := a) (allows_adds.streamClose a)
      (x := (host (streamClose a) a).modify (TcpPipe.markEnded (.data bytes)) x) rfl
      (by rw [pipe_host hp]; exact hdestroyed hclosing) hne
    refine ((hwithin.setPipe p' _).after ?_).trans hrest
    by_cases htakes : x.conn.stream = true ∧ 0 ≤ a.write
    · rw [if_pos ⟨hne, htakes⟩]
      have hlinked := h.linked (h.sound.live.trans htakes.1)
      exact adds_write_of_taken ⟨hlinked.held, hlinked.stream, hlinked.streamClosed, hlinked.live⟩
        hopen htakes.2
    · rw [if_neg fun h ↦ htakes h.2]
      exact adds_write_of_refused htakes

/-- **The contexts are those of the writes that are un-acked**, for a connection with a pipe. -/
theorem Tracked.step_of_piped (h : Tracked x) (hpipe : x.conn.pipe.isSome)
    (hopen : x.conn.streamOpen = true) {e : Event} (he : x.conn.Enabled e) :
    (step x e).conn.pipe.isSome ∧ (step x e).conn.streamOpen = true ∧
      (step x e).conn.drains.length = x.conn.unacked x.conn.drains.length e := by
  have hadds : ∀ {n : ℕ}, Adds n x (step x e) → (step x e).conn.pipe.isSome ∧
      (step x e).conn.streamOpen = true ∧
      (step x e).conn.drains.length = x.conn.drains.length + n :=
    fun h ↦ ⟨h.1 hpipe, h.2.1.trans hopen, h.2.2⟩
  cases e with
  | streamOpen a => exact absurd (hopen.symm.trans he.2) (by decide)
  | streamData data a => exact hadds (n := 0) (allows_adds.streamDataCb a data x)
  | streamClose => exact hadds (n := 0) (allows_adds.streamCloseCb x)
  | drained drain a =>
    have hfreed := allows_adds.drainCb a drain x
    exact ⟨hfreed.1 hpipe, hfreed.2.1.trans hopen,
      hfreed.2.2.trans (List.length_erase_of_mem he.2)⟩
  | read nread a => exact hadds (h.adds_read he)
  | written status a => exact hadds (n := 0) (allows_adds.written a status x)
  | closed => exact hadds (n := 0) (allows_adds.closed x)

theorem Tracked.next (h : Tracked x) {e : Event} (he : x.conn.Enabled e) :
    Tracked (step x e) ∧
      (step x e).conn.drains.length = x.conn.unacked x.conn.drains.length e := by
  obtain ⟨hsettles, hexact⟩ := step_settles h.sound h.exact he
  rcases h.place with ⟨handle, proxy, rfl⟩ | ⟨hpipe, hopen⟩ | ⟨hlive, hpipe⟩
  · obtain ⟨-, ⟨a, rfl⟩ | ⟨data, a, rfl⟩ | rfl⟩ := h.sound.event_of_noPipe rfl he
    · exact ⟨⟨hsettles.sound, hexact, Or.inr (Or.inl ⟨rfl, rfl⟩)⟩, rfl⟩
    · exact absurd he.2 Bool.false_ne_true
    · exact ⟨⟨hsettles.sound, hexact, Or.inr (Or.inr ⟨rfl, rfl⟩)⟩, rfl⟩
  · obtain ⟨hpipe', hopen', hdrains⟩ := h.step_of_piped hpipe hopen he
    exact ⟨⟨hsettles.sound, hexact, Or.inr (Or.inl ⟨hpipe', hopen'⟩)⟩, hdrains⟩
  · have hstill := (h.sound.event_of_noPipe hpipe he).1
    exact absurd (hlive.symm.trans hstill) Bool.false_ne_true

theorem Tracked.live_streamData (h : Tracked x) (hlive : x.conn.live = true) (data : Bytes) :
    (step x (.streamData data a)).conn.live = true ↔ ¬x.conn.Closes (.streamData data a) := by
  have hlinked := h.linked hlive
  rw [step, streamDataCb]
  by_cases hne : data = []
  · rw [if_pos (Or.inr hne)]
    exact iff_of_true hlive fun hcloses ↦ hcloses.2.1 hne
  rw [if_neg (by simp [hlinked.held, hne])]
  cases hp : x.conn.pipe with
  | none =>
    refine iff_of_true hlive ?_
    rintro ⟨-, -, -, p, hmem, -⟩
    exact absurd (hp.symm.trans hmem) (Option.some_ne_none p).symm
  | some p =>
    rw [if_pos Option.isSome_some]
    have hcloses : x.conn.Closes (.streamData data a) ↔
        (a.sync = true ∧ a.uv.write ≠ 0) ∧ p.destroyed = false := by
      rw [Closes, hp]
      simp [hne, and_assoc]
    rcases (h.sound.pipe p hp).2.2 with ⟨hattached | hdetaching, -⟩ | ⟨hdetached, -⟩
    · obtain ⟨hdestroyed, hclosing, -, id, hbond⟩ := hattached
      obtain ⟨t, ht, -⟩ := Option.map_eq_some_iff.mp hbond
      rw [hcloses, and_iff_left hdestroyed]
      exact live_onStreamData hlinked hp ht hdestroyed hclosing hne
    · refine iff_of_true ?_ fun h ↦ Bool.noConfusion (hdetaching.1.symm.trans (hcloses.mp h).2)
      exact (live_onStreamData_of_destroyed hp hdetaching.1 data).trans hlive
    · refine iff_of_true ?_ fun h ↦ Bool.noConfusion (hdetached.1.symm.trans (hcloses.mp h).2)
      exact (live_onStreamData_of_destroyed hp hdetached.1 data).trans hlive

/-- **When an event closes the stream.** -/
theorem Tracked.live_step (h : Tracked x) (hlive : x.conn.live = true) {e : Event}
    (he : x.conn.Enabled e) : (step x e).conn.live = true ↔ ¬x.conn.Closes e := by
  have hlinked := h.linked hlive
  cases e with
  | streamOpen a =>
    rcases h.place with ⟨handle, proxy, rfl⟩ | ⟨-, hopen⟩ | ⟨hdead, -⟩
    · exact iff_of_true rfl id
    · exact absurd (hopen.symm.trans he.2) (by decide)
    · exact absurd (hdead.symm.trans hlive) (by decide)
  | streamClose =>
    rw [step, live_streamCloseCb]
    exact iff_of_false Bool.false_ne_true (not_not.mpr trivial)
  | streamData data a => exact h.live_streamData hlive data
  | drained drain a =>
    refine iff_of_true ?_ id
    rw [step, drainCb]
    split_ifs
    · exact hlive
    · exact ((within_sameLive a).onDrain a.uv drain.len _).trans hlive
  | read nread a =>
    obtain ⟨t, ht, -, hclosing, -⟩ := he
    obtain ⟨hopen, p, hp, -, hdestroyed⟩ := h.exists_pipe ht
    have hread := live_readCb (a := a) (hlinked.pipe (TcpPipe.markEnded nread p)) hopen rfl
      ((p.turned_markEnded nread).life.1.trans (hdestroyed hclosing)) nread
    have hstep : step x (.read nread a) = TcpPipe.readCb (host (streamClose a) a) nread
        (x.modify fun c ↦ { c with pipe := some (TcpPipe.markEnded nread p) }) := by
      rw [step, TcpPipe.Host.modify, pipe_host hp]
      rfl
    rw [hstep, hread]
    cases nread <;> exact Iff.rfl
  | written status a =>
    obtain ⟨t, ht, hwrites⟩ := he
    obtain ⟨-, p, hp, hpt, -⟩ := h.exists_pipe ht
    refine (live_writeCb hlinked hp hpt hwrites status).trans (not_congr ?_)
    rw [Closes, hp]
    simp
  | closed => exact iff_of_true (((within_sameLive {}).closedCb x).trans hlive) id

/-- What closes the stream is neither a write that it takes nor an ack. -/
theorem unacked_of_closes {n : ℕ} {c : Conn} {e : Event} (h : c.Closes e) :
    c.unacked n e = n := by
  cases e with
  | drained drain a => exact h.elim
  | read nread a =>
    cases nread with
    | data bytes =>
      rw [unacked, if_neg fun htakes ↦ absurd h.2.2 (not_lt.mpr htakes.2.2)]
      rfl
    | eof => rfl
    | error => rfl
  | _ => rfl

theorem lost_of_live {c : Conn} (h : c.live = true) : c.lost = 0 := by
  rw [lost, if_pos h]

theorem lost_of_not_live {c : Conn} (h : c.live = false) : c.lost = c.drains.length := by
  rw [lost, if_neg (by rw [h]; decide)]

theorem lost_le_length (c : Conn) : c.lost ≤ c.drains.length := by
  unfold lost
  split_ifs
  · exact Nat.zero_le _
  · exact le_rfl

theorem Tracked.lost_step (h : Tracked x) {e : Event} (he : x.conn.Enabled e)
    (hlost : x.conn.lost ≤ 1) :
    (step x e).conn.lost ≤ 1 ↔ (x.conn.Closes e → x.conn.drains.length ≤ 1) := by
  have hdrains := (h.next he).2
  cases hlive : x.conn.live with
  | true =>
    have hiff := h.live_step hlive he
    by_cases hcloses : x.conn.Closes e
    · rw [lost_of_not_live (Bool.of_not_eq_true fun hstill ↦ hiff.mp hstill hcloses), hdrains,
        unacked_of_closes hcloses]
      exact ⟨fun hle _ ↦ hle, fun hle ↦ hle hcloses⟩
    · rw [lost_of_live (hiff.mpr hcloses)]
      exact iff_of_true zero_le_one fun h ↦ absurd h hcloses
  | false =>
    rw [lost_of_not_live hlive] at hlost
    refine iff_of_true ?_ fun _ ↦ hlost
    -- The stream is gone and takes nothing any more.
    have htakes : ¬x.conn.Takes e := by
      have hstream := h.sound.live.symm.trans hlive
      cases e with
      | read nread a =>
        cases nread with
        | data bytes => exact fun htakes ↦ Bool.false_ne_true (hstream.symm.trans htakes.2.1)
        | eof => exact id
        | error => exact id
      | _ => exact id
    rw [unacked, if_neg htakes] at hdrains
    calc (step x e).conn.lost
        ≤ (step x e).conn.drains.length := lost_le_length _
      _ ≤ x.conn.drains.length := hdrains.trans_le (Nat.sub_le _ _)
      _ ≤ 1 := hlost

theorem Tracked.lost_iff (h : Tracked x) (hlost : x.conn.lost ≤ 1) {es : List Event}
    (henabled : Along step (fun x e ↦ x.conn.Enabled e) x es) :
    (∀ pre, pre <+: es → (run step x pre).conn.lost ≤ 1) ↔
      Balanced x.conn.drains.length x es := by
  have hbalanced : Balanced x.conn.drains.length x es ↔
      Along step (fun x e ↦ x.conn.Closes e → x.conn.drains.length ≤ 1) x es := by
    clear hlost
    -- By induction on the run: the contexts of a state are those of the un-acked writes.
    induction es generalizing x with
    | nil => exact Iff.rfl
    | cons e es ih =>
      obtain ⟨hnext, hdrains⟩ := h.next henabled.1
      rw [Balanced, along_cons, ← hdrains, ih hnext henabled.2]
  rw [hbalanced]
  exact forall_prefix_iff_along_of_invariant (fun _ _ h he ↦ (h.next he).1)
    (fun _ _ h he hlost ↦ h.lost_step he hlost) h hlost henabled

/-- **How many contexts a connection leaks.** In every run, at most one `DrainCtx` is never freed
exactly if at most one of the writes that hyperdht took is un-acked whenever the stream closes. -/
theorem lost_le_one_iff_balanced (handle : ℕ) (proxy : UdpProxy) (es : List Event)
    (h : Along step (fun x e ↦ x.conn.Enabled e) (dialled handle proxy) es) :
    (∀ pre, pre <+: es → (run step (dialled handle proxy) pre).conn.lost ≤ 1) ↔
      Balanced 0 (dialled handle proxy) es :=
  Tracked.lost_iff ⟨sound_dialled handle proxy, exact_dialled handle proxy,
    Or.inl ⟨handle, proxy, rfl⟩⟩ zero_le_one h

/-- Two reads, the first of which is acked before the stream closes: the other context is lost. -/
theorem lost_le_one_iff_balanced_at :
    let es : List Event := [.streamOpen {}, .read (.data [1]) {}, .read (.data [2]) {},
      .drained ⟨0, 1⟩ {}, .streamClose]
    (run step (dialled 0 {}) es).conn.lost = 1 ∧
      ∀ pre, pre <+: es → (run step (dialled 0 {}) pre).conn.lost ≤ 1 :=
  ⟨by decide +kernel, (lost_le_one_iff_balanced 0 {} _ (by decide +kernel)).mpr (by decide +kernel)⟩

/-- **Two contexts are lost**: the pipe reads on without waiting for an ack, as long as less than
its window is un-acked. -/
theorem two_contexts_lost :
    ¬∀ (handle : ℕ) (proxy : UdpProxy) (es : List Event),
      Along step (fun x e ↦ x.conn.Enabled e) (dialled handle proxy) es →
        ∀ pre, pre <+: es → (run step (dialled handle proxy) pre).conn.lost ≤ 1 := by
  intro h
  have hlost := h 0 {} [.streamOpen {}, .read (.data [1]) {}, .read (.data [2]) {}, .streamClose]
    (by decide +kernel) _ List.prefix_rfl
  exact absurd hlost (by decide +kernel)

end Conn

end HolesailClient

end Holesail
