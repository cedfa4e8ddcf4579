import Holesail.Client.Obligations
import Holesail.Theory.Run

/-!
# The last response

When the stream closes, `flush_finished` holds the teardown back until every write toward the local
socket has completed. But `destroy` can also be reached from the local side, by a read that the
closed stream refuses, and that does not wait.

This file says for which runs of a connection nothing that came over the stream is cut short. At
every moment some bytes are *outstanding*: passed to the pipe, their write not completed. The
handle may be closed when there are none, and the runs in question are those in which no event
closes it, or comes to a handle that is closed, with bytes outstanding.
-/

namespace Holesail

namespace HolesailClient

namespace Conn

open Run Ctx

/-! ## What is asked -/

/-- The bytes that an event passes to the pipe. -/
def Event.received : Event → Bytes
  | .streamData data _ => data
  | _ => []

/-- The bytes whose write an event completes. -/
def completes (c : Conn) : Event → Bytes
  | .written status _ =>
    if status = 0 then (((TcpPipe.handle c.pipe).map UvTcp.writes).getD []).headD [] else []
  | _ => []

/-- The bytes passed to the pipe. -/
def received (es : List Event) : Bytes := es.flatMap Event.received

/-- The bytes whose write has completed. -/
def completed : Ctx → List Event → Bytes
  | _, [] => []
  | x, e :: es => x.conn.completes e ++ completed (step x e) es

/-- At every moment after `uv_close` was issued, all that was passed to the pipe by then has been
written. -/
def Flushed (x : Ctx) (es : List Event) : Prop :=
  ∀ pre post, es = pre ++ post → (run step x pre).conn.uvClosed ≠ [] →
    completed x pre = received pre

/-- No local write fails, unless it is cancelled by `uv_close`, and no local read does. -/
def Undisturbed (c : Conn) : Event → Prop
  | .written status _ => status = 0 ∨ ∃ t ∈ TcpPipe.handle c.pipe, t.closing = true
  | .read .error _ => False
  | _ => True

/-- A local read finds nothing in flight, or a stream that takes it; and what comes over the stream
finds a handle that takes it. -/
def Spared (c : Conn) : Event → Prop
  | .read (.data bytes) a => bytes = [] ∨ (∃ t ∈ TcpPipe.handle c.pipe, t.writes = []) ∨
      (c.stream = true ∧ 0 ≤ a.write)
  | .streamData data a => data = [] ∨
      ((∃ t ∈ TcpPipe.handle c.pipe, t.closing = false) ∧ a.uv.write = 0)
  | _ => True

instance (c : Conn) : (e : Event) → Decidable (Undisturbed c e)
  | .written _ _ => inferInstanceAs (Decidable (_ ∨ ∃ t ∈ TcpPipe.handle c.pipe, _))
  | .read .error _ => inferInstanceAs (Decidable False)
  | .read .eof _ | .read (.data _) _ | .streamOpen _ | .streamData _ _ | .streamClose
  | .drained _ _ | .closed => inferInstanceAs (Decidable True)

instance (c : Conn) : (e : Event) → Decidable (Spared c e)
  | .read (.data _) _ => inferInstanceAs (Decidable (_ ∨ (∃ t ∈ TcpPipe.handle c.pipe, _) ∨ _))
  | .streamData _ _ => inferInstanceAs (Decidable (_ ∨ (∃ t ∈ TcpPipe.handle c.pipe, _) ∧ _))
  | .read .eof _ | .read .error _ | .streamOpen _ | .streamClose | .drained _ _ | .written _ _
  | .closed => inferInstanceAs (Decidable True)

/-- A connection that was dialled for a socket, and whose stream is there but not open. -/
def dialled (handle : ℕ) (proxy : UdpProxy) : Ctx :=
  ⟨{ stream := true, connectPending := false, tcp := some { id := handle }, live := true }, proxy⟩

/-- It is what the connect callback leaves. -/
example (handle : ℕ) (proxy : UdpProxy) :
    connectCb false 0 true {} (beginDhtConnect {} ⟨{ tcp := some { id := handle } }, proxy⟩).2
      = dialled handle proxy := rfl

/-! ## A pipe with writes in flight -/

/-- `p'` is at the same handle as `p`, with the same writes in flight. -/
structure SameQueue (p p' : TcpPipe) : Prop where
  bond : p.SameBond p'
  inflight : p'.inflightWrites = p.inflightWrites
  writes : p'.tcp.map UvTcp.writes = p.tcp.map UvTcp.writes

theorem SameQueue.of_turned {p p' : TcpPipe} (h : p.Turned p') : SameQueue p p' := by
  have hbond := h.sameBond
  have hwrites := h.map (g := UvTcp.writes) fun _ _ _ ↦ rfl
  obtain ⟨f, reading, -, rfl⟩ := h
  exact ⟨hbond, rfl, hwrites⟩

/-- The pipe is open, with the writes `q` in flight. -/
structure Open (q : List Bytes) (x : Ctx) : Prop where
  sound : x.conn.Sound
  exact : x.conn.Exact
  uvClosed : x.conn.uvClosed = []
  streamOpen : x.conn.streamOpen = true
  stream : x.conn.stream = !x.conn.streamClosed
  ne : ∀ d ∈ q, d ≠ []
  queue : ∃ p t, x.conn.pipe = some p ∧ p.tcp = some t ∧ p.destroyed = false ∧ t.writes = q ∧
    p.inflightWrites = q.length

/-- `uv_close` was issued on the handle, and the pipe is destroyed. -/
structure Cut (x : Ctx) : Prop where
  uvClosed : x.conn.uvClosed ≠ []
  streamOpen : x.conn.streamOpen = true
  pipe : ∃ p, x.conn.pipe = some p ∧ p.destroyed = true

/-- The writes in flight are `q`, where there is still a handle. -/
def InFlight (q : List Bytes) (x : Ctx) : Prop := ∀ t ∈ TcpPipe.handle x.conn.pipe, t.writes = q

namespace Open

variable {q : List Bytes} {x : Ctx} {a : Answers} {k : Ctx → Ctx}

theorem exists_pipe (h : Open q x) :
    ∃ p t, x.conn.pipe = some p ∧ p.tcp = some t ∧ p.Attached ∧ t.closing = false ∧
      t.writes = q ∧ p.inflightWrites = q.length ∧ x.conn.pipeDone = false ∧
      x.conn.udp = false ∧ x.conn.held = true := by
  obtain ⟨p, t, hp, ht, hdestroyed, hwrites, hinflight⟩ := h.queue
  obtain ⟨hudp, -, hstage⟩ := h.sound.pipe p hp
  have hattached : p.Attached ∧ x.conn.pipeDone = false := by
    rcases hstage with ⟨hattached | hdetaching, hdone⟩ | ⟨hdetached, -⟩
    · exact ⟨hattached, hdone⟩
    · exact absurd (hdestroyed.symm.trans hdetaching.1) (by decide)
    · exact absurd (hdestroyed.symm.trans hdetached.1) (by decide)
  obtain ⟨hattached, hdone⟩ := hattached
  have hclosing : t.closing = false := by
    obtain ⟨-, -, -, id, hbond⟩ := hattached
    rw [TcpPipe.bond, ht, Option.map_some] at hbond
    exact congrArg Prod.snd (Option.some.inj hbond)
  refine ⟨p, t, hp, ht, hattached, hclosing, hwrites, hinflight, hdone, hudp, ?_⟩
  rw [h.exact.held, pinned, hp, hdone]
  exact Bool.or_true _

theorem eq_nil_of_flatten (h : Open q x) (hnone : q.flatten = []) : q = [] :=
  List.eq_nil_iff_forall_not_mem.mpr fun d hd ↦
    h.ne d hd (List.flatten_eq_nil_iff.mp hnone d hd)

theorem handle_eq {t : UvTcp} (h : Open q x) (ht : t ∈ TcpPipe.handle x.conn.pipe) :
    t.writes = q ∧ t.closing = false := by
  obtain ⟨p, t', hp, ht', -, hclosing, hwrites, -⟩ := h.exists_pipe
  have hhandle := (TcpPipe.handle_of_eq hp).trans ht'
  obtain rfl := Option.some.inj (hhandle.symm.trans ht)
  exact ⟨hwrites, hclosing⟩

theorem setPipe (h : Open q x) {p : TcpPipe} (p' : TcpPipe) (hp : x.conn.pipe = some p)
    (hbond : p.SameBond p') {t : UvTcp} (ht : p'.tcp = some t)
    (hinflight : p'.inflightWrites = t.writes.length) (hne : ∀ d ∈ t.writes, d ≠ []) :
    Open t.writes (x.modify fun c ↦ { c with pipe := some p' }) := by
  obtain ⟨p₀, -, hp₀, -, ⟨hdestroyed, -⟩, -⟩ := h.exists_pipe
  obtain rfl := Option.some.inj (hp₀.symm.trans hp)
  exact ⟨(settles_setPipe h.sound hp hbond).sound, exact_setPipe h.exact hp, h.uvClosed,
    h.streamOpen, h.stream, hne, p', t, rfl, ht, hbond.life.1.trans hdestroyed, rfl, hinflight⟩

theorem modify (h : Open q x) (f : TcpPipe → TcpPipe) (hf : ∀ p, SameQueue p (f p)) :
    Open q ((host k a).modify f x) := by
  obtain ⟨p, t, hp, ht, -, -, hwrites, hinflight, -⟩ := h.exists_pipe
  have hsame := hf p
  have htcp := hsame.writes
  rw [ht, Option.map_some] at htcp
  obtain ⟨t', ht', hwrites'⟩ := Option.map_eq_some_iff.mp htcp
  have hq : t'.writes = q := hwrites'.trans hwrites
  rw [TcpPipe.Host.modify, pipe_host hp]
  have hset := h.setPipe (f p) hp hsame.bond ht' (by rw [hsame.inflight, hinflight, hq])
    (by rw [hq]; exact h.ne)
  rw [hq] at hset
  exact hset

/-- Nothing that is only written to the stream, or noted about it, matters. -/
theorem log (h : Open q x) (pending : Bytes) (calls : List StreamCall) (drains : List Drain) :
    Open q (x.modify fun c ↦
      { c with pending := pending, drains := drains, calls := calls }) := by
  obtain ⟨p, -, hp, -⟩ := h.exists_pipe
  refine ⟨(settles_log h.sound _ _ _ fun hnone ↦ ?_).sound, exact_log h.exact _ _ _, h.uvClosed,
    h.streamOpen, h.stream, h.ne, h.queue⟩
  exact absurd (hp.symm.trans hnone) (Option.some_ne_none p)

theorem streamCall (h : Open q x) (call : StreamCall) : Open q (x.streamCall call) := h.log _ _ _

/-- **Destroying the pipe cuts what is in flight.** -/
theorem destroy (h : Open q x) (hc : Closer k) :
    Cut (TcpPipe.destroy (host k a) x) ∧ InFlight q (TcpPipe.destroy (host k a) x) := by
  obtain ⟨p, t₀, hp, ht₀, hattached, -, hwrites, -, hdone, -, hheld⟩ := h.exists_pipe
  obtain ⟨y, t, hending, ht, -, heq⟩ :=
    exists_destroy_eq (a := a) hc h.sound hheld hp hattached hdone
  have hsame := SameQueue.of_turned (TcpPipe.turned_stopReading { p with destroyed := true })
  rw [heq]
  refine ⟨⟨?_, ?_, _, rfl, hsame.bond.life.1⟩, fun u hu ↦ ?_⟩
  · exact List.append_ne_nil_of_right_ne_nil _ (List.cons_ne_nil t.id [])
  · exact (congrArg Conn.streamOpen hending.same :).trans h.streamOpen
  · obtain rfl := Option.some.inj hu
    have hqueue := hsame.writes
    rw [ht] at hqueue
    exact (Option.some.inj (hqueue.trans (congrArg _ ht₀))).trans hwrites

/-- Either nothing happened to the pipe, or nothing was in flight and it is closed. -/
def Ends (q : List Bytes) (x : Ctx) : Prop := Open q x ∨ (q = [] ∧ Cut x ∧ InFlight [] x)

/-- **`flush_finished` waits for what is in flight.** -/
theorem flushFinished (h : Open q x) (hc : Closer k) :
    Ends q (TcpPipe.flushFinished (host k a) x) := by
  obtain ⟨p, -, hp, -, -, -, -, hinflight, -⟩ := h.exists_pipe
  unfold TcpPipe.flushFinished
  rw [pipe_host hp]
  split_ifs with hwait
  · exact Or.inl h
  · rw [not_or, not_lt, hinflight] at hwait
    obtain rfl := List.length_eq_zero_iff.mp (Int.natCast_nonpos_iff.mp hwait.2)
    exact Or.inr ⟨rfl, h.destroy hc⟩

theorem onStreamClose (h : Open q x) (hc : Closer k) :
    Ends q (TcpPipe.onStreamClose (host k a) x) := by
  obtain ⟨p, -, hp, -, ⟨hdestroyed, -⟩, -⟩ := h.exists_pipe
  unfold TcpPipe.onStreamClose
  rw [pipe_host hp, if_neg (by rw [hdestroyed]; decide)]
  exact (h.modify (fun p ↦ { p with streamClosed := true }) fun _ ↦
    ⟨⟨⟨rfl, rfl⟩, rfl, rfl⟩, rfl, rfl⟩).flushFinished hc

/-- **The stream closes**: the pipe is told, and flushes. -/
theorem streamCloseCb (h : Open q x) : Ends q x.streamCloseCb := by
  obtain ⟨p, -, hp, -, -, -, -, -, hdone, hudp, hheld⟩ := h.exists_pipe
  have hpending := (h.sound.pipe p hp).2.1
  have hend := endStream_settles h.sound hpending
  have hsome : x.conn.pipe.isSome := by
    rw [hp]
    rfl
  have hopen : Open q x.endStream := by
    obtain ⟨p', t', hp', hqueue⟩ := h.queue
    exact ⟨hend.sound, hend.sound.exact_of_pipe hheld hsome hdone, h.uvClosed, h.streamOpen, rfl,
      h.ne, p', t', hp', hqueue⟩
  have hclosed := (keeps_bridged (a := {}) closer_closeLater x.conn.tally).onStreamClose
    ⟨hend.sound, hopen.exact, hsome, hend.tally⟩
  rw [streamCloseCb_eq hheld, hudp, if_neg (by decide), if_pos hsome,
    reap_of_exact hclosed.sound hclosed.exact]
  exact hopen.onStreamClose closer_closeLater

theorem sideClose (h : Open q x) (a : Answers) :
    Ends q ((makeSide (Ctx.streamClose a) a).close x) := by
  simp only [makeSide]
  split_ifs
  · have hcalled : Open q x.closeLater := h.streamCall .close
    unfold Ctx.streamClose
    split_ifs
    · exact hcalled.streamCloseCb
    · exact Or.inl hcalled
  · exact Or.inl h

/-- **A write is refused** exactly if the stream has closed or hyperdht refuses it. -/
theorem write (h : Open q x) (data : Bytes) (onDrain : Option Drain) :
    Open q ((makeSide k a).write data onDrain x).2 ∧
      (((makeSide k a).write data onDrain x).1 < 0 ↔
        ¬(x.conn.stream = true ∧ 0 ≤ a.write)) := by
  obtain ⟨-, -, -, -, -, -, -, -, -, -, hheld⟩ := h.exists_pipe
  constructor
  · obtain ⟨pending, drains, calls, heq, -⟩ := exists_write_eq k a data onDrain x
    rw [heq]
    exact h.log _ _ _
  · have hlocks : ¬x.conn.held = false := by rw [hheld]; decide
    have hstream := h.stream
    cases hclosed : x.conn.streamClosed with
    | true =>
      rw [hclosed, Bool.not_true] at hstream
      simp [makeSide, hclosed, hstream]
    | false =>
      rw [hclosed, Bool.not_false] at hstream
      cases onDrain with
      | none => simp [makeSide, streamWrite, hheld, hclosed, hstream, h.streamOpen]
      | some drain =>
        by_cases hrc : a.write < 0
        · simp [makeSide, streamWrite, hheld, hclosed, hstream, h.streamOpen, hrc]
        · simp [makeSide, streamWrite, hheld, hclosed, hstream, h.streamOpen, hrc]

/-! ## Events of an open pipe -/

theorem readCb_data (h : Open q x) (bytes : Bytes) (a : Answers) :
    let x' := TcpPipe.readCb (host (Ctx.streamClose a) a) (.data bytes) x
    (Open q x' ∧ (bytes = [] ∨ (x.conn.stream = true ∧ 0 ≤ a.write))) ∨
      ((Cut x' ∧ InFlight q x') ∧ bytes ≠ [] ∧ ¬(x.conn.stream = true ∧ 0 ≤ a.write)) := by
  obtain ⟨p, -, hp, -, ⟨hdestroyed, -⟩, -⟩ := h.exists_pipe
  have hcounted : Open q ((host (Ctx.streamClose a) a).modify (fun p ↦
      { p with
        streamPendingBytes := p.streamPendingBytes + bytes.length
        drains := p.drains + 1 }) x) := h.modify _ fun _ ↦ ⟨⟨⟨rfl, rfl⟩, rfl, rfl⟩, rfl, rfl⟩
  obtain ⟨hwritten, hrefused⟩ := hcounted.write (k := Ctx.streamClose a) (a := a) bytes
    (some ⟨((host (Ctx.streamClose a) a).pipe x).drains, bytes.length⟩)
  unfold TcpPipe.readCb
  rw [pipe_host hp, if_neg (by rw [hdestroyed]; decide)]
  rw [pipe_host hp] at hwritten hrefused
  dsimp only
  split_ifs with hempty hrc hfull
  · exact Or.inl ⟨h, Or.inl hempty⟩
  · refine Or.inr ⟨?_, hempty, hrefused.mp hrc⟩
    exact (hwritten.modify (fun p ↦ p.ack bytes.length) fun _ ↦
      ⟨⟨⟨rfl, rfl⟩, rfl, rfl⟩, rfl, rfl⟩).destroy (closer_streamClose a)
  · refine Or.inl ⟨hwritten.modify _ fun p ↦ .of_turned p.turned_stopReading, Or.inr ?_⟩
    exact not_not.mp (mt hrefused.mpr hrc)
  · exact Or.inl ⟨hwritten, Or.inr (not_not.mp (mt hrefused.mpr hrc))⟩

theorem readCb_eof (h : Open q x) (a : Answers) :
    Ends q (TcpPipe.readCb (host (Ctx.streamClose a) a) .eof x) := by
  obtain ⟨p, -, hp, -, ⟨hdestroyed, -⟩, -⟩ := h.exists_pipe
  unfold TcpPipe.readCb
  rw [pipe_host hp, if_neg (by rw [hdestroyed]; decide)]
  exact (h.modify _ fun p ↦ .of_turned p.turned_stopReading).sideClose a

/-- **Bytes come over the stream**: they are in flight, or the pipe is closed. -/
theorem onStreamData (h : Open q x) (a : Answers) {data : Bytes} (hne : data ≠ []) :
    let x' := TcpPipe.onStreamData (host (Ctx.streamClose a) a) a.uv data x
    (Open (q ++ [data]) x' ∧ a.uv.write = 0) ∨ (Cut x' ∧ a.uv.write ≠ 0) := by
  obtain ⟨p, t, hp, ht, ⟨hdestroyed, hclosing, -⟩, -, hwrites, hinflight, -⟩ := h.exists_pipe
  have hqueued : Open (q ++ [data]) ((host (Ctx.streamClose a) a).modify (fun p ↦
      { p with
        tcp := some { t with writes := t.writes ++ [data] }
        inflightWrites := p.inflightWrites + 1
        pendingBytes := p.pendingBytes + data.length }) x) := by
    rw [TcpPipe.Host.modify, pipe_host hp]
    have hset := h.setPipe
      { p with
        tcp := some { t with writes := t.writes ++ [data] }
        inflightWrites := p.inflightWrites + 1
        pendingBytes := p.pendingBytes + data.length } hp
      (TcpPipe.sameBond_of_tcp ht rfl rfl ⟨rfl, rfl⟩ rfl) rfl
      (by simp [hinflight, hwrites]) (by
        intro d hd
        rcases List.mem_append.mp hd with hd | hd
        · exact h.ne d (hwrites ▸ hd)
        · rw [List.mem_singleton.mp hd]
          exact hne)
    rw [← hwrites]
    exact hset
  -- Above the high-water mark the stream is paused, which is a call like any other.
  have hpause : ∀ {y : Ctx}, Open (q ++ [data]) y →
      Open (q ++ [data]) ((makeSide (Ctx.streamClose a) a).pause y) := by
    intro y hy
    simp only [makeSide]
    split_ifs
    · exact hy.streamCall .pause
    · exact hy
  unfold TcpPipe.onStreamData
  rw [pipe_host hp, ht]
  have hlive : ¬(p.destroyed = true ∨ p.closing = true) := by
    rw [hdestroyed, hclosing]
    decide
  dsimp only
  rw [if_neg hlive, if_neg hne]
  split_ifs with hrefused hpaused
  · exact Or.inr ⟨(h.destroy (closer_streamClose a)).1, hrefused⟩
  · exact Or.inl ⟨hpause (hqueued.modify _ fun _ ↦ ⟨⟨⟨rfl, rfl⟩, rfl, rfl⟩, rfl, rfl⟩),
      not_not.mp hrefused⟩
  · exact Or.inl ⟨hqueued, not_not.mp hrefused⟩

theorem writeCb {d : Bytes} (h : Open (d :: q) x) (a : Answers) :
    Ends q (TcpPipe.writeCb (host (Ctx.streamClose a) a) 0 x) := by
  obtain ⟨p, t, hp, ht, -, -, hwrites, hinflight, -⟩ := h.exists_pipe
  have hpopped : Open q ((host (Ctx.streamClose a) a).modify (fun p ↦
      { p with
        tcp := some { t with writes := q }
        inflightWrites := p.inflightWrites - 1
        pendingBytes := p.pendingBytes -
          (if d.length < p.pendingBytes then d.length else p.pendingBytes) }) x) := by
    rw [TcpPipe.Host.modify, pipe_host hp]
    refine h.setPipe
      { p with
        tcp := some { t with writes := q }
        inflightWrites := p.inflightWrites - 1
        pendingBytes := p.pendingBytes -
          (if d.length < p.pendingBytes then d.length else p.pendingBytes) } hp
      (TcpPipe.sameBond_of_tcp ht rfl rfl ⟨rfl, rfl⟩ rfl) rfl ?_ fun b hb ↦
        h.ne b (List.mem_cons_of_mem d hb)
    simp [hinflight]
  have hresume : ∀ {y : Ctx}, Open q y →
      Open q ((makeSide (Ctx.streamClose a) a).resume y) := by
    intro y hy
    simp only [makeSide]
    -- Below the low-water mark the stream is resumed; either way the pipe may be done flushing.
    split_ifs
    · exact hy.streamCall .resume
    · exact hy
  unfold TcpPipe.writeCb
  rw [pipe_host hp, ht]
  dsimp only
  rw [hwrites]
  simp only [ne_eq, not_true_eq_false, if_false]
  split_ifs
  · have hresumed := hresume (hpopped.modify (k := Ctx.streamClose a) (a := a)
      (fun p ↦ { p with streamPaused := false }) fun _ ↦ ⟨⟨⟨rfl, rfl⟩, rfl, rfl⟩, rfl, rfl⟩)
    exact hresumed.flushFinished (closer_streamClose a)
  · exact hpopped.flushFinished (closer_streamClose a)

theorem drainCb (h : Open q x) (a : Answers) (drain : Drain) : Open q (x.drainCb a drain) := by
  have hfreed : Open q (x.modify fun c ↦ { c with drains := c.drains.erase drain }) := h.log _ _ _
  unfold Ctx.drainCb
  dsimp only
  split_ifs
  · exact hfreed
  · have hacked : Open q ((host (Ctx.streamClose a) a).modify (fun p ↦ p.ack drain.len)
        (x.modify fun c ↦ { c with drains := c.drains.erase drain })) :=
      hfreed.modify _ fun _ ↦ ⟨⟨⟨rfl, rfl⟩, rfl, rfl⟩, rfl, rfl⟩
    unfold TcpPipe.onDrain
    dsimp only
    split_ifs
    · exact hacked.modify _ fun p ↦ .of_turned (p.turned_resumeReading a.uv)
    · exact hacked

end Open

/-! ## Events of a closed pipe -/

namespace Cut

variable {x : Ctx} {a : Answers}

theorem reap (h : Cut x) : Cut x.reap := by
  unfold Ctx.reap
  split_ifs
  · exact h
  · exact h
  · exact h
  · exact h
  · exact ⟨h.uvClosed, h.streamOpen, h.pipe⟩

theorem streamCloseCb (h : Cut x) : Cut x.streamCloseCb := by
  obtain ⟨p, hp, hdestroyed⟩ := h.pipe
  have hend : Cut x.endStream := ⟨h.uvClosed, h.streamOpen, p, hp, hdestroyed⟩
  cases hheld : x.conn.held with
  | false =>
    rw [streamCloseCb_of_not_held hheld]
    exact ⟨h.uvClosed, h.streamOpen, p, hp, hdestroyed⟩
  | true =>
    cases hudp : x.conn.udp with
    | false =>
      rw [streamCloseCb_of_destroyed hheld hudp hp hdestroyed]
      exact hend.reap
    | true =>
      rw [streamCloseCb_eq hheld, if_pos hudp]
      refine Cut.reap ?_
      unfold dropClient
      split_ifs
      · exact ⟨hend.uvClosed, hend.streamOpen, hend.pipe⟩
      · exact hend

theorem streamClose (h : Cut x) (a : Answers) : Cut (x.streamClose a) := by
  have hcalled : Cut x.closeLater := ⟨h.uvClosed, h.streamOpen, h.pipe⟩
  unfold Ctx.streamClose
  split_ifs
  · exact hcalled.streamCloseCb
  · exact hcalled

/-- **What is cut stays cut**, whatever the pipe's callbacks do. -/
theorem keeps (a : Answers) : (host (Ctx.streamClose a) a).Keeps Cut where
  modify := by
    intro x f hbond h
    obtain ⟨p, hp, hdestroyed⟩ := h.pipe
    rw [pipe_host hp] at hbond
    rw [TcpPipe.Host.modify, pipe_host hp]
    exact ⟨h.uvClosed, h.streamOpen, f p, rfl, hbond.life.1.trans hdestroyed⟩
  write := by
    intro x data onDrain h
    obtain ⟨pending, drains, calls, heq, -⟩ := exists_write_eq (Ctx.streamClose a) a data onDrain x
    have hwritten : ((host (Ctx.streamClose a) a).stream.write data onDrain x).2
        = x.modify fun c ↦ { c with pending := pending, drains := drains, calls := calls } := heq
    rw [hwritten]
    exact ⟨h.uvClosed, h.streamOpen, h.pipe⟩
  pause := by
    intro x h
    simp only [host, makeSide]
    split_ifs
    · exact ⟨h.uvClosed, h.streamOpen, h.pipe⟩
    · exact h
  resume := by
    intro x h
    simp only [host, makeSide]
    split_ifs
    · exact ⟨h.uvClosed, h.streamOpen, h.pipe⟩
    · exact h
  close := by
    intro x h
    simp only [host, makeSide]
    split_ifs
    · exact h.streamClose a
    · exact h
  destroy := by
    intro x h
    obtain ⟨p, hp, hdestroyed⟩ := h.pipe
    rw [TcpPipe.destroy_of_destroyed _ (by rw [pipe_host hp, hdestroyed])]
    exact h

theorem step (h : Cut x) {e : Event} (henabled : x.conn.Enabled e) : Cut (Conn.step x e) := by
  obtain ⟨p, hp, hdestroyed⟩ := h.pipe
  cases e with
  | streamOpen a => exact absurd (h.streamOpen.symm.trans henabled.2) (by decide)
  | streamData data a =>
    simp only [Conn.step, streamDataCb]
    split_ifs
    · exact h
    · exact (keeps a).onStreamData a.uv data h
    · exact h
  | streamClose => exact h.streamCloseCb
  | drained drain a =>
    simp only [Conn.step, drainCb]
    split_ifs
    · exact ⟨h.uvClosed, h.streamOpen, h.pipe⟩
    · exact (keeps a).onDrain a.uv drain.len ⟨h.uvClosed, h.streamOpen, h.pipe⟩
  | read nread a =>
    exact (keeps a).readCb nread
      ((keeps a).modify _ (TcpPipe.turned_markEnded _ nread).sameBond h)
  | written status a => exact (keeps a).writeCb status h
  | closed =>
    have hclosed : ∀ p' : TcpPipe, p'.destroyed = true →
        Cut (x.modify fun c ↦ { c with pipe := some p' }) :=
      fun p' hp' ↦ ⟨h.uvClosed, h.streamOpen, p', rfl, hp'⟩
    simp only [Conn.step, TcpPipe.closedCb, TcpPipe.fireOnDestroy, TcpPipe.Host.modify,
      pipe_host hp]
    split_ifs
    · simp only [host]
      split_ifs
      · exact hclosed _ hdestroyed
      · exact Cut.reap ⟨h.uvClosed, h.streamOpen, _, rfl, hdestroyed⟩
    · exact hclosed _ hdestroyed

end Cut

/-! ## Runs -/

/-- How far a connection has come, with the bytes `left` outstanding. -/
inductive Stage : Bytes → Ctx → Prop
  | dialled (handle : ℕ) (proxy : UdpProxy) : Stage [] (dialled handle proxy)
  | opened {q : List Bytes} {x : Ctx} (h : Open q x) : Stage q.flatten x
  | cut {left : Bytes} {x : Ctx} (h : Cut x) (idle : left = [] → InFlight [] x) : Stage left x
  /-- The stream closed before it was open. -/
  | ended {x : Ctx} (live : x.conn.live = false) (pipe : x.conn.pipe = none)
      (held : x.conn.held = false) : Stage [] x

theorem sound_dialled (handle : ℕ) (proxy : UdpProxy) : (dialled handle proxy).conn.Sound := by
  refine ⟨rfl, rfl, fun _ ↦ rfl, fun hdial ↦ ?_, fun _ ↦ ⟨rfl, rfl⟩, fun t ht ↦ ?_, fun p hp ↦ ?_⟩
  · exact absurd (show (false : Bool) = true from hdial) (by decide)
  · obtain rfl := Option.some.inj ht
    exact ⟨rfl, rfl, rfl⟩
  · exact absurd hp.symm (Option.some_ne_none p)

theorem exact_dialled (handle : ℕ) (proxy : UdpProxy) : (dialled handle proxy).conn.Exact :=
  ⟨rfl, fun _ ↦ Or.inr rfl⟩

theorem open_streamOpenCb (handle : ℕ) (proxy : UdpProxy) (a : Answers) :
    Open [] ((dialled handle proxy).streamOpenCb a) := by
  obtain ⟨hsettles, hexact⟩ :=
    streamOpenCb_settles (a := a) (sound_dialled handle proxy) (exact_dialled handle proxy)
  have hqueue := SameQueue.of_turned (TcpPipe.turned_startReading
    { onDestroy := true, tcp := some { id := handle } } a.uv)
  have htcp := hqueue.writes
  rw [Option.map_some] at htcp
  obtain ⟨t, ht, hwrites⟩ := Option.map_eq_some_iff.mp htcp
  refine ⟨hsettles.sound, hexact, rfl, rfl, rfl, fun d hd ↦ absurd hd List.not_mem_nil,
    bridgedPipe a { id := handle }, t, rfl, ht, ?_, hwrites, hqueue.inflight⟩
  exact hqueue.bond.life.1

theorem Cut.closing {x : Ctx} (h : Cut x) (hsound : x.conn.Sound) {t : UvTcp}
    (ht : t ∈ TcpPipe.handle x.conn.pipe) : t.closing = true := by
  obtain ⟨p, hp, hdestroyed⟩ := h.pipe
  have htcp : p.tcp = some t := (TcpPipe.handle_of_eq hp).symm.trans ht
  rcases (hsound.pipe p hp).2.2 with ⟨hattached | hdetaching, -⟩ | ⟨hdetached, -⟩
  · exact absurd (hattached.1.symm.trans hdestroyed) (by decide)
  · obtain ⟨-, -, -, id, hbond⟩ := hdetaching
    rw [TcpPipe.bond, htcp, Option.map_some] at hbond
    exact congrArg Prod.snd (Option.some.inj hbond)
  · exact absurd (hdetached.2.2.2.symm.trans htcp) (Option.some_ne_none t).symm

theorem Cut.inFlight_step {x : Ctx} (h : Cut x) (hidle : InFlight [] x) (hsound : x.conn.Sound)
    {e : Event} (henabled : x.conn.Enabled e) : InFlight [] (Conn.step x e) := by
  obtain ⟨p, hp, hdestroyed⟩ := h.pipe
  have hpipe : ∀ {y : Ctx}, y.conn.pipe = x.conn.pipe → InFlight [] y := by
    intro y hy t ht
    exact hidle t (by rwa [← hy])
  cases e with
  | streamOpen a => exact absurd (h.streamOpen.symm.trans henabled.2) (by decide)
  | streamData data a =>
    have hdeaf : ((host (Ctx.streamClose a) a).pipe x).destroyed = true := by
      rw [pipe_host hp, hdestroyed]
    simp only [Conn.step, streamDataCb, TcpPipe.onStreamData_of_destroyed _ hdeaf, ite_self]
    exact hidle
  | streamClose =>
    rw [Conn.step]
    cases hheld : x.conn.held with
    | false =>
      rw [streamCloseCb_of_not_held hheld]
      exact hpipe rfl
    | true =>
      rw [streamCloseCb_of_destroyed hheld (hsound.pipe p hp).1 hp hdestroyed]
      exact hpipe (pipe_reap _)
  | drained drain a =>
    have hacked : ∀ {y : Ctx}, y.conn.pipe = some (p.ack drain.len) → InFlight [] y := by
      intro y hy t ht
      exact hidle t ((TcpPipe.handle_of_eq hp).trans ((TcpPipe.handle_of_eq hy).symm.trans ht))
    simp only [Conn.step, drainCb]
    split_ifs
    · exact hpipe rfl
    · have hstill : (p.ack drain.len).resumeReading a.uv = p.ack drain.len := if_pos hdestroyed
      simp only [TcpPipe.onDrain, TcpPipe.Host.modify, host, Ctx.modify, hp, Option.getD_some,
        hstill]
      split_ifs <;> exact hacked rfl
  | read nread a =>
    obtain ⟨t, ht, -, hopen, -⟩ := henabled
    exact absurd ((h.closing hsound ht).symm.trans hopen) (by decide)
  | written status a =>
    obtain ⟨t, ht, hsome⟩ := henabled
    exact absurd (hidle t ht) hsome
  | closed =>
    have hnone : ∀ {y : Ctx} {p' : TcpPipe}, y.conn.pipe = some p' → p'.tcp = none →
        InFlight [] y := by
      intro y p' hy hp' t ht
      exact absurd (hp'.symm.trans ((TcpPipe.handle_of_eq hy).symm.trans ht))
        (Option.some_ne_none t).symm
    simp only [Conn.step, TcpPipe.closedCb, TcpPipe.fireOnDestroy, TcpPipe.Host.modify,
      pipe_host hp]
    split_ifs
    · simp only [host]
      split_ifs
      · exact hnone rfl rfl
      · exact hnone (pipe_reap _) rfl
    · exact hnone rfl rfl

/-- What is outstanding after an event, and whether the event was one to spare it. -/
structure Follows (left : Bytes) (x : Ctx) (e : Event) (left' : Bytes) : Prop where
  balance : left ++ e.received = x.conn.completes e ++ left'
  stage : Stage left' (step x e)
  spared : ((step x e).conn.uvClosed ≠ [] → left' = []) ↔ x.conn.Spared e

variable {left : Bytes} {x : Ctx} {e : Event}

/-- A pipe that is open or was closed with nothing in flight spares what is outstanding. -/
theorem follows_of_ends {q : List Bytes} (h : Open.Ends q (step x e))
    (hbalance : left ++ e.received = x.conn.completes e ++ q.flatten)
    (hspared : x.conn.Spared e) : Follows left x e q.flatten := by
  rcases h with hopen | ⟨rfl, hcut, hidle⟩
  · exact ⟨hbalance, .opened hopen, iff_of_true (fun h ↦ absurd hopen.uvClosed h) hspared⟩
  · exact ⟨hbalance, .cut hcut fun _ ↦ hidle, iff_of_true (fun _ ↦ rfl) hspared⟩

theorem exists_follows_streamData {q : List Bytes} (h : Open q x) (a : Answers) (data : Bytes) :
    ∃ left', Follows q.flatten x (.streamData data a) left' := by
  obtain ⟨p, t, hp, ht, -, hopen, -, -, -, -, hheld⟩ := h.exists_pipe
  have hhandle := (TcpPipe.handle_of_eq hp).trans ht
  have hlocks : ¬x.conn.held = false := by rw [hheld]; decide
  by_cases hempty : data = []
  -- An empty chunk is not passed on to the pipe.
  · have hsame : step x (.streamData data a) = x := by
      rw [step, streamDataCb, if_pos (Or.inr hempty)]
    refine ⟨_, follows_of_ends (q := q) (Or.inl (hsame.symm ▸ h)) ?_ (Or.inl hempty)⟩
    rw [Event.received, hempty, List.append_nil]
    rfl
  · have hstep : step x (.streamData data a)
        = TcpPipe.onStreamData (host (streamClose a) a) a.uv data x := by
      rw [step, streamDataCb, if_neg (by simp [hlocks, hempty]), hp]
      rfl
    have hclosed := h.onStreamData a hempty
    rw [← hstep] at hclosed
    rcases hclosed with ⟨hqueued, haccepted⟩ | ⟨hcut, hrefused⟩
    · refine ⟨_, follows_of_ends (Or.inl hqueued) ?_ (Or.inr ⟨⟨t, hhandle, hopen⟩, haccepted⟩)⟩
      rw [List.flatten_concat]
      rfl
    -- The write was refused, and with it the chunk is lost.
    · refine ⟨q.flatten ++ data, rfl, .cut hcut fun hnone ↦ ?_,
        iff_of_false (fun hnone ↦ ?_) ?_⟩
      · exact absurd (List.append_eq_nil_iff.mp hnone).2 hempty
      · exact hempty (List.append_eq_nil_iff.mp (hnone hcut.uvClosed)).2
      · rintro (hnil | ⟨-, haccepted⟩)
        · exact hempty hnil
        · exact hrefused haccepted

/-- A local read leaves what is in flight alone, or destroys the pipe. -/
theorem exists_follows_read {q : List Bytes} (h : Open q x) (a : Answers) (bytes : Bytes) :
    ∃ left', Follows q.flatten x (.read (.data bytes) a) left' := by
  obtain ⟨p, t, hp, ht, -, -, hwrites, -⟩ := h.exists_pipe
  have hhandle := (TcpPipe.handle_of_eq hp).trans ht
  have hmarked : Open q ((host (streamClose a) a).modify (TcpPipe.markEnded (.data bytes)) x) :=
    h.modify _ fun p ↦ .of_turned (p.turned_markEnded (.data bytes))
  rcases hmarked.readCb_data bytes a with ⟨hstill, haccepted⟩ | ⟨⟨hcut, hwrites'⟩, hempty, hrefused⟩
  · refine ⟨_, follows_of_ends (Or.inl hstill) (List.append_nil _) ?_⟩
    exact haccepted.imp_right Or.inr
  -- The stream took nothing, so the pipe is destroyed: harmless exactly if nothing was in
  -- flight.
  · refine ⟨q.flatten, List.append_nil _,
      .cut hcut fun hnone ↦ h.eq_nil_of_flatten hnone ▸ hwrites', ?_⟩
    have hspared : x.conn.Spared (.read (.data bytes) a) ↔ q = [] := by
      constructor
      · rintro (hnil | ⟨t', ht', hnone⟩ | haccepted)
        · exact absurd hnil hempty
        · exact (h.handle_eq ht').1.symm.trans hnone
        · exact absurd haccepted hrefused
      · intro hnone
        exact Or.inr (Or.inl ⟨t, hhandle, hwrites.trans hnone⟩)
    rw [hspared]
    constructor
    · exact fun hnone ↦ h.eq_nil_of_flatten (hnone hcut.uvClosed)
    · rintro rfl -
      rfl

theorem exists_follows_of_open {q : List Bytes} (h : Open q x) (henabled : x.conn.Enabled e)
    (hundisturbed : x.conn.Undisturbed e) : ∃ left', Follows q.flatten x e left' := by
  cases e with
  | streamOpen a => exact absurd (h.streamOpen.symm.trans henabled.2) (by decide)
  | streamData data a => exact exists_follows_streamData h a data
  | streamClose => exact ⟨_, follows_of_ends h.streamCloseCb (List.append_nil _) trivial⟩
  | drained drain a =>
    exact ⟨_, follows_of_ends (Or.inl (h.drainCb a drain)) (List.append_nil _) trivial⟩
  | read nread a =>
    have hmarked : Open q ((host (streamClose a) a).modify (TcpPipe.markEnded nread) x) :=
      h.modify _ fun p ↦ .of_turned (p.turned_markEnded nread)
    cases nread with
    | eof => exact ⟨_, follows_of_ends (hmarked.readCb_eof a) (List.append_nil _) trivial⟩
    | error => exact hundisturbed.elim
    | data bytes => exact exists_follows_read h a bytes
  | written status a =>
    obtain ⟨t', ht', hsome⟩ := henabled
    rw [(h.handle_eq ht').1] at hsome
    obtain ⟨d, q, rfl⟩ := List.exists_cons_of_ne_nil hsome
    obtain rfl : status = 0 := by
      rcases hundisturbed with hstatus | ⟨t', ht', hclosing⟩
      · exact hstatus
      · exact absurd ((h.handle_eq ht').2.symm.trans hclosing) (by decide)
    obtain ⟨p, t, hp, ht, -, -, hwrites, -⟩ := h.exists_pipe
    refine ⟨_, follows_of_ends (h.writeCb a) ?_ trivial⟩
    rw [completes, if_pos rfl, (TcpPipe.handle_of_eq hp).trans ht, Option.map_some,
      Option.getD_some,
      hwrites]
    exact List.append_nil _
  | closed =>
    obtain ⟨t', ht', hclosing, -⟩ := henabled
    exact absurd ((h.handle_eq ht').2.symm.trans hclosing) (by decide)

/-- One event of a pipe that is closed, with nothing outstanding so far. -/
theorem follows_of_cut (h : Cut x) (hidle : InFlight [] x) (hsound : x.conn.Sound)
    (henabled : x.conn.Enabled e) : Follows [] x e e.received := by
  have hcut := h.step henabled
  have hnothing : x.conn.completes e = [] := by
    cases e with
    | written status a =>
      obtain ⟨t, ht, hsome⟩ := henabled
      exact absurd (hidle t ht) hsome
    | _ => rfl
  refine ⟨by rw [hnothing], .cut hcut fun _ ↦ h.inFlight_step hidle hsound henabled, ?_⟩
  have hspared : x.conn.Spared e ↔ e.received = [] := by
    cases e with
    | streamData data a =>
      refine ⟨?_, Or.inl⟩
      rintro (hnil | ⟨⟨t, ht, hopen⟩, -⟩)
      · exact hnil
      · exact absurd ((h.closing hsound ht).symm.trans hopen) (by decide)
    | read nread a =>
      obtain ⟨t, ht, -, hopen, -⟩ := henabled
      exact absurd ((h.closing hsound ht).symm.trans hopen) (by decide)
    | _ => exact iff_of_true trivial rfl
  rw [hspared]
  exact ⟨fun hnil ↦ hnil hcut.uvClosed, fun hnil _ ↦ hnil⟩

theorem exists_follows (h : Stage left x) (hsound : x.conn.Sound)
    (hleft : x.conn.uvClosed ≠ [] → left = []) (henabled : x.conn.Enabled e)
    (hundisturbed : x.conn.Undisturbed e) : ∃ left', Follows left x e left' := by
  -- The four stages of a connection; what cannot happen in a stage is ruled out by `Enabled`.
  cases h with
  | dialled handle proxy =>
    obtain ⟨-, ⟨a, rfl⟩ | ⟨data, a, rfl⟩ | rfl⟩ := hsound.event_of_noPipe rfl henabled
    · exact ⟨_, follows_of_ends (q := []) (Or.inl (open_streamOpenCb handle proxy a)) rfl trivial⟩
    · exact absurd henabled.2 Bool.false_ne_true
    · exact ⟨[], rfl, .ended rfl rfl rfl, iff_of_true (fun _ ↦ rfl) trivial⟩
  | opened hopen => exact exists_follows_of_open hopen henabled hundisturbed
  | cut hcut hidle =>
    obtain rfl := hleft hcut.uvClosed
    exact ⟨_, follows_of_cut hcut (hidle rfl) hsound henabled⟩
  | ended hlive hpipe =>
    have hstill := (hsound.event_of_noPipe hpipe henabled).1
    exact absurd (hlive.symm.trans hstill) Bool.false_ne_true

/-- **A run** from any stage: the events spare what is outstanding exactly if it is always written
by the time the handle has been closed. -/
theorem flushed_from_iff {es : List Event} (h : Stage left x) (hsound : x.conn.Sound)
    (hexact : x.conn.Exact) (hleft : x.conn.uvClosed ≠ [] → left = [])
    (henabled : Along step (fun x e ↦ x.conn.Enabled e) x es)
    (hundisturbed : Along step (fun x e ↦ x.conn.Undisturbed e) x es) :
    (∀ pre post, es = pre ++ post → (run step x pre).conn.uvClosed ≠ [] →
      completed x pre = left ++ received pre) ↔
      Along step (fun x e ↦ x.conn.Spared e) x es := by
  -- By induction on the run, for any stage and whatever is outstanding at its start.
  induction es generalizing x left with
  | nil =>
    refine iff_of_true (fun pre post hsplit hclosed ↦ ?_) trivial
    obtain ⟨rfl, -⟩ := List.nil_eq_append_iff.mp hsplit
    rw [hleft hclosed]
    rfl
  | cons e es ih =>
    obtain ⟨left', hbalance, hstage, hspared⟩ :=
      exists_follows h hsound hleft henabled.1 hundisturbed.1
    obtain ⟨hsettles, hexact'⟩ := step_settles hsound hexact henabled.1
    have hcons : ∀ pre, completed x (e :: pre) = left ++ received (e :: pre) ↔
        completed (step x e) pre = left' ++ received pre := by
      intro pre
      rw [completed, received, List.flatMap_cons, ← List.append_assoc, hbalance,
        List.append_assoc, List.append_right_inj]
      rfl
    constructor
    · intro hflushed
      -- The prefix that ends with this very event says that nothing was left.
      have hleft' : (step x e).conn.uvClosed ≠ [] → left' = [] := by
        intro hclosed
        have hnow := (hcons []).mp (hflushed [e] es rfl hclosed)
        exact (List.append_eq_nil_iff.mp hnow.symm).1
      refine ⟨hspared.mp hleft', (ih hstage hsettles.sound hexact' hleft' henabled.2
        hundisturbed.2).mp fun pre post hsplit hclosed ↦ (hcons pre).mp ?_⟩
      exact hflushed (e :: pre) post (by rw [hsplit, List.cons_append]) hclosed
    · rintro ⟨hnow, hrest⟩ pre post hsplit hclosed
      have hleft' := hspared.mpr hnow
      cases pre with
      | nil =>
        rw [hleft hclosed]
        rfl
      | cons e' pre =>
        obtain ⟨rfl, rfl⟩ := List.cons.inj hsplit
        exact (hcons pre).mpr ((ih hstage hsettles.sound hexact' hleft' henabled.2
          hundisturbed.2).mpr hrest pre post rfl hclosed)

/-- **When the last response is not cut short.** In a run without local errors, all that came over
the stream has been written by the time the handle is closed if and only if each local read finds
nothing in flight or a stream that takes it, and whatever comes over the stream finds a handle that
takes it. -/
theorem flushed_iff_spared (handle : ℕ) (proxy : UdpProxy) (es : List Event)
    (henabled : Along step (fun x e ↦ x.conn.Enabled e) (dialled handle proxy) es)
    (hundisturbed : Along step (fun x e ↦ x.conn.Undisturbed e) (dialled handle proxy) es) :
    Flushed (dialled handle proxy) es ↔
      Along step (fun x e ↦ x.conn.Spared e) (dialled handle proxy) es :=
  flushed_from_iff (.dialled handle proxy) (sound_dialled handle proxy)
    (exact_dialled handle proxy) (fun hclosed ↦ absurd rfl hclosed) henabled hundisturbed

/-- A response in flight, and the stream closes; the write completes. -/
theorem flushed_iff_spared_at :
    Flushed (dialled 0 {}) [.streamOpen {}, .streamData [1] {}, .streamClose, .written 0 {}] :=
  (flushed_iff_spared 0 {} _ (by decide) (by decide)).mpr (by decide)

/-- The same response, but the local socket is read before its write completes: the closed stream
refuses the bytes read, and the pipe is destroyed with the response in flight. -/
theorem response_cut_short :
    ¬∀ (handle : ℕ) (proxy : UdpProxy) (es : List Event),
      Along step (fun x e ↦ x.conn.Enabled e) (dialled handle proxy) es →
      Along step (fun x e ↦ x.conn.Undisturbed e) (dialled handle proxy) es →
      Flushed (dialled handle proxy) es := by
  intro h
  have hflushed := h 0 {} [.streamOpen {}, .streamData [1] {}, .streamClose, .read (.data [2]) {}]
    (by decide) (by decide)
  have hwritten := hflushed _ [] (List.append_nil _).symm (by decide)
  exact absurd hwritten (by decide)

end Conn

end HolesailClient

end Holesail
