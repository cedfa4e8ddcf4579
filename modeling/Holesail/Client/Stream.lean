import Holesail.Client.Flush
import Holesail.Client.Leaks
import Holesail.Theory.Conduit

/-!
# What becomes of the bytes of a connection

A connection of the client is a gateway between a local socket and a stream, and a conduit both
ways. What is read from the socket goes to the stream at once, or is refused and destroys the pipe.
What comes over the stream waits in libuv's queue and is written in order. The connection stands
until `uv_close` is issued on its handle. The client that owns it may be destroyed at any time.

## Main results

`carries_reads` and `carries_received`: the two conduits, in every run, errors and the owner's
teardown included.
-/

namespace Holesail

namespace HolesailClient

namespace Conn

open Run Ctx

/-! ## The gateway -/

/-- An event of the connection, or its owner's teardown. -/
inductive Act where
  | event (e : Event)
  /-- The client is destroyed, with the connection in `conns_`. -/
  | destroy (a : Answers)

def act (x : Ctx) : Act → Ctx
  | .event e => step x e
  | .destroy a => shutdownConn (streamClose a) a x

/-- The bytes of an event, by `f`. The teardown moves none. -/
def Act.bytes (f : Event → Bytes) : Act → Bytes
  | .event e => f e
  | .destroy _ => []

/-- The bytes that an event takes from the local socket. -/
def Event.readBytes : Event → Bytes
  | .read (.data bytes) _ => bytes
  | _ => []

/-- The bytes that the stream took from `x` to `y`. -/
def handed (x y : Ctx) : Bytes := taken (y.conn.calls.drop x.conn.calls.length)

/-- `uv_close` cancels the writes in flight. -/
def Cancels (c : Conn) : Event → Prop
  | .written status _ => ∀ t ∈ TcpPipe.handle c.pipe, t.Cancels status
  | _ => True

instance (c : Conn) : (e : Event) → Decidable (c.Cancels e)
  | .written _ _ => inferInstanceAs (Decidable (∀ t ∈ TcpPipe.handle c.pipe, _))
  | .streamOpen _ | .streamData _ _ | .streamClose | .drained _ _ | .read _ _ | .closed =>
    inferInstanceAs (Decidable True)

/-- It may happen, and does not undo what `uv_close` did. -/
def Orderly (c : Conn) : Act → Prop
  | .event e => c.Enabled e ∧ c.Cancels e
  | .destroy _ => c.held = true

instance (c : Conn) : (d : Act) → Decidable (c.Orderly d)
  | .event _ => inferInstanceAs (Decidable (_ ∧ _))
  | .destroy _ => inferInstanceAs (Decidable (_ = _))

/-- A connection of the client, between its local socket and its stream. -/
def gateway : Conduit.Gateway Ctx Act UInt8 where
  step := act
  reads := fun _ ↦ Act.bytes Event.readBytes
  sends := fun x d ↦ handed x (act x d)
  receives := fun _ ↦ Act.bytes Event.received
  writes := fun x ↦ Act.bytes x.conn.completes

/-- The bytes on their way to the local socket. -/
def underway (x : Ctx) : Bytes := (((TcpPipe.handle x.conn.pipe).map UvTcp.writes).getD []).flatten

/-- `uv_close` has not been issued. -/
def Standing (x : Ctx) : Prop := x.conn.uvClosed = []

instance (x : Ctx) : Decidable (Standing x) := inferInstanceAs (Decidable (_ = _))

variable {x y z : Ctx} {a : Answers} {e : Event} {d : Act} {q : List Bytes} {left : Bytes}

/-! ## What hands nothing to the stream -/

/-- The stream takes nothing meanwhile. -/
def Hushed (x y : Ctx) : Prop := ∃ l, y.conn.calls = x.conn.calls ++ l ∧ taken l = []

theorem hushed_of_calls (h : y.conn.calls = x.conn.calls) : Hushed x y :=
  ⟨[], by rw [h, List.append_nil], rfl⟩

theorem Hushed.trans (h : Hushed x y) (h' : Hushed y z) : Hushed x z := by
  obtain ⟨l, hl, hnone⟩ := h
  obtain ⟨l', hl', hnone'⟩ := h'
  refine ⟨l ++ l', by rw [hl', hl, List.append_assoc], ?_⟩
  rw [taken_append, hnone, hnone']
  rfl

theorem handed_of_append {l : List StreamCall} (h : y.conn.calls = x.conn.calls ++ l) :
    handed x y = taken l := by
  rw [handed, h, List.drop_left]

theorem Hushed.handed (h : Hushed x y) : handed x y = [] := by
  obtain ⟨l, hl, hnone⟩ := h
  rw [handed_of_append hl, hnone]

theorem hushed_streamCall {call : StreamCall} (hcall : taken [call] = []) (x : Ctx) :
    Hushed x (x.streamCall call) := ⟨[call], rfl, hcall⟩

theorem hushed_write {k : Ctx → Ctx} {data : Bytes} {onDrain : Option Drain}
    (hfails : ¬(x.conn.stream = true ∧ 0 ≤ a.write)) :
    Hushed x ((makeSide k a).write data onDrain x).2 := by
  simp only [makeSide]
  split_ifs with hclosed hopening hfull
  · exact hushed_of_calls rfl
  · exact hushed_of_calls rfl
  · exact hushed_of_calls rfl
  · rw [not_or, Bool.not_eq_false] at hopening
    have hrc : a.write < 0 := not_le.mp fun hrc ↦ hfails ⟨hopening.1, hrc⟩
    have hlogged : taken [.write data a.write] = [] := taken_write_of_refused hrc data
    cases onDrain with
    | none => exact ⟨_, rfl, hlogged⟩
    | some drain =>
      simp only [streamWrite, hrc, if_true]
      exact ⟨_, rfl, hlogged⟩

/-- But for the writes, no callback hands anything to the stream. -/
theorem allows_hushed : AllowsLife Hushed where
  refl := fun _ ↦ hushed_of_calls rfl
  trans := Hushed.trans
  own := fun _ _ _ _ _ _ _ _ ↦ hushed_of_calls rfl
  dropClient := fun x ↦ hushed_of_calls (congrArg Conn.calls (conn_dropClient x))
  pause := hushed_streamCall rfl
  resume := hushed_streamCall rfl
  closeLater := hushed_streamCall rfl
  life := fun _ _ _ _ _ _ _ ↦ hushed_of_calls rfl

theorem flush_of_pending (hpending : x.conn.pending = []) :
    flush a (x.modify fun c ↦ { c with streamOpen := true })
      = (0, x.modify fun c ↦ { c with streamOpen := true }) := if_pos hpending

/-- **Only a read of some bytes hands anything to the stream.** -/
theorem hushed_step (hpending : x.conn.streamOpen = false → x.conn.pending = [])
    (henabled : x.conn.Enabled e) (hread : e.readBytes = []) : Hushed x (step x e) := by
  cases e with
  | streamOpen a =>
    -- Nothing was withheld, so nothing is flushed.
    refine allows_hushed.streamOpenCb ?_
    rw [flush_of_pending (hpending henabled.2)]
    exact hushed_of_calls rfl
  | streamData data a => exact allows_hushed.streamDataCb a data x
  | streamClose => exact allows_hushed.streamCloseCb x
  | drained drain a =>
    have hfreed : Hushed x (x.modify fun c ↦ { c with drains := c.drains.erase drain }) :=
      hushed_of_calls rfl
    exact hfreed.trans (allows_hushed.drainCb a drain x)
  | read nread a =>
    have hwithin := allows_hushed.within (allows_hushed.streamClose a) a
    have hmarked : Hushed x ((host (streamClose a) a).modify (TcpPipe.markEnded nread) x) :=
      hushed_of_calls rfl
    refine hmarked.trans ?_
    cases nread with
    | eof => exact hwithin.readCb .eof _
    | error => exact hwithin.readCb .error _
    | data bytes =>
      obtain rfl : bytes = [] := hread
      rw [Conn.step, readCb_nil]
      exact hushed_of_calls rfl
  | written status a => exact allows_hushed.written a status x
  | closed => exact allows_hushed.closed x

/-! ## A read -/

/-- The pipe has counted a read, and hands it on. -/
def count (len : ℕ) (p : TcpPipe) : TcpPipe :=
  { p with
    streamPendingBytes := p.streamPendingBytes + len
    drains := p.drains + 1 }

theorem exists_hushed_readCb {k : Ctx → Ctx} {bytes : Bytes} {p : TcpPipe}
    (hk : ∀ x, Hushed x (k x)) (hp : x.conn.pipe = some p) (hdestroyed : p.destroyed = false)
    (hne : bytes ≠ []) : ∃ drain, Hushed
      ((makeSide k a).write bytes (some drain) ((host k a).modify (count bytes.length) x)).2
      (TcpPipe.readCb (host k a) (.data bytes) x) := by
  have hwithin := allows_hushed.within hk a
  refine ⟨⟨p.drains, bytes.length⟩, ?_⟩
  unfold TcpPipe.readCb
  rw [pipe_host hp, if_neg (by rw [hdestroyed]; decide)]
  dsimp only
  rw [if_neg hne]
  split_ifs
  · exact (hwithin.setPipe _ _).trans (hwithin.destroy _)
  · exact hwithin.setPipe _ _
  · exact hwithin.refl _

theorem calls_write_of_taken {k : Ctx → Ctx} (data : Bytes) (drain : Drain) (h : Open q x)
    (hstream : x.conn.stream = true) (hrc : 0 ≤ a.write) :
    ((makeSide k a).write data (some drain) x).2.conn.calls
      = x.conn.calls ++ [.write data a.write] := by
  obtain ⟨-, -, -, -, -, -, -, -, -, -, hheld⟩ := h.exists_pipe
  have hclosed : x.conn.streamClosed = false := by
    have hsame := h.stream
    rwa [hstream, eq_comm, Bool.not_eq_true'] at hsame
  have hrc' : ¬a.write < 0 := not_lt.mpr hrc
  simp only [makeSide, hheld, hclosed, hstream, h.streamOpen, streamWrite, Bool.true_eq_false,
    Bool.false_eq_true, or_self, if_false, hrc']
  rfl

/-- **A local read of an open pipe** is handed to the stream whole, or not at all with the pipe
destroyed. -/
theorem read_cases (h : Open q x) (bytes : Bytes) (a : Answers) :
    let y := step x (.read (.data bytes) a)
    (Open q y ∧ handed x y = bytes) ∨ (Cut y ∧ handed x y = []) := by
  have hmarked : Open q ((host (streamClose a) a).modify (TcpPipe.markEnded (.data bytes)) x) :=
    h.modify _ fun p ↦ .of_turned (p.turned_markEnded (.data bytes))
  obtain ⟨p, -, hp, -, ⟨hdestroyed, -⟩, -⟩ := hmarked.exists_pipe
  have hread := hmarked.readCb_data bytes a
  by_cases hempty : bytes = []
  · have hsame : step x (.read (.data bytes) a)
        = (host (streamClose a) a).modify (TcpPipe.markEnded (.data bytes)) x := by
      rw [hempty]
      exact readCb_nil _ a _
    have hhushed : Hushed x (step x (.read (.data bytes) a)) := hsame ▸ hushed_of_calls rfl
    exact Or.inl ⟨hsame ▸ hmarked, hhushed.handed.trans hempty.symm⟩
  have hcounted := hmarked.modify (k := streamClose a) (a := a) (count bytes.length)
    fun _ ↦ ⟨⟨⟨rfl, rfl⟩, rfl, rfl⟩, rfl, rfl⟩
  obtain ⟨drain, hafter⟩ :=
    exists_hushed_readCb (a := a) (allows_hushed.streamClose a) hp hdestroyed hempty
  rcases hread with ⟨hstill, htaken⟩ | ⟨hcut, -, hrefused⟩
  · obtain ⟨hstream, hrc⟩ := htaken.resolve_left hempty
    obtain ⟨l, hl, hnone⟩ := hafter
    rw [calls_write_of_taken bytes drain hcounted hstream hrc, List.append_assoc] at hl
    refine Or.inl ⟨hstill, (handed_of_append hl).trans ?_⟩
    rw [taken_append, hnone, taken_write_of_accepted hrc, List.append_nil]
  · have hcounts : Hushed x ((host (streamClose a) a).modify (count bytes.length)
      ((host (streamClose a) a).modify (TcpPipe.markEnded (.data bytes)) x)) := hushed_of_calls rfl
    have hhushed : Hushed x (step x (.read (.data bytes) a)) := by
      refine hcounts.trans (Hushed.trans ?_ hafter)
      exact hushed_write hrefused
    exact Or.inr ⟨hcut.1, hhushed.handed⟩

/-! ## Errors -/

theorem Open.cut_of_read_error (h : Open q x) (a : Answers) :
    Cut (step x (.read .error a)) ∧ InFlight q (step x (.read .error a)) := by
  have hmarked : Open q ((host (streamClose a) a).modify (TcpPipe.markEnded .error) x) :=
    h.modify _ fun p ↦ .of_turned (p.turned_markEnded .error)
  obtain ⟨p, -, hp, -, ⟨hdestroyed, -⟩, -⟩ := hmarked.exists_pipe
  rw [Conn.step, TcpPipe.readCb.eq_def, pipe_host hp, if_neg (by rw [hdestroyed]; decide)]
  exact hmarked.destroy (closer_streamClose a)

theorem Open.cut_of_write_error {d : Bytes} (h : Open (d :: q) x) (a : Answers) {status : ℤ}
    (hstatus : status ≠ 0) : Cut (step x (.written status a)) := by
  obtain ⟨p, t, hp, ht, -, -, hwrites, hinflight, -⟩ := h.exists_pipe
  have hpopped := h.setPipe
    { p with
      tcp := some { t with writes := q }
      inflightWrites := p.inflightWrites - 1
      pendingBytes := p.pendingBytes -
        (if d.length < p.pendingBytes then d.length else p.pendingBytes) } hp
    (TcpPipe.sameBond_of_tcp ht rfl rfl ⟨rfl, rfl⟩ rfl) rfl (by simp [hinflight])
    fun b hb ↦ h.ne b (List.mem_cons_of_mem d hb)
  rw [Conn.step, TcpPipe.writeCb.eq_def, pipe_host hp, ht]
  dsimp only
  rw [hwrites]
  dsimp only
  rw [if_pos hstatus, TcpPipe.Host.modify, pipe_host hp]
  exact (hpopped.destroy (closer_streamClose a)).1

/-! ## The teardown -/

/-- The accepted socket was given back before the stream was open, and nothing came in its place. -/
structure Forsaken (x : Ctx) : Prop where
  uvClosed : x.conn.uvClosed ≠ []
  tcp : x.conn.tcp = none
  pipe : x.conn.pipe = none
  pending : x.conn.pending = []

namespace Forsaken

theorem reap (h : Forsaken x) : Forsaken x.reap := by
  unfold Ctx.reap
  split_ifs
  · exact h
  · exact h
  · exact h
  · exact h
  · exact ⟨h.uvClosed, h.tcp, h.pipe, h.pending⟩

theorem dropClient (h : Forsaken x) : Forsaken x.dropClient := by
  have hconn := conn_dropClient x
  exact ⟨hconn ▸ h.uvClosed, hconn ▸ h.tcp, hconn ▸ h.pipe, hconn ▸ h.pending⟩

theorem streamCloseCb (h : Forsaken x) : Forsaken x.streamCloseCb := by
  have hended : Forsaken x.endStream := ⟨h.uvClosed, h.tcp, h.pipe, h.pending⟩
  cases hheld : x.conn.held with
  | false =>
    rw [streamCloseCb_of_not_held hheld]
    exact ⟨h.uvClosed, h.tcp, h.pipe, h.pending⟩
  | true =>
    have hnoPipe : ¬x.conn.pipe.isSome := by rw [h.pipe]; exact Bool.false_ne_true
    have hnoSocket : ¬x.conn.tcp.isSome := by rw [h.tcp]; exact Bool.false_ne_true
    rw [streamCloseCb_eq hheld, if_neg hnoPipe, if_neg hnoSocket]
    split_ifs
    · exact hended.dropClient.reap
    · exact hended.reap

theorem streamClose (h : Forsaken x) (a : Answers) : Forsaken (x.streamClose a) := by
  have hcalled : Forsaken x.closeLater := ⟨h.uvClosed, h.tcp, h.pipe, h.pending⟩
  unfold Ctx.streamClose
  split_ifs
  · exact hcalled.streamCloseCb
  · exact hcalled

theorem streamOpenCb (h : Forsaken x) (a : Answers) : Forsaken (x.streamOpenCb a) := by
  have hopened : Forsaken (x.modify fun c ↦ { c with streamOpen := true }) :=
    ⟨h.uvClosed, h.tcp, h.pipe, h.pending⟩
  -- There is nothing to flush, and no socket to hand to a pipe.
  have hbridge : (x.modify fun c ↦ { c with streamOpen := true }).bridge a
      = x.modify fun c ↦ { c with streamOpen := true } := by
    rw [bridge.eq_def, hopened.tcp]
  rw [Ctx.streamOpenCb, onStreamOpen, flush_of_pending h.pending]
  dsimp only
  rw [if_neg (lt_irrefl (0 : ℤ)), hbridge, ite_self]
  split_ifs
  · exact h
  · exact hopened

theorem step (h : Forsaken x) (hsound : x.conn.Sound) (henabled : x.conn.Enabled e) :
    Forsaken (Conn.step x e) := by
  obtain ⟨-, ⟨a, rfl⟩ | ⟨data, a, rfl⟩ | rfl⟩ := hsound.event_of_noPipe h.pipe henabled
  · exact h.streamOpenCb a
  · rw [Conn.step, streamDataCb, h.pipe]
    split_ifs
    · exact h
    · exact absurd ‹_› Bool.false_ne_true
    · exact h
  · exact h.streamCloseCb

/-- Once the socket is given back, the stream is all there is to end. -/
theorem shutdownConn (h : Forsaken x.closeAccepted) (a : Answers) :
    Forsaken (shutdownConn (Ctx.streamClose a) a x) := by
  have hdropped := h.dropClient
  refine Forsaken.reap ?_
  unfold endPipe
  split_ifs with hpipe
  · rw [hdropped.pipe] at hpipe
    exact absurd hpipe.1 Bool.false_ne_true
  · exact hdropped.streamClose a
  · exact hdropped

end Forsaken

theorem shutdownConn_of_pipe {k : Ctx → Ctx} {p : TcpPipe} (hsound : x.conn.Sound)
    (hp : x.conn.pipe = some p) : shutdownConn k a x = (endPipe k a x).reap := by
  have haccepted : x.closeAccepted = x := by
    rw [closeAccepted, hsound.tcp_of_pipe hp]
  have hdropped : x.dropClient = x := if_neg (by rw [(hsound.pipe p hp).1]; decide)
  rw [shutdownConn, haccepted, hdropped]

theorem Open.shutdownConn (h : Open q x) (a : Answers) :
    Cut (shutdownConn (streamClose a) a x) := by
  obtain ⟨p, -, hp, -, -, -, -, -, hdone, -⟩ := h.exists_pipe
  have hends : x.conn.pipe.isSome ∧ x.conn.pipeDone = false := ⟨by rw [hp]; rfl, hdone⟩
  rw [shutdownConn_of_pipe h.sound hp, endPipe, if_pos hends]
  exact (h.destroy (closer_streamClose a)).1.reap

theorem Cut.shutdownConn (h : Cut x) (hsound : x.conn.Sound) (a : Answers) :
    Cut (shutdownConn (Ctx.streamClose a) a x) := by
  obtain ⟨p, hp, -⟩ := h.pipe
  rw [shutdownConn_of_pipe hsound hp]
  refine Cut.reap ?_
  unfold endPipe
  split_ifs
  · exact (Cut.keeps a).destroy h
  · exact h.streamClose a
  · exact h

/-! ## The life of a connection -/

/-- `uv_close` was issued on the socket, in the pipe or before there was one. -/
def Fallen (x : Ctx) : Prop := Cut x ∨ Forsaken x

/-- The invariant: the connection is somewhere in its life. -/
structure Living (x : Ctx) : Prop where
  sound : x.conn.Sound
  exact : x.conn.Exact
  stage : (∃ left, Stage left x) ∨ Forsaken x

theorem Fallen.not_standing (h : Fallen x) : ¬Standing x := h.elim Cut.uvClosed Forsaken.uvClosed

theorem Fallen.stage (h : Fallen x) : (∃ left, Stage left x) ∨ Forsaken x := by
  refine h.imp_left fun hcut ↦ ⟨[0], .cut hcut fun hnone ↦ ?_⟩
  exact absurd hnone (List.cons_ne_nil 0 [])

theorem Fallen.act (h : Fallen x) (hsound : x.conn.Sound) (ho : x.conn.Orderly d) :
    Fallen (act x d) := by
  cases d with
  | event e => exact h.imp (fun hcut ↦ hcut.step ho.1) fun hforsaken ↦ hforsaken.step hsound ho.1
  | destroy a =>
    refine h.imp (fun hcut ↦ hcut.shutdownConn hsound a) fun hforsaken ↦ ?_
    refine Forsaken.shutdownConn ?_ a
    rwa [closeAccepted, hforsaken.tcp]

theorem completes_of_noPipe (hsound : x.conn.Sound) (hpipe : x.conn.pipe = none)
    (henabled : x.conn.Enabled e) : x.conn.completes e = [] := by
  obtain ⟨-, ⟨a, rfl⟩ | ⟨data, a, rfl⟩ | rfl⟩ := hsound.event_of_noPipe hpipe henabled <;> rfl

theorem Stage.underway (h : Stage left x) (hstands : Standing x) : underway x = left := by
  cases h with
  | dialled handle proxy => rfl
  | opened h =>
    obtain ⟨p, t, hp, ht, -, -, hwrites, -⟩ := h.exists_pipe
    rw [Conn.underway, (TcpPipe.handle_of_eq hp).trans ht, Option.map_some, Option.getD_some,
      hwrites]
  | cut h => exact absurd hstands h.uvClosed
  | ended _ hpipe _ =>
    rw [Conn.underway, TcpPipe.handle, hpipe]
    rfl

theorem exists_balance_of_open (h : Open q x) (henabled : x.conn.Enabled e) :
    ∃ left', Stage left' (step x e) ∧ q.flatten ++ e.received = x.conn.completes e ++ left' := by
  by_cases hundisturbed : x.conn.Undisturbed e
  · obtain ⟨left', hfollows⟩ := exists_follows_of_open h henabled hundisturbed
    exact ⟨left', hfollows.stage, hfollows.balance⟩
  -- A local write fails, or a local read does.
  cases e with
  | written status a =>
    obtain ⟨t, ht, hsome⟩ := henabled
    rw [(h.handle_eq ht).1] at hsome
    obtain ⟨d, q, rfl⟩ := List.exists_cons_of_ne_nil hsome
    have hstatus : status ≠ 0 := fun hstatus ↦ hundisturbed (Or.inl hstatus)
    refine ⟨(d :: q).flatten, .cut (h.cut_of_write_error a hstatus) fun hnone ↦ ?_, ?_⟩
    · exact absurd (h.eq_nil_of_flatten hnone) (List.cons_ne_nil d q)
    rw [completes, if_neg hstatus, List.nil_append]
    exact List.append_nil _
  | read nread a =>
    cases nread with
    | error =>
      obtain ⟨hcut, hwrites⟩ := h.cut_of_read_error a
      exact ⟨_, .cut hcut fun hnone ↦ h.eq_nil_of_flatten hnone ▸ hwrites, List.append_nil _⟩
    | eof => exact absurd trivial hundisturbed
    | data bytes => exact absurd trivial hundisturbed
  | _ => exact absurd trivial hundisturbed

theorem Fallen.completes (h : Fallen x) (hsound : x.conn.Sound) (ho : x.conn.Orderly (.event e)) :
    x.conn.completes e = [] := by
  rcases h with hcut | hforsaken
  · cases e with
    | written status a =>
      obtain ⟨⟨t, ht, -⟩, hcancels⟩ := ho
      rw [Conn.completes, if_neg (hcancels t ht (hcut.closing hsound ht))]
    | _ => rfl
  · exact completes_of_noPipe hsound hforsaken.pipe ho.1

theorem exists_balance (h : Stage left x) (hsound : x.conn.Sound) (henabled : x.conn.Enabled e) :
    ∃ left', Stage left' (step x e) ∧
      (Standing x → left ++ e.received = x.conn.completes e ++ left') := by
  cases h with
  | dialled handle proxy =>
    obtain ⟨-, ⟨a, rfl⟩ | ⟨data, a, rfl⟩ | rfl⟩ := hsound.event_of_noPipe rfl henabled
    · exact ⟨_, .opened (open_streamOpenCb handle proxy a), fun _ ↦ rfl⟩
    · exact absurd henabled.2 Bool.false_ne_true
    · exact ⟨[], .ended rfl rfl rfl, fun _ ↦ rfl⟩
  | opened h =>
    obtain ⟨left', hstage, hbalance⟩ := exists_balance_of_open h henabled
    exact ⟨left', hstage, fun _ ↦ hbalance⟩
  | cut h hidle =>
    exact ⟨left, .cut (h.step henabled) fun hnone ↦ h.inFlight_step (hidle hnone) hsound henabled,
      fun hstands ↦ absurd hstands h.uvClosed⟩
  | ended hlive hpipe _ =>
    have hstill := (hsound.event_of_noPipe hpipe henabled).1
    exact absurd (hlive.symm.trans hstill) Bool.false_ne_true

theorem living_dialled (handle : ℕ) (proxy : UdpProxy) : Living (dialled handle proxy) :=
  ⟨sound_dialled handle proxy, exact_dialled handle proxy, Or.inl ⟨[], .dialled handle proxy⟩⟩

/-- **The owner's teardown** closes the socket, wherever it is. -/
theorem Living.shutdownConn (h : Living x) (hheld : x.conn.held = true) (a : Answers) :
    Fallen (shutdownConn (streamClose a) a x) := by
  rcases h.stage with ⟨left, hstage⟩ | hforsaken
  · cases hstage with
    | dialled handle proxy =>
      have hgiven : Forsaken (dialled handle proxy).closeAccepted :=
        ⟨List.cons_ne_nil handle [], rfl, rfl, rfl⟩
      exact Or.inr (hgiven.shutdownConn a)
    | opened hopen => exact Or.inl (hopen.shutdownConn a)
    | cut hcut => exact Or.inl (hcut.shutdownConn h.sound a)
    | ended _ _ hgone => exact absurd (hgone.symm.trans hheld) Bool.false_ne_true
  · exact Fallen.act (d := .destroy a) (Or.inr hforsaken) h.sound hheld

theorem Living.act (h : Living x) (ho : x.conn.Orderly d) : Living (act x d) := by
  cases d with
  | event e =>
    obtain ⟨hsettles, hexact⟩ := step_settles h.sound h.exact ho.1
    refine ⟨hsettles.sound, hexact, ?_⟩
    rcases h.stage with ⟨left, hstage⟩ | hforsaken
    · obtain ⟨left', hstage', -⟩ := exists_balance hstage h.sound ho.1
      exact Or.inl ⟨left', hstage'⟩
    · exact Or.inr (hforsaken.step h.sound ho.1)
  | destroy a =>
    obtain ⟨hsettles, hexact⟩ :=
      shutdownConn_settles_of_exact (a := a) (closer_streamClose a) h.sound h.exact
    exact ⟨hsettles.sound, hexact, (h.shutdownConn ho a).stage⟩

theorem Living.fallen (h : Living x) (hfallen : ¬Standing x) (ho : x.conn.Orderly d) :
    Fallen x := by
  rcases h.stage with ⟨left, hstage⟩ | hforsaken
  · cases hstage with
    | dialled handle proxy => exact absurd rfl hfallen
    | opened hopen => exact absurd hopen.uvClosed hfallen
    | cut hcut => exact Or.inl hcut
    | ended hlive hpipe hgone =>
      cases d with
      | event e =>
        have hstill := (h.sound.event_of_noPipe hpipe ho.1).1
        exact absurd (hlive.symm.trans hstill) Bool.false_ne_true
      | destroy a => exact absurd (hgone.symm.trans ho) Bool.false_ne_true
  · exact Or.inr hforsaken

theorem Living.exists_stage (h : Living x) (hstands : Standing x) : ∃ left, Stage left x :=
  h.stage.resolve_right fun hforsaken ↦ hforsaken.uvClosed hstands

/-- **From the stream to the local socket.** -/
theorem carries_received : Conduit.Carries gateway.step (fun x d ↦ x.conn.Orderly d) Living
    gateway.receives gateway.writes underway Standing where
  keeps h ho := h.act ho
  stands {x d} h ho hstands hstill := by
    obtain ⟨left, hstage⟩ := h.exists_stage hstands
    cases d with
    | event e =>
      obtain ⟨left', hstage', hbalance⟩ := exists_balance hstage h.sound ho.1
      have hleft' : underway (gateway.step x (.event e)) = left' := hstage'.underway hstill
      rw [hstage.underway hstands, hleft']
      exact hbalance hstands
    | destroy a => exact absurd hstill (h.shutdownConn ho a).not_standing
  falls {x d} h ho hstands _ := by
    obtain ⟨left, hstage⟩ := h.exists_stage hstands
    cases d with
    | event e =>
      obtain ⟨left', -, hbalance⟩ := exists_balance hstage h.sound ho.1
      rw [hstage.underway hstands]
      exact ⟨left', (hbalance hstands).symm⟩
    | destroy a => exact List.nil_prefix
  fallen {x d} h ho hdown := by
    have hfallen := h.fallen hdown ho
    refine ⟨(hfallen.act h.sound ho).not_standing, ?_⟩
    cases d with
    | event e => exact hfallen.completes h.sound ho
    | destroy a => rfl

theorem Living.pending (h : Living x) (henabled : x.conn.Enabled e) :
    x.conn.streamOpen = false → x.conn.pending = [] := by
  intro hunopened
  rcases h.stage with ⟨left, hstage⟩ | hforsaken
  · cases hstage with
    | dialled handle proxy => rfl
    | opened hopen => exact absurd (hunopened.symm.trans hopen.streamOpen) Bool.false_ne_true
    | cut hcut => exact absurd (hunopened.symm.trans hcut.streamOpen) Bool.false_ne_true
    | ended hlive hpipe _ =>
      have hstill := (h.sound.event_of_noPipe hpipe henabled).1
      exact absurd (hlive.symm.trans hstill) Bool.false_ne_true
  · exact hforsaken.pending

theorem Living.exists_open {nread : Read} (h : Living x)
    (henabled : x.conn.Enabled (.read nread a)) : ∃ q, Open q x := by
  obtain ⟨t, ht, -, hopen, -⟩ := henabled
  rcases h.stage with ⟨left, hstage⟩ | hforsaken
  · cases hstage with
    | dialled handle proxy => exact absurd ht (TcpPipe.not_mem_handle rfl t)
    | opened h => exact ⟨_, h⟩
    | cut hcut => exact absurd ((hcut.closing h.sound ht).symm.trans hopen) (by decide)
    | ended _ hpipe _ => exact absurd ht (TcpPipe.not_mem_handle hpipe t)
  · exact absurd ht (TcpPipe.not_mem_handle hforsaken.pipe t)

/-- What the stream takes in an event is what was read, unless the connection falls. -/
theorem Living.handed_cases (h : Living x) (henabled : x.conn.Enabled e) :
    handed x (step x e) = e.readBytes ∨ (handed x (step x e) = [] ∧ ¬Standing (step x e)) := by
  by_cases hread : e.readBytes = []
  · exact Or.inl ((hushed_step (h.pending henabled) henabled hread).handed.trans hread.symm)
  cases e with
  | read nread a =>
    obtain ⟨q, hopen⟩ := h.exists_open henabled
    cases nread with
    | data bytes =>
      exact (read_cases hopen bytes a).imp And.right fun hcut ↦ ⟨hcut.2, hcut.1.uvClosed⟩
    | _ => exact absurd rfl hread
  | _ => exact absurd rfl hread

theorem hushed_destroy (a : Answers) (x : Ctx) : Hushed x (act x (.destroy a)) :=
  allows_hushed.shutdownConn (allows_hushed.streamClose a) a x

/-- **From the local socket to the stream.** Nothing is held on the way. -/
theorem carries_reads : Conduit.Carries gateway.step (fun x d ↦ x.conn.Orderly d) Living
    gateway.reads gateway.sends (fun _ ↦ []) Standing where
  keeps h ho := h.act ho
  stands {x d} h ho _ hstill := by
    rw [List.nil_append, List.append_nil]
    cases d with
    | event e => exact ((h.handed_cases ho.1).resolve_right fun hdown ↦ hdown.2 hstill).symm
    | destroy a => exact (hushed_destroy a x).handed.symm
  falls {x d} h ho _ _ := by
    rw [List.nil_append]
    cases d with
    | event e =>
      rcases h.handed_cases ho.1 with htaken | ⟨hnothing, -⟩
      · exact ⟨[], (List.append_nil _).trans htaken⟩
      · exact ⟨e.readBytes, congrArg (· ++ e.readBytes) hnothing⟩
    | destroy a => exact ⟨[], congrArg (· ++ []) (hushed_destroy a x).handed⟩
  fallen {x d} h ho hdown := by
    have hfallen := h.fallen hdown ho
    refine ⟨(hfallen.act h.sound ho).not_standing, Hushed.handed ?_⟩
    cases d with
    | event e =>
      refine hushed_step (h.pending ho.1) ho.1 ?_
      cases e with
      | read nread a =>
        obtain ⟨q, hopen⟩ := h.exists_open ho.1
        exact absurd hopen.uvClosed hdown
      | _ => rfl
    | destroy a => exact hushed_destroy a x

end Conn

end HolesailClient

end Holesail
