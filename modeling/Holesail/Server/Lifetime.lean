import Holesail.Server.Callbacks

/-!
# The lifetime of a connection

Two references keep a `Conn` alive: A in the box that hyperdht holds as the stream's userdata, given
back by `stream_close_cb`, and B in the pipe's `on_destroy`, given back when that is called. The
pipe belongs to the `Conn` whose reference its `on_destroy` holds, so the two form a cycle which the
callbacks break in either order. When the second reference is dropped the `Conn` is released, and
its destructor deletes the `DrainCtx`s that no ack will come for.

## Main result

`lifetime`: in every run a `Conn` is released exactly when both callbacks have run, no callback
finds it released, and of the `DrainCtx`s made for it each is deleted once.
-/

namespace Holesail

namespace HolesailServer

namespace Conn

open Run

/-! ## References -/

/-- Both references have been dropped. -/
def Released (c : Conn) : Prop := c.boxed = false ∧ c.keep = false

instance (c : Conn) : Decidable c.Released := inferInstanceAs (Decidable (_ ∧ _))

/-- `~Conn`. -/
def destruct (c : Conn) : Conn := { c with drains := [], freed := c.freed ++ c.drains }

/-- What dropping a reference comes to: the last one takes the `Conn` with it. -/
def reap (c : Conn) : Conn := if c.Released then c.destruct else c

/-- One event in the life of a connection. `HolesailServer::destroy` locks a weak pointer first, and
so leaves a `Conn` alone that has been released. -/
def live (c : Conn) : Event → Conn
  | .destroy => if c.Released then c else (c.step .destroy).reap
  | e => (c.step e).reap

/-- The pipe's `on_destroy` has been called: it is set at first, and cleared by the call. -/
def OnDestroyRan (c : Conn) : Prop :=
  (∀ p ∈ c.tcp, p.onDestroy = false) ∧ ∀ p ∈ c.udp, p.onDestroy = false

/-! ## Where a pipe is in its life -/

/-- A TCP pipe, whether reference A is held, and whether reference B is. -/
inductive TcpLife (boxed : Bool) : Bool → TcpPipe → Prop
  /-- The connect failed before there was a handle. The stream's close is what ends it. -/
  | bare {p : TcpPipe} (hdestroyed : p.destroyed = false) (hclosing : p.closing = false)
      (harmed : p.onDestroy = true) (htcp : p.tcp = none) (hidle : p.inflightWrites = 0)
      (hboxed : boxed = true) : TcpLife boxed true p
  | attached {p : TcpPipe} (h : p.Attached) : TcpLife boxed true p
  | detaching {p : TcpPipe} (h : p.Detaching) : TcpLife boxed true p
  | gone {p : TcpPipe} (hdestroyed : p.destroyed = true) (hfired : p.onDestroy = false)
      (htcp : p.tcp = none) : TcpLife boxed false p

/-- A UDP pipe, whether reference A is held, and whether reference B is. -/
inductive UdpLife (boxed : Bool) : Bool → UdpPipe → Prop
  /-- The start failed before there was a socket. -/
  | bare {p : UdpPipe} (hdestroyed : p.destroyed = false) (harmed : p.onDestroy = true)
      (hsock : p.sock = none) (hboxed : boxed = true) : UdpLife boxed true p
  /-- With nothing to flush, the stream's close is what ends it. -/
  | attached {p : UdpPipe} {s : UvUdp} (hdestroyed : p.destroyed = false)
      (harmed : p.onDestroy = true) (hsock : p.sock = some s) (hopen : s.closing = false)
      (hboxed : boxed = true) : UdpLife boxed true p
  | detaching {p : UdpPipe} {s : UvUdp} (hdestroyed : p.destroyed = true)
      (harmed : p.onDestroy = true) (hsock : p.sock = some s) (hclosing : s.closing = true) :
      UdpLife boxed true p
  | gone {p : UdpPipe} (hdestroyed : p.destroyed = true) (hfired : p.onDestroy = false)
      (hsock : p.sock = none) : UdpLife boxed false p

/-- A TCP pipe that libuv knows a handle of. -/
def TcpHandled (keep : Bool) (p : TcpPipe) : Prop := keep = true ∧ (p.Attached ∨ p.Detaching)

/-- Every `DrainCtx` was made once, and is deleted or still waits for its ack. -/
structure Ledger (c : Conn) : Prop where
  balance : (c.freed ++ c.drains).Perm c.allocated
  nodup : c.allocated.Nodup

/-- A connection with a TCP pipe that `L` is true of. -/
structure TcpAt (b s : Bool) (L : Bool → TcpPipe → Prop) (c : Conn) : Prop where
  boxed : c.boxed = b
  stream : c.stream = s
  udp : c.udp = none
  ledger : Ledger c
  pipe : ∃ p, c.tcp = some p ∧ L c.keep p ∧ ∀ d ∈ c.allocated, d.id < p.drains

/-! ## What a callback does to a TCP pipe -/

/-- `p'` is `p` but for what has no bearing on its life. -/
structure Tended (p p' : TcpPipe) : Prop where
  bond : p.SameBond p'
  drains : p.drains ≤ p'.drains
  idle : p.tcp = none → p'.inflightWrites = p.inflightWrites

theorem Tended.of_turned {p p' : TcpPipe} (h : p.Turned p') : Tended p p' := by
  have hbond := h.sameBond
  obtain ⟨f, reading, -, rfl⟩ := h
  exact ⟨hbond, Nat.le_refl _, fun _ ↦ rfl⟩

theorem tended_of_tcp {p p' : TcpPipe} {t t' : UvTcp} (hp : p.tcp = some t)
    (hp' : p'.tcp = some t') (hbond : (t'.id, t'.closing) = (t.id, t.closing))
    (hlife : TcpPipe.SameLife p p') (hdestroy : p'.onDestroy = p.onDestroy)
    (hdrains : p.drains ≤ p'.drains) : Tended p p' :=
  ⟨TcpPipe.sameBond_of_tcp hp hp' hbond hlife hdestroy, hdrains,
    fun h ↦ absurd (hp.symm.trans h) (Option.some_ne_none t)⟩

theorem tcp_eq_none_of_bond {p p' : TcpPipe} (h : p.SameBond p') (hp : p.tcp = none) :
    p'.tcp = none := by
  have hbond := h.bond
  rw [TcpPipe.bond, TcpPipe.bond, hp] at hbond
  exact Option.map_eq_none_iff.mp hbond

variable {a : Answers} {b b' s keep : Bool} {c : Conn} {L L' : Bool → TcpPipe → Prop}

theorem TcpLife.tended {p p' : TcpPipe} (h : TcpLife b keep p) (hp : Tended p p') :
    TcpLife b keep p' := by
  have hlife := hp.bond.life
  cases h with
  | bare hdestroyed hclosing harmed htcp hidle hboxed =>
    exact .bare (hlife.1.trans hdestroyed) (hlife.2.trans hclosing)
      (hp.bond.onDestroy.trans harmed) (tcp_eq_none_of_bond hp.bond htcp)
      ((hp.idle htcp).trans hidle) hboxed
  | attached h => exact .attached (hp.bond.attached h)
  | detaching h => exact .detaching (hp.bond.detaching h)
  | gone hdestroyed hfired htcp =>
    exact .gone (hlife.1.trans hdestroyed) (hp.bond.onDestroy.trans hfired)
      (tcp_eq_none_of_bond hp.bond htcp)

theorem TcpHandled.tended {p p' : TcpPipe} (h : TcpHandled keep p) (hp : Tended p p') :
    TcpHandled keep p' := by
  refine ⟨h.1, ?_⟩
  rcases h.2 with h | h
  · exact .inl (hp.bond.attached h)
  · exact .inr (hp.bond.detaching h)

theorem TcpAt.modify (h : TcpAt b s L c) {f : TcpPipe → TcpPipe}
    (hf : ∀ p, c.tcp = some p → L c.keep p → L' c.keep (f p) ∧ p.drains ≤ (f p).drains) :
    TcpAt b s L' ((tcpHost a).modify f c) := by
  obtain ⟨p, htcp, hlife, hfresh⟩ := h.pipe
  obtain ⟨hlife', hdrains⟩ := hf p htcp hlife
  rw [TcpPipe.Host.modify, pipe_of_tcp htcp]
  exact ⟨h.boxed, h.stream, h.udp, ⟨h.ledger.balance, h.ledger.nodup⟩, f p, rfl, hlife',
    fun d hd ↦ Nat.lt_of_lt_of_le (hfresh d hd) hdrains⟩

theorem TcpAt.imp (h : TcpAt b s L c) (himp : ∀ p, L c.keep p → L' c.keep p) :
    TcpAt b s L' c := by
  obtain ⟨p, htcp, hlife, hfresh⟩ := h.pipe
  exact ⟨h.boxed, h.stream, h.udp, h.ledger, p, htcp, himp p hlife, hfresh⟩

theorem TcpAt.streamCall (h : TcpAt b s L c) (call : StreamCall) :
    TcpAt b s L (c.streamCall call) := by
  rw [Conn.streamCall]
  split_ifs
  · exact ⟨h.boxed, h.stream, h.udp, ⟨h.ledger.balance, h.ledger.nodup⟩, h.pipe⟩
  · exact h

theorem lawful_tcpHost (a : Answers) : (tcpHost a).Lawful := ⟨fun _ _ ↦ rfl, fun _ _ _ ↦ rfl⟩

/-- A pipe without a handle whose `on_destroy` is still to be called. -/
def Leaving (_ : Bool) (p : TcpPipe) : Prop :=
  p.destroyed = true ∧ p.onDestroy = true ∧ p.tcp = none

/-- A pipe that has given reference B back. -/
def Gone (keep : Bool) (p : TcpPipe) : Prop :=
  keep = false ∧ p.destroyed = true ∧ p.onDestroy = false ∧ p.tcp = none

theorem Gone.life {p : TcpPipe} (h : Gone keep p) : TcpLife b keep p := by
  obtain ⟨rfl, hdestroyed, hfired, hnone⟩ := h
  exact .gone hdestroyed hfired hnone

theorem TcpAt.fireOnDestroy (h : TcpAt b s Leaving c) :
    TcpAt b s Gone (TcpPipe.fireOnDestroy (tcpHost a) c) := by
  obtain ⟨p, htcp, ⟨hdestroyed, harmed, hnone⟩, hfresh⟩ := h.pipe
  have hpipe := pipe_of_tcp (a := a) htcp
  rw [TcpPipe.fireOnDestroy, TcpPipe.Host.modify, hpipe, if_pos harmed]
  exact ⟨h.boxed, h.stream, h.udp, ⟨h.ledger.balance, h.ledger.nodup⟩, _, rfl,
    ⟨rfl, hdestroyed, rfl, hnone⟩, hfresh⟩

/-- `L` survives what callbacks do to a pipe, and its end. -/
structure Survives (b s : Bool) (L : Bool → TcpPipe → Prop) : Prop where
  tended : ∀ {keep p p'}, L keep p → Tended p p' → L keep p'
  destroy : ∀ {a c}, TcpAt b s L c → TcpAt b s L (TcpPipe.destroy (tcpHost a) c)

theorem destroy_attached (h : TcpAt b s (fun keep p ↦ keep = true ∧ p.Attached) c) :
    TcpAt b s (fun keep p ↦ keep = true ∧ p.Detaching) (TcpPipe.destroy (tcpHost a) c) := by
  obtain ⟨p, htcp, ⟨hkeep, hdestroyed, hclosing, harmed, id, hbond⟩, hfresh⟩ := h.pipe
  have hpipe := pipe_of_tcp (a := a) htcp
  rw [TcpPipe.destroy_of_not_destroyed _ (lawful_tcpHost a) (by rw [hpipe]; exact hdestroyed),
    hpipe]
  obtain ⟨q, hq⟩ : ∃ q, q = TcpPipe.stopReading { p with destroyed := true } := ⟨_, rfl⟩
  have htended : Tended { p with destroyed := true } q :=
    hq ▸ .of_turned (TcpPipe.turned_stopReading _)
  rw [← hq]
  have hstopped : TcpAt b s (fun keep p ↦ keep = true ∧ p = q) { c with tcp := some q } :=
    ⟨h.boxed, h.stream, h.udp, ⟨h.ledger.balance, h.ledger.nodup⟩, q, rfl, ⟨hkeep, rfl⟩,
      fun d hd ↦ Nat.lt_of_lt_of_le (hfresh d hd) htended.drains⟩
  have hclosed := hstopped.streamCall .close
  obtain ⟨q', htcp', ⟨hkeep', rfl⟩, hfresh'⟩ := hclosed.pipe
  obtain ⟨t, ht, hid⟩ := Option.map_eq_some_iff.mp (htended.bond.bond.trans hbond)
  have hopen : t.closing = false := congrArg Prod.snd hid
  have hend := TcpPipe.closeHandle_of_open (tcpHost a) (lawful_tcpHost a)
    (w := ({ c with tcp := some q' } : Conn).streamCall .close) (pipe_of_tcp htcp') ht
    (htended.bond.life.2.trans hclosing) hopen
  refine Eq.mpr (congrArg (TcpAt b s fun keep p ↦ keep = true ∧ p.Detaching) hend) ?_
  refine ⟨hclosed.boxed, hclosed.stream, hclosed.udp,
    ⟨hclosed.ledger.balance, hclosed.ledger.nodup⟩, q'.detach t, rfl, ⟨hkeep', ?_⟩, hfresh'⟩
  exact ⟨htended.bond.life.1, rfl, htended.bond.onDestroy.trans harmed, t.id, rfl⟩

theorem survives_handled : Survives b s TcpHandled where
  tended := TcpHandled.tended
  destroy {a c} h := by
    obtain ⟨p, htcp, ⟨hkeep, hlife⟩, hfresh⟩ := h.pipe
    rcases hlife with hlife | hlife
    · exact (destroy_attached
        ⟨h.boxed, h.stream, h.udp, h.ledger, p, htcp, ⟨hkeep, hlife⟩, hfresh⟩).imp
          fun p hp ↦ ⟨hp.1, .inr hp.2⟩
    · rw [TcpPipe.destroy_of_destroyed _ (by rw [pipe_of_tcp htcp]; exact hlife.1)]
      exact h

theorem destroy_bare (h : TcpAt b s (fun _ p ↦ p.destroyed = false ∧ p.onDestroy = true ∧
    p.tcp = none) c) : TcpAt b s Gone (TcpPipe.destroy (tcpHost a) c) := by
  obtain ⟨p, htcp, ⟨hdestroyed, harmed, hnone⟩, hfresh⟩ := h.pipe
  have hpipe := pipe_of_tcp (a := a) htcp
  rw [TcpPipe.destroy_of_not_destroyed _ (lawful_tcpHost a) (by rw [hpipe]; exact hdestroyed),
    hpipe]
  have hstop : TcpPipe.stopReading { p with destroyed := true } = { p with destroyed := true } := by
    rw [TcpPipe.stopReading, hnone]
  rw [hstop]
  have hstopped : TcpAt b s Leaving { c with tcp := some { p with destroyed := true } } :=
    ⟨h.boxed, h.stream, h.udp, ⟨h.ledger.balance, h.ledger.nodup⟩, _, rfl,
      ⟨rfl, harmed, hnone⟩, hfresh⟩
  have hclosed := hstopped.streamCall .close
  have hfired := hclosed.fireOnDestroy (a := a)
  obtain ⟨p', htcp', ⟨-, -, hnone'⟩, -⟩ := hclosed.pipe
  have hend := TcpPipe.closeHandle_of_none (tcpHost a)
    (w := ({ c with tcp := some { p with destroyed := true } } : Conn).streamCall .close)
    (by rw [pipe_of_tcp htcp']; exact hnone')
  exact Eq.mpr (congrArg (TcpAt b s Gone) hend) hfired

theorem TcpAt.destroy (h : TcpAt b s (TcpLife b') c) :
    TcpAt b s (fun keep p ↦ TcpLife b' keep p ∧ p.destroyed = true)
      (TcpPipe.destroy (tcpHost a) c) := by
  obtain ⟨p, htcp, hlife, hfresh⟩ := h.pipe
  have hpipe := pipe_of_tcp (a := a) htcp
  obtain ⟨keep, hkeep⟩ : ∃ keep, c.keep = keep := ⟨_, rfl⟩
  have hended : p.destroyed = true → TcpAt b s (fun keep p ↦ TcpLife b' keep p ∧
      p.destroyed = true) (TcpPipe.destroy (tcpHost a) c) := fun hdestroyed ↦ by
    rw [TcpPipe.destroy_of_destroyed _ (by rw [hpipe]; exact hdestroyed)]
    exact ⟨h.boxed, h.stream, h.udp, h.ledger, p, htcp, ⟨hlife, hdestroyed⟩, hfresh⟩
  rw [hkeep] at hlife
  cases hlife with
  | bare hdestroyed hclosing harmed hnone hidle hboxed =>
    exact (destroy_bare ⟨h.boxed, h.stream, h.udp, h.ledger, p, htcp,
      ⟨hdestroyed, harmed, hnone⟩, hfresh⟩).imp fun p hp ↦ ⟨hp.life, hp.2.1⟩
  | attached hlife =>
    refine (destroy_attached ⟨h.boxed, h.stream, h.udp, h.ledger, p, htcp, ⟨hkeep, hlife⟩,
      hfresh⟩).imp fun p hp ↦ ⟨?_, hp.2.1⟩
    rw [hp.1]
    exact .detaching hp.2
  | detaching hlife => exact hended hlife.1
  | gone hdestroyed hfired hnone => exact hended hdestroyed

theorem survives_life : Survives b s (TcpLife b') where
  tended := TcpLife.tended
  destroy h := h.destroy.imp fun _ hp ↦ hp.1

/-! ## The callbacks of a TCP pipe -/

namespace Survives

variable (hL : Survives b s L)

include hL

theorem modify (h : TcpAt b s L c) {f : TcpPipe → TcpPipe}
    (hf : ∀ p, c.tcp = some p → Tended p (f p)) : TcpAt b s L ((tcpHost a).modify f c) :=
  h.modify fun p htcp hp ↦ ⟨hL.tended hp (hf p htcp), (hf p htcp).drains⟩

theorem flushFinished (h : TcpAt b s L c) :
    TcpAt b s L (TcpPipe.flushFinished (tcpHost a) c) := by
  rw [TcpPipe.flushFinished]
  split_ifs
  · exact h
  · exact hL.destroy h

theorem connectCb (h : TcpAt b s L c) (uv : Uv) (status : ℤ) :
    TcpAt b s L (TcpPipe.connectCb (tcpHost a) uv status c) := by
  have hconnected := hL.modify (a := a) h (f := fun p ↦
    { p with tcp := p.tcp.map fun t ↦ { t with connecting := false } }) fun p _ ↦ by
      refine ⟨⟨⟨rfl, rfl⟩, rfl, ?_⟩, Nat.le_refl _, fun _ ↦ rfl⟩
      rw [TcpPipe.bond, Option.map_map]
      rfl
  have hreading := hL.modify (a := a) hconnected fun p _ ↦ .of_turned (p.turned_startReading uv)
  simp only [TcpPipe.connectCb]
  split_ifs
  · exact hL.destroy hconnected
  · exact hL.destroy hconnected
  · exact hreading
  · exact hreading

theorem onDrain (h : TcpAt b s L c) (uv : Uv) (len : ℕ) :
    TcpAt b s L (TcpPipe.onDrain (tcpHost a) uv len c) := by
  have hacked := hL.modify (a := a) h (f := fun p ↦ p.ack len)
    fun p _ ↦ ⟨⟨⟨rfl, rfl⟩, rfl, rfl⟩, Nat.le_refl _, fun _ ↦ rfl⟩
  rw [TcpPipe.onDrain]
  split_ifs
  · exact hL.modify hacked fun p _ ↦ .of_turned (p.turned_resumeReading uv)
  · exact hacked

theorem onStreamData (h : TcpAt b s L c) (uv : Uv) (data : Bytes) :
    TcpAt b s L (TcpPipe.onStreamData (tcpHost a) uv data c) := by
  rw [TcpPipe.onStreamData.eq_def]
  split
  · exact h
  · next t ht =>
    have hqueued := hL.modify (a := a) h (f := fun p ↦
      { p with
        tcp := some { t with writes := t.writes ++ [data] }
        inflightWrites := p.inflightWrites + 1
        pendingBytes := p.pendingBytes + data.length }) fun p htcp ↦ by
          have ht' : p.tcp = some t := pipe_of_tcp (a := a) htcp ▸ ht
          exact tended_of_tcp ht' rfl rfl ⟨rfl, rfl⟩ rfl (Nat.le_refl _)
    simp only
    split_ifs
    · exact h
    · exact h
    · exact hL.destroy h
    · refine TcpAt.streamCall ?_ .pause
      exact hL.modify hqueued fun p _ ↦ ⟨⟨⟨rfl, rfl⟩, rfl, rfl⟩, Nat.le_refl _, fun _ ↦ rfl⟩
    · exact hqueued

theorem writeCb (h : TcpAt b s L c) (status : ℤ) :
    TcpAt b s L (TcpPipe.writeCb (tcpHost a) status c) := by
  rw [TcpPipe.writeCb.eq_def]
  split
  · exact h
  · next t ht =>
    split
    · exact h
    · next data rest hwrites =>
      have hpopped := hL.modify (a := a) h (f := fun p ↦
        { p with
          tcp := some { t with writes := rest }
          inflightWrites := p.inflightWrites - 1
          pendingBytes := p.pendingBytes -
            (if data.length < p.pendingBytes then data.length else p.pendingBytes) })
        fun p htcp ↦ by
          have ht' : p.tcp = some t := pipe_of_tcp (a := a) htcp ▸ ht
          exact tended_of_tcp ht' rfl rfl ⟨rfl, rfl⟩ rfl (Nat.le_refl _)
      simp only
      split_ifs
      · exact hL.destroy hpopped
      · refine hL.flushFinished (TcpAt.streamCall ?_ .resume)
        exact hL.modify hpopped fun p _ ↦ ⟨⟨⟨rfl, rfl⟩, rfl, rfl⟩, Nat.le_refl _, fun _ ↦ rfl⟩
      · exact hL.flushFinished hpopped

theorem onStreamClose (h : TcpAt b s L c) :
    TcpAt b s L (TcpPipe.onStreamClose (tcpHost a) c) := by
  rw [TcpPipe.onStreamClose]
  split_ifs
  · exact h
  · exact hL.flushFinished
      (hL.modify h fun p _ ↦ ⟨⟨⟨rfl, rfl⟩, rfl, rfl⟩, Nat.le_refl _, fun _ ↦ rfl⟩)

/-- A read makes at most one `DrainCtx`, which no earlier read has made. -/
theorem written (h : TcpAt b s L c) (bytes : Bytes) :
    TcpAt b s L ((makeSide a).write bytes (some ⟨((tcpHost a).pipe c).drains, bytes.length⟩)
      ((tcpHost a).modify (fun p ↦
        { p with
          streamPendingBytes := p.streamPendingBytes + bytes.length
          drains := p.drains + 1 }) c)).2 := by
  obtain ⟨p, htcp, hlife, hfresh⟩ := h.pipe
  rw [TcpPipe.Host.modify, pipe_of_tcp htcp]
  obtain ⟨d, hd⟩ : ∃ d : Drain, d = ⟨p.drains, bytes.length⟩ := ⟨_, rfl⟩
  have hlife' : L c.keep { p with
      streamPendingBytes := p.streamPendingBytes + bytes.length
      drains := p.drains + 1 } :=
    hL.tended hlife ⟨⟨⟨rfl, rfl⟩, rfl, rfl⟩, Nat.le_succ _, fun _ ↦ rfl⟩
  -- Ids count up, so the new `DrainCtx` is none of those made before.
  have hnew : d ∉ c.allocated := fun hmem ↦ by
    have := hfresh d hmem
    rw [hd] at this
    exact Nat.lt_irrefl _ this
  have hbound : ∀ d' ∈ c.allocated ++ [d], d'.id < p.drains + 1 := by
    intro d' hd'
    rcases List.mem_append.mp hd' with hold | hnew
    · exact Nat.lt_succ_of_lt (hfresh d' hold)
    · rw [List.mem_singleton.mp hnew, hd]
      exact Nat.lt_succ_self _
  have hnodup : (c.allocated ++ [d]).Nodup :=
    List.nodup_append.mpr ⟨h.ledger.nodup, List.pairwise_singleton _ d, fun x hx y hy hxy ↦
      hnew (List.mem_singleton.mp hy ▸ hxy ▸ hx)⟩
  have hkept : ((c.freed ++ (c.drains ++ [d])).Perm (c.allocated ++ [d])) := by
    rw [← List.append_assoc]
    exact h.ledger.balance.append_right [d]
  -- A write that hyperdht refuses deletes the `DrainCtx` it was made for at once.
  have hrefused : ((c.freed ++ [d]) ++ (c.drains ++ [d]).erase d).Perm (c.allocated ++ [d]) := by
    have herase : ((c.drains ++ [d]).erase d).Perm c.drains := by
      have := (List.perm_append_singleton d c.drains).erase d
      rwa [List.erase_cons_head] at this
    refine (herase.append_left _).trans ?_
    rw [List.append_assoc]
    exact (List.perm_append_comm.append_left c.freed).trans hkept
  rw [← hd]
  simp only [makeSide, Conn.streamWrite, tcpHost]
  -- The first two cases are writes before the opening: buffered or dropped, and without a
  -- `DrainCtx`. Then the stream may have gone, and hyperdht may refuse.
  split_ifs
  · exact ⟨h.boxed, h.stream, h.udp, ⟨h.ledger.balance, h.ledger.nodup⟩, _, rfl, hlife',
      fun d hd ↦ Nat.lt_succ_of_lt (hfresh d hd)⟩
  · exact ⟨h.boxed, h.stream, h.udp, ⟨h.ledger.balance, h.ledger.nodup⟩, _, rfl, hlife',
      fun d hd ↦ Nat.lt_succ_of_lt (hfresh d hd)⟩
  · exact ⟨h.boxed, h.stream, h.udp, ⟨hrefused, hnodup⟩, _, rfl, hlife', hbound⟩
  · exact ⟨h.boxed, h.stream, h.udp, ⟨hkept, hnodup⟩, _, rfl, hlife', hbound⟩
  · exact ⟨h.boxed, h.stream, h.udp, ⟨hrefused, hnodup⟩, _, rfl, hlife', hbound⟩
  · exact ⟨h.boxed, h.stream, h.udp, ⟨hkept, hnodup⟩, _, rfl, hlife', hbound⟩

theorem readCb (h : TcpAt b s L c) (nread : Read) :
    TcpAt b s L (TcpPipe.readCb (tcpHost a) nread c) := by
  rw [TcpPipe.readCb.eq_def]
  split_ifs
  · exact h
  cases nread with
  | eof => exact (hL.modify h fun p _ ↦ .of_turned p.turned_stopReading).streamCall .close
  | error => exact hL.destroy h
  | data bytes =>
    have hwritten := hL.written (a := a) h bytes
    simp only
    split_ifs
    · exact h
    · exact hL.destroy
        (hL.modify hwritten fun p _ ↦ ⟨⟨⟨rfl, rfl⟩, rfl, rfl⟩, Nat.le_refl _, fun _ ↦ rfl⟩)
    · exact hL.modify hwritten fun p _ ↦ .of_turned p.turned_stopReading
    · exact hwritten

/-! ### What the stream does -/

theorem streamOpenCb (h : TcpAt b s L c) (a : Answers) : TcpAt b s L (c.streamOpenCb a) := by
  refine streamOpenCb_induction h (fun _ _ _ _ ↦ ?_) fun {c} drain h ↦ ?_
  · exact ⟨h.boxed, h.stream, h.udp, ⟨h.ledger.balance, h.ledger.nodup⟩, h.pipe⟩
  · have hfired : TcpAt b s L { c with fired := c.fired ++ [drain] } :=
      ⟨h.boxed, h.stream, h.udp, ⟨h.ledger.balance, h.ledger.nodup⟩, h.pipe⟩
    exact hL.onDrain hfired a.uv drain.len

theorem streamDataCb (h : TcpAt b s L c) (a : Answers) (data : Bytes) :
    TcpAt b s L (c.streamDataCb a data) := by
  obtain ⟨p, htcp, -⟩ := h.pipe
  rw [Conn.streamDataCb, htcp]
  split_ifs
  · exact h
  · exact hL.onStreamData h a.uv data

theorem drainCb (h : TcpAt b s L c) (uv : Uv) {drain : Drain} (hmem : drain ∈ c.drains) :
    TcpAt b s L (c.drainCb uv drain) := by
  have hbalance : ((c.freed ++ [drain]) ++ c.drains.erase drain).Perm c.allocated := by
    rw [List.append_assoc]
    exact ((List.perm_cons_erase hmem).symm.append_left c.freed).trans h.ledger.balance
  have hfired : TcpAt b s L { c with
      drains := c.drains.erase drain
      freed := c.freed ++ [drain]
      fired := c.fired ++ [drain] } :=
    ⟨h.boxed, h.stream, h.udp, ⟨hbalance, h.ledger.nodup⟩, h.pipe⟩
  exact hL.onDrain hfired uv drain.len

theorem conn_destroy (h : TcpAt b s L c) : TcpAt b s L c.destroy := by
  obtain ⟨p, htcp, -⟩ := h.pipe
  have hdestroyed := hL.destroy (a := {}) h
  simp only [Conn.destroy, htcp, hdestroyed.udp]
  exact hdestroyed

end Survives

/-- When its stream closes, a pipe that never had a handle is destroyed with it. -/
theorem TcpAt.onStreamClose (h : TcpAt b s (TcpLife b') c) :
    TcpAt b s (TcpLife false) (TcpPipe.onStreamClose (tcpHost a) c) := by
  obtain ⟨p, htcp, hlife, hfresh⟩ := h.pipe
  have hpipe := pipe_of_tcp (a := a) htcp
  obtain ⟨keep, hkeep⟩ : ∃ keep, c.keep = keep := ⟨_, rfl⟩
  have hother : TcpLife false c.keep p →
      TcpAt b s (TcpLife false) (TcpPipe.onStreamClose (tcpHost a) c) := fun hlife ↦
    survives_life.onStreamClose ⟨h.boxed, h.stream, h.udp, h.ledger, p, htcp, hlife, hfresh⟩
  rw [hkeep] at hlife hother
  cases hlife with
  | bare hdestroyed hclosing harmed hnone hidle hboxed =>
    have hclosed : TcpAt b s (fun _ p ↦ p.destroyed = false ∧ p.onDestroy = true ∧ p.tcp = none)
        ((tcpHost a).modify (fun p ↦ { p with streamClosed := true }) c) :=
      h.modify fun q hq _ ↦ by
        obtain rfl := Option.some.inj (htcp.symm.trans hq)
        exact ⟨⟨hdestroyed, harmed, hnone⟩, Nat.le_refl _⟩
    rw [TcpPipe.onStreamClose, hpipe, if_neg (by rw [hdestroyed]; exact Bool.false_ne_true),
      TcpPipe.flushFinished, if_neg]
    · exact (destroy_bare hclosed).imp fun p hp ↦ hp.life
    · rw [TcpPipe.Host.modify, hpipe]
      rintro (hopen | hflight)
      · exact absurd (show true = false from hopen).symm Bool.false_ne_true
      · exact absurd (show 0 < p.inflightWrites from hflight) (by rw [hidle]; exact Int.lt_irrefl 0)
  | attached hlife => exact hother (.attached hlife)
  | detaching hlife => exact hother (.detaching hlife)
  | gone hdestroyed hfired hnone => exact hother (.gone hdestroyed hfired hnone)

/-- **The stream's close** drops reference A. -/
theorem TcpAt.streamCloseCb (h : TcpAt true true (TcpLife true) c) :
    TcpAt false false (TcpLife false) c.streamCloseCb := by
  obtain ⟨p, htcp, -⟩ := h.pipe
  have hstream : TcpAt true false (TcpLife true) { c with stream := false } :=
    ⟨h.boxed, rfl, h.udp, ⟨h.ledger.balance, h.ledger.nodup⟩, h.pipe⟩
  have hclosed := hstream.onStreamClose (a := {})
  have heq : c.streamCloseCb = { TcpPipe.onStreamClose (tcpHost {}) { c with stream := false } with
      boxed := false } := by
    simp only [Conn.streamCloseCb, h.boxed, Bool.true_eq_false, if_false, htcp]
  rw [heq]
  exact ⟨rfl, hclosed.stream, hclosed.udp, ⟨hclosed.ledger.balance, hclosed.ledger.nodup⟩,
    hclosed.pipe⟩

/-- **The close callback of the handle** drops reference B. -/
theorem TcpAt.closedCb (h : TcpAt b s (TcpLife b) c) {t : UvTcp} (ht : t ∈ TcpPipe.handle c.tcp)
    (hclosing : t.closing = true) : TcpAt b s Gone (TcpPipe.closedCb (tcpHost a) c) := by
  obtain ⟨p, htcp, hlife, hfresh⟩ := h.pipe
  rw [TcpPipe.handle, htcp, Option.bind_some] at ht
  have hbond : p.bond = some (t.id, true) := by
    rw [TcpPipe.bond, ht, Option.map_some, hclosing]
  refine TcpAt.fireOnDestroy (h.modify fun q hq hlife ↦ ⟨?_, Nat.le_refl _⟩)
  obtain rfl := Option.some.inj (htcp.symm.trans hq)
  generalize c.keep = keep at hlife ⊢
  cases hlife with
  | bare hdestroyed hclosing' harmed hnone =>
    exact absurd (ht.symm.trans hnone) (Option.some_ne_none t)
  | attached hlife =>
    obtain ⟨-, -, -, id, hid⟩ := hlife
    exact absurd (congrArg Prod.snd (Option.some.inj (hid.symm.trans hbond))) Bool.false_ne_true
  | detaching hlife => exact ⟨hlife.1, hlife.2.2.1, rfl⟩
  | gone hdestroyed hfired hnone => exact absurd (ht.symm.trans hnone) (Option.some_ne_none t)

/-! ## The callbacks of a UDP pipe -/

/-- A connection with a UDP pipe that `L` is true of. It has no use for a `DrainCtx`. -/
structure UdpAt (b s : Bool) (L : Bool → UdpPipe → Prop) (c : Conn) : Prop where
  boxed : c.boxed = b
  stream : c.stream = s
  tcp : c.tcp = none
  quiet : c.drains = [] ∧ c.allocated = [] ∧ c.freed = [] ∧ c.pendingDrains = []
  pipe : ∃ p, c.udp = some p ∧ L c.keep p

namespace UdpAt

variable {M N : Bool → UdpPipe → Prop}

theorem modify (h : UdpAt b s M c) {f : UdpPipe → UdpPipe}
    (hf : ∀ p, c.udp = some p → M c.keep p → N c.keep (f p)) :
    UdpAt b s N ((udpHost a).modify f c) := by
  obtain ⟨p, hudp, hlife⟩ := h.pipe
  rw [UdpPipe.Host.modify, pipe_of_udp hudp]
  exact ⟨h.boxed, h.stream, h.tcp, h.quiet, f p, rfl, hf p hudp hlife⟩

theorem streamCall (h : UdpAt b s M c) (call : StreamCall) : UdpAt b s M (c.streamCall call) := by
  rw [Conn.streamCall]
  split_ifs
  · exact ⟨h.boxed, h.stream, h.tcp, h.quiet, h.pipe⟩
  · exact h

theorem write (h : UdpAt b s M c) (data : Bytes) :
    UdpAt b s M ((makeSide a).write data none c).2 := by
  obtain ⟨hdrains, hallocated, hfreed, hpending⟩ := h.quiet
  have hpending' : c.pendingDrains ++ [] = [] := by rw [hpending, List.append_nil]
  simp only [makeSide, Conn.streamWrite]
  split_ifs
  · exact ⟨h.boxed, h.stream, h.tcp, h.quiet, h.pipe⟩
  · exact ⟨h.boxed, h.stream, h.tcp, ⟨hdrains, hallocated, hfreed, hpending'⟩, h.pipe⟩
  · exact ⟨h.boxed, h.stream, h.tcp, h.quiet, h.pipe⟩
  · exact h

theorem fireOnDestroy (h : UdpAt b s (fun _ p ↦ p.destroyed = true ∧ p.onDestroy = true ∧
    p.sock = none) c) : UdpAt b s (UdpLife b') (UdpPipe.fireOnDestroy (udpHost a) c) := by
  obtain ⟨p, hudp, hdestroyed, harmed, hsock⟩ := h.pipe
  rw [UdpPipe.fireOnDestroy, UdpPipe.Host.modify, pipe_of_udp hudp, if_pos harmed]
  exact ⟨h.boxed, h.stream, h.tcp, h.quiet, _, rfl, .gone hdestroyed rfl hsock⟩

/-- `destroy` leaves nothing that the stream's close would have to end. -/
theorem destroy (h : UdpAt b s (UdpLife b') c) :
    UdpAt b s (UdpLife false) (UdpPipe.destroy (udpHost a) c) := by
  obtain ⟨p, hudp, hlife⟩ := h.pipe
  obtain ⟨keep, hkeep⟩ : ∃ keep, c.keep = keep := ⟨_, rfl⟩
  have hpipe := pipe_of_udp (a := a) hudp
  rw [UdpPipe.destroy, hpipe]
  rw [hkeep] at hlife
  cases hlife with
  | bare hdestroyed harmed hsock hboxed =>
    have hstopped : UdpAt b s (fun _ p ↦ p.destroyed = true ∧ p.onDestroy = true ∧ p.sock = none)
        ((udpHost a).modify (fun p ↦ { p with
          destroyed := true
          sock := p.sock.map fun s ↦ { s with receiving := false } }) c) :=
      h.modify fun q hq _ ↦ by
        obtain rfl := Option.some.inj (hudp.symm.trans hq)
        exact ⟨rfl, harmed, by rw [hsock]; rfl⟩
    have hclosed := hstopped.streamCall .close
    obtain ⟨q, hq, -, -, hnone⟩ := hclosed.pipe
    rw [hdestroyed, if_neg Bool.false_ne_true]
    dsimp only
    split
    · next hsome => exact absurd ((pipe_of_udp (a := a) hq ▸ hsome).symm.trans hnone) nofun
    · exact hclosed.fireOnDestroy
  | attached hdestroyed harmed hsock hopen hboxed =>
    rename_i s₀
    have hstopped : UdpAt b s (fun keep p ↦ keep = true ∧ p.destroyed = true ∧
        p.onDestroy = true ∧ p.sock = some { s₀ with receiving := false })
        ((udpHost a).modify (fun p ↦ { p with
          destroyed := true
          sock := p.sock.map fun s ↦ { s with receiving := false } }) c) :=
      h.modify fun q hq _ ↦ by
        obtain rfl := Option.some.inj (hudp.symm.trans hq)
        exact ⟨hkeep, rfl, harmed, by rw [hsock]; rfl⟩
    have hclosed := hstopped.streamCall .close
    obtain ⟨q, hq, hkeep', hdestroyed', harmed', hsock'⟩ := hclosed.pipe
    rw [hdestroyed, if_neg Bool.false_ne_true]
    dsimp only
    split
    · next s₁ hsome =>
      have hsame : s₁ = { s₀ with receiving := false } :=
        Option.some.inj ((pipe_of_udp (a := a) hq ▸ hsome).symm.trans hsock')
      rw [if_neg (by rw [hsame, hopen]; exact Bool.false_ne_true)]
      have hgiven := hclosed.modify (a := a) (N := UdpLife false)
        (f := fun p ↦ { p with sock := some { s₁ with closing := true } }) fun r hr hlife ↦ by
          rw [hlife.1]
          exact .detaching hlife.2.1 hlife.2.2.1 rfl rfl
      exact ⟨hgiven.boxed, hgiven.stream, hgiven.tcp, hgiven.quiet, hgiven.pipe⟩
    · next hnone => exact absurd ((pipe_of_udp (a := a) hq ▸ hnone).symm.trans hsock') nofun
  | detaching hdestroyed harmed hsock hclosing =>
    rw [hdestroyed, if_pos rfl]
    exact ⟨h.boxed, h.stream, h.tcp, h.quiet, p, hudp,
      hkeep.symm ▸ UdpLife.detaching hdestroyed harmed hsock hclosing⟩
  | gone hdestroyed hfired hsock =>
    rw [hdestroyed, if_pos rfl]
    exact ⟨h.boxed, h.stream, h.tcp, h.quiet, p, hudp,
      hkeep.symm ▸ UdpLife.gone hdestroyed hfired hsock⟩

theorem life_of_false (h : UdpAt b s (UdpLife false) c) : UdpAt b s (UdpLife b') c := by
  obtain ⟨p, hudp, hlife⟩ := h.pipe
  refine ⟨h.boxed, h.stream, h.tcp, h.quiet, p, hudp, ?_⟩
  generalize c.keep = keep at hlife ⊢
  cases hlife with
  | bare _ _ _ hboxed => exact absurd hboxed Bool.false_ne_true
  | attached _ _ _ _ hboxed => exact absurd hboxed Bool.false_ne_true
  | detaching hdestroyed harmed hsock hclosing => exact .detaching hdestroyed harmed hsock hclosing
  | gone hdestroyed hfired hsock => exact .gone hdestroyed hfired hsock

theorem recvCb (h : UdpAt b s (UdpLife b') c) (r : Recv) :
    UdpAt b s (UdpLife b') (UdpPipe.recvCb (udpHost a) r c) := by
  rw [UdpPipe.recvCb.eq_def]
  split_ifs
  · exact h
  cases r with
  | endOfPass => exact h
  | error => exact h.destroy.life_of_false
  | noAddr => exact h
  | truncated data => exact h
  | datagram data =>
    have hwritten := h.write (a := a) (frame data)
    dsimp only
    split_ifs
    · exact hwritten.destroy.life_of_false
    · exact hwritten

theorem foldl_send (h : UdpAt b s M c) (frames : List Bytes) :
    UdpAt b s M (frames.foldl (fun c d ↦ (udpHost a).send d c) c) := by
  induction frames generalizing c with
  | nil => exact h
  | cons d frames ih => exact ih ⟨h.boxed, h.stream, h.tcp, h.quiet, h.pipe⟩

theorem onStreamData (h : UdpAt b s (UdpLife b') c) (data : Bytes) :
    UdpAt b s (UdpLife b') (UdpPipe.onStreamData (udpHost a) data c) := by
  rw [UdpPipe.onStreamData]
  split_ifs
  · exact h
  · have hdecoded := h.modify (a := a) (N := UdpLife b')
      (f := fun p ↦ { p with
        decoder := (((udpHost a).pipe c).decoder.push data).decoder }) fun p _ hlife ↦ by
          generalize c.keep = keep at hlife ⊢
          cases hlife with
          | bare hdestroyed harmed hsock hboxed => exact .bare hdestroyed harmed hsock hboxed
          | attached hdestroyed harmed hsock hopen hboxed =>
            exact .attached hdestroyed harmed hsock hopen hboxed
          | detaching hdestroyed harmed hsock hclosing =>
            exact .detaching hdestroyed harmed hsock hclosing
          | gone hdestroyed hfired hsock => exact .gone hdestroyed hfired hsock
    have hsent := hdecoded.foldl_send (a := a) (((udpHost a).pipe c).decoder.push data).frames
    dsimp only
    split_ifs
    · exact hsent
    · exact hsent.destroy.life_of_false

theorem onStreamClose (h : UdpAt b s (UdpLife b') c) :
    UdpAt b s (UdpLife false) (UdpPipe.onStreamClose (udpHost a) c) := by
  rw [UdpPipe.onStreamClose]
  split_ifs with hdestroyed
  · have hsame : UdpPipe.destroy (udpHost a) c = c := by rw [UdpPipe.destroy, if_pos hdestroyed]
    exact hsame ▸ h.destroy
  · exact h.destroy

theorem streamCloseCb (h : UdpAt true true (UdpLife true) c) :
    UdpAt false false (UdpLife false) c.streamCloseCb := by
  obtain ⟨p, hudp, -⟩ := h.pipe
  have hstream : UdpAt true false (UdpLife true) { c with stream := false } :=
    ⟨h.boxed, rfl, h.tcp, h.quiet, h.pipe⟩
  have hclosed := hstream.onStreamClose (a := {})
  have heq : c.streamCloseCb = { UdpPipe.onStreamClose (udpHost {}) { c with stream := false } with
      boxed := false } := by
    simp only [Conn.streamCloseCb, h.boxed, Bool.true_eq_false, if_false, h.tcp, hudp]
  rw [heq]
  exact ⟨rfl, hclosed.stream, hclosed.tcp, hclosed.quiet, hclosed.pipe⟩

theorem streamDataCb (h : UdpAt b s (UdpLife b') c) (a : Answers) (data : Bytes) :
    UdpAt b s (UdpLife b') (c.streamDataCb a data) := by
  obtain ⟨p, hudp, -⟩ := h.pipe
  rw [Conn.streamDataCb, h.tcp, hudp]
  split_ifs
  · exact h
  · exact h.onStreamData data

theorem streamOpenCb (h : UdpAt b s M c) (a : Answers) : UdpAt b s M (c.streamOpenCb a) := by
  obtain ⟨hdrains, hallocated, hfreed, hpending⟩ := h.quiet
  have hflush : UdpAt b s M ({ c with streamOpen := true }.flush a).2 := by
    rw [flush]
    simp only [Conn.streamWrite]
    split_ifs <;> exact ⟨h.boxed, h.stream, h.tcp, h.quiet, h.pipe⟩
  have hquiet := hflush.quiet
  simp only [Conn.streamOpenCb, releaseDrains, hquiet.2.2.2, List.foldl_nil]
  split_ifs
  · exact h
  · exact ⟨hflush.boxed, hflush.stream, hflush.tcp, ⟨hquiet.1, hquiet.2.1, hquiet.2.2.1, rfl⟩,
      hflush.pipe⟩
  · exact ⟨hflush.boxed, hflush.stream, hflush.tcp, ⟨hquiet.1, hquiet.2.1, hquiet.2.2.1, rfl⟩,
      hflush.pipe⟩

theorem closedCb (h : UdpAt b s (UdpLife b') c) {sock : UvUdp}
    (hsock : sock ∈ c.udp.bind UdpPipe.sock) (hclosing : sock.closing = true) :
    UdpAt b s (UdpLife b') (UdpPipe.closedCb (udpHost a) c) := by
  obtain ⟨p, hudp, -⟩ := h.pipe
  rw [hudp, Option.bind_some] at hsock
  refine fireOnDestroy (h.modify fun q hq hlife ↦ ?_)
  obtain rfl := Option.some.inj (hudp.symm.trans hq)
  generalize c.keep = keep at hlife ⊢
  cases hlife with
  | bare _ _ hnone => exact absurd (hsock.symm.trans hnone) nofun
  | attached _ _ hsome hopen =>
    obtain rfl := Option.some.inj (hsock.symm.trans hsome)
    exact absurd (hopen.symm.trans hclosing) Bool.false_ne_true
  | detaching hdestroyed harmed => exact ⟨hdestroyed, harmed, rfl⟩
  | gone _ _ hnone => exact absurd (hsock.symm.trans hnone) nofun

theorem conn_destroy (h : UdpAt b s (UdpLife b') c) : UdpAt b s (UdpLife b') c.destroy := by
  obtain ⟨p, hudp, -⟩ := h.pipe
  simp only [Conn.destroy, h.tcp, hudp]
  exact h.destroy.life_of_false

end UdpAt

/-! ## The beginning -/

theorem tcpAt_connectionCb (uv : Uv) : TcpAt true true (TcpLife true) (connectionCb false uv) := by
  have hledger : ∀ {c : Conn}, c.freed = [] → c.drains = [] → c.allocated = [] → Ledger c :=
    fun hfreed hdrains hallocated ↦ ⟨by rw [hfreed, hdrains, hallocated]; exact .nil,
      by rw [hallocated]; exact List.nodup_nil⟩
  have hfresh : ∀ d ∈ ([] : List Drain), d.id < 0 := fun d hd ↦ absurd hd List.not_mem_nil
  have hattached : ∀ t : UvTcp, t.closing = false →
      TcpAt true true (fun keep p ↦ keep = true ∧ p.Attached)
        { stream := true, boxed := true, keep := true
          tcp := some { onDestroy := true, tcp := some t } } :=
    fun t ht ↦ ⟨rfl, rfl, rfl, hledger rfl rfl rfl, _, rfl,
      ⟨rfl, rfl, rfl, rfl, t.id, by rw [TcpPipe.bond, Option.map_some, ht]⟩, hfresh⟩
  have hended : ∀ t : UvTcp, t.closing = false → TcpAt true true (TcpLife true)
      (TcpPipe.destroy (tcpHost {})
        { stream := true, boxed := true, keep := true
          tcp := some { onDestroy := true, tcp := some t } }) :=
    fun t ht ↦ survives_life.destroy ((hattached t ht).imp fun p h ↦ .attached h.2)
  simp only [connectionCb, Bool.false_eq_true, if_false, TcpPipe.connect]
  split_ifs
  · exact ⟨rfl, rfl, rfl, hledger rfl rfl rfl, _, rfl, .bare rfl rfl rfl rfl rfl rfl, hfresh⟩
  · exact ⟨rfl, rfl, rfl, hledger rfl rfl rfl, _, rfl, .bare rfl rfl rfl rfl rfl rfl, hfresh⟩
  · exact hended {} rfl
  · exact hended {} rfl
  · exact (hattached { connecting := true } rfl).imp fun p h ↦ .attached h.2

theorem udpAt_connectionCb (uv : Uv) : UdpAt true true (UdpLife true) (connectionCb true uv) := by
  have hattached : ∀ t : UvUdp, t.closing = false → UdpAt true true (UdpLife true)
      { stream := true, boxed := true, keep := true
        udp := some { onDestroy := true, sock := some t } } :=
    fun t ht ↦ ⟨rfl, rfl, rfl, ⟨rfl, rfl, rfl, rfl⟩, _, rfl, .attached rfl rfl rfl ht rfl⟩
  have hbare : UdpAt true true (UdpLife true)
      { stream := true, boxed := true, keep := true, udp := some { onDestroy := true } } :=
    ⟨rfl, rfl, rfl, ⟨rfl, rfl, rfl, rfl⟩, _, rfl, .bare rfl rfl rfl rfl⟩
  simp only [connectionCb, if_true, UdpPipe.start]
  split_ifs
  · exact hbare
  · exact hbare
  · exact hbare
  · exact (hattached {} rfl).destroy.life_of_false
  · exact (hattached {} rfl).destroy.life_of_false
  · exact hattached { receiving := true } rfl

/-! ## One event -/

/-- What survives the callbacks survives every event but those that drop a reference. -/
theorem Survives.step (hL : Survives b s L) (h : TcpAt b s L c) {e : Event} (he : c.Enabled e)
    (hclosed : e ≠ .closed) (hclose : e ≠ .streamClose) : TcpAt b s L (c.step e) := by
  cases e with
  | connected status uv => exact hL.connectCb h uv status
  | read nread a =>
    exact hL.readCb (hL.modify h fun p _ ↦ .of_turned (p.turned_markEnded nread)) nread
  | written status => exact hL.writeCb h status
  | closed => exact absurd rfl hclosed
  | recv r a =>
    obtain ⟨sock, hsock, -⟩ := he
    rw [h.udp] at hsock
    exact absurd hsock nofun
  | streamOpen a => exact hL.streamOpenCb h a
  | streamData data a => exact hL.streamDataCb h a data
  | streamClose => exact absurd rfl hclose
  | drained drain uv => exact hL.drainCb h uv he.2
  | destroy => exact hL.conn_destroy h

theorem UdpAt.step (h : UdpAt b s (UdpLife b') c) {e : Event} (he : c.Enabled e)
    (hclose : e ≠ .streamClose) : UdpAt b s (UdpLife b') (c.step e) := by
  have hother := ofTcp_of_noTcp h.tcp he
  cases e with
  | connected _ _ | read _ _ | written _ => exact Bool.noConfusion hother
  | closed =>
    rcases he with ⟨t, ht, -⟩ | ⟨sock, hsock, hclosing⟩
    · exact absurd ht (TcpPipe.not_mem_handle h.tcp t)
    · rw [Conn.step, h.tcp]
      exact h.closedCb hsock hclosing
  | recv r a => exact h.recvCb r
  | streamOpen a => exact h.streamOpenCb a
  | streamData data a => exact h.streamDataCb a data
  | streamClose => exact absurd rfl hclose
  | drained drain uv =>
    have hmem := he.2
    rw [h.quiet.1] at hmem
    exact absurd hmem List.not_mem_nil
  | destroy => exact h.conn_destroy

/-- `b` says whether the stream is there, and the pipe is where its life can be. -/
def Life (b : Bool) (c : Conn) : Prop := TcpAt b b (TcpLife b) c ∨ UdpAt b b (UdpLife b) c

theorem Life.boxed (h : Life b c) : c.boxed = b := h.elim TcpAt.boxed UdpAt.boxed

theorem Life.stream (h : Life b c) : c.stream = b := h.elim TcpAt.stream UdpAt.stream

theorem life_connectionCb (udp : Bool) (uv : Uv) : Life true (connectionCb udp uv) := by
  cases udp with
  | false => exact .inl (tcpAt_connectionCb uv)
  | true => exact .inr (udpAt_connectionCb uv)

theorem Life.step (h : Life b c) {e : Event} (he : c.Enabled e) (hclose : e ≠ .streamClose) :
    Life b (c.step e) := by
  rcases h with h | h
  · by_cases hclosed : e = .closed
    · subst hclosed
      obtain ⟨p, htcp, -⟩ := h.pipe
      rcases he with ⟨t, ht, hclosing, -⟩ | ⟨sock, hsock, -⟩
      · rw [Conn.step, htcp]
        exact .inl ((h.closedCb ht hclosing).imp fun p hp ↦ hp.life)
      · rw [h.udp] at hsock
        exact absurd hsock (Option.not_mem_none sock)
    · exact .inl (survives_life.step h he hclosed hclose)
  · exact .inr (h.step he hclose)

theorem Life.streamClose (h : Life b c) (he : c.Enabled .streamClose) :
    Life false (c.step .streamClose) := by
  obtain rfl : b = true := h.stream.symm.trans he
  rcases h with h | h
  · exact .inl h.streamCloseCb
  · exact .inr h.streamCloseCb

/-! ## What a state of life says -/

theorem TcpLife.keep_eq {p : TcpPipe} (h : TcpLife b keep p) : keep = p.onDestroy := by
  cases h with
  | bare _ _ harmed => exact harmed.symm
  | attached h => exact h.2.2.1.symm
  | detaching h => exact h.2.2.1.symm
  | gone _ hfired => exact hfired.symm

theorem UdpLife.keep_eq {p : UdpPipe} (h : UdpLife b keep p) : keep = p.onDestroy := by
  cases h with
  | bare _ harmed => exact harmed.symm
  | attached _ harmed => exact harmed.symm
  | detaching _ harmed => exact harmed.symm
  | gone _ hfired => exact hfired.symm

theorem Life.onDestroyRan_iff (h : Life b c) : c.OnDestroyRan ↔ c.keep = false := by
  rcases h with h | h
  · obtain ⟨p, htcp, hlife, -⟩ := h.pipe
    rw [OnDestroyRan, htcp, h.udp, hlife.keep_eq]
    refine ⟨fun h ↦ h.1 p rfl, fun h ↦ ⟨fun q hq ↦ ?_, fun q hq ↦ ?_⟩⟩
    · rwa [← Option.some.inj hq]
    · exact absurd hq (Option.not_mem_none q)
  · obtain ⟨p, hudp, hlife⟩ := h.pipe
    rw [OnDestroyRan, h.tcp, hudp, hlife.keep_eq]
    refine ⟨fun h ↦ h.2 p rfl, fun h ↦ ⟨fun q hq ↦ ?_, fun q hq ↦ ?_⟩⟩
    · exact absurd hq (Option.not_mem_none q)
    · rwa [← Option.some.inj hq]

theorem Life.released_iff (h : Life b c) : c.Released ↔ b = false ∧ c.OnDestroyRan := by
  rw [Released, h.boxed, h.onDestroyRan_iff]

/-- When `on_destroy` has been called, libuv knows no handle of the pipe any more. -/
theorem Life.no_handle (h : Life b c) (hkeep : c.keep = false) :
    TcpPipe.handle c.tcp = none ∧ c.udp.bind UdpPipe.sock = none := by
  rcases h with h | h
  · obtain ⟨p, htcp, hlife, -⟩ := h.pipe
    rw [hkeep] at hlife
    cases hlife with
    | gone _ _ hnone =>
      rw [TcpPipe.handle, htcp, h.udp]
      exact ⟨hnone, rfl⟩
  · obtain ⟨p, hudp, hlife⟩ := h.pipe
    rw [hkeep] at hlife
    cases hlife with
    | gone _ _ hnone =>
      rw [TcpPipe.handle, h.tcp, hudp]
      exact ⟨rfl, hnone⟩

/-- **Nothing calls a released connection** but the server's own teardown, which finds it gone. -/
theorem Life.eq_destroy_of_released (h : Life b c) (hreleased : c.Released) {e : Event}
    (he : c.Enabled e) : e = .destroy := by
  obtain ⟨hhandle, hsock⟩ := h.no_handle hreleased.2
  have hstream : ¬c.stream = true := by
    rw [h.stream, ← h.boxed, hreleased.1]
    exact Bool.false_ne_true
  cases e with
  | connected status uv =>
    obtain ⟨t, ht, -⟩ := he
    exact absurd (hhandle ▸ ht) nofun
  | read nread a =>
    obtain ⟨t, ht, -⟩ := he
    exact absurd (hhandle ▸ ht) nofun
  | written status =>
    obtain ⟨t, ht, -⟩ := he
    exact absurd (hhandle ▸ ht) nofun
  | closed =>
    rcases he with ⟨t, ht, -⟩ | ⟨sock, hmem, -⟩
    · exact absurd (hhandle ▸ ht) nofun
    · exact absurd (hsock ▸ hmem) nofun
  | recv r a =>
    obtain ⟨sock, hmem, -⟩ := he
    exact absurd (hsock ▸ hmem) nofun
  | streamOpen a => exact absurd he.1 hstream
  | streamData data a => exact absurd he.1 hstream
  | streamClose => exact absurd he hstream
  | drained drain uv => exact absurd he.1 hstream
  | destroy => rfl

/-- A callback other than these two leaves a reference behind, so nothing it does after calling
another can meet a released connection. -/
theorem Life.not_released_step (h : Life b c) {e : Event} (he : c.Enabled e)
    (hnot : ¬c.Released) (hclosed : e ≠ .closed) (hclose : e ≠ .streamClose) :
    ¬(c.step e).Released := by
  rintro ⟨hboxed, hkeep⟩
  have hb : b = false := (h.step he hclose).boxed.symm.trans hboxed
  -- The box is gone already, so it is the pipe that holds the connection.
  have hheld : c.keep = true :=
    Bool.of_not_eq_false fun h' ↦ hnot ⟨h.boxed.trans hb, h'⟩
  subst hb
  rcases h with h | h
  · obtain ⟨p, htcp, hlife, hfresh⟩ := h.pipe
    have hhandled : TcpHandled c.keep p := by
      rw [hheld] at hlife ⊢
      cases hlife with
      | bare _ _ _ _ _ hboxed => exact absurd hboxed Bool.false_ne_true
      | attached hlife => exact ⟨rfl, .inl hlife⟩
      | detaching hlife => exact ⟨rfl, .inr hlife⟩
    -- As long as libuv has the handle, no callback but its close fires `on_destroy`.
    have hnext := survives_handled.step
      ⟨h.boxed, h.stream, h.udp, h.ledger, p, htcp, hhandled, hfresh⟩ he hclosed hclose
    obtain ⟨q, -, hkept, -⟩ := hnext.pipe
    exact Bool.false_ne_true (hkeep.symm.trans hkept.1)
  · obtain ⟨p, hudp, hlife⟩ := h.pipe
    rw [hheld] at hlife
    cases hlife with
    | bare _ _ _ hboxed => exact absurd hboxed Bool.false_ne_true
    | attached _ _ _ _ hboxed => exact absurd hboxed Bool.false_ne_true
    | detaching hdestroyed harmed hsock hclosing =>
      have hstream : ¬c.stream = true := by
        rw [h.stream]
        exact Bool.false_ne_true
      have hother := ofTcp_of_noTcp h.tcp he
      -- The stream has closed and the socket is closing: nothing but `destroy` can happen.
      cases e with
      | connected _ _ | read _ _ | written _ => exact Bool.noConfusion hother
      | closed => exact absurd rfl hclosed
      | recv r a =>
        obtain ⟨sock, hmem, -, hopen⟩ := he
        rw [hudp, Option.bind_some, hsock] at hmem
        obtain rfl := Option.some.inj hmem
        exact absurd (hopen.symm.trans hclosing) Bool.false_ne_true
      | streamOpen a => exact absurd he.1 hstream
      | streamData data a => exact absurd he.1 hstream
      | streamClose => exact absurd he hstream
      | drained drain uv => exact absurd he.1 hstream
      | destroy =>
        have hpipe : ((udpHost {}).pipe c).destroyed = true := by
          rw [pipe_of_udp hudp, hdestroyed]
        have hsame : c.step .destroy = c := by
          simp only [Conn.step, Conn.destroy, h.tcp, hudp]
          rw [UdpPipe.destroy, if_pos hpipe]
        rw [hsame, hheld] at hkeep
        exact Bool.false_ne_true hkeep.symm

/-! ## Every run -/

theorem Life.ledger (h : Life b c) : Ledger c := by
  rcases h with h | h
  · exact h.ledger
  · obtain ⟨hdrains, hallocated, hfreed, -⟩ := h.quiet
    refine ⟨?_, ?_⟩
    · rw [hdrains, hallocated, hfreed]
      exact .nil
    · rw [hallocated]
      exact List.nodup_nil

theorem Life.destruct (h : Life b c) : Life b c.destruct := by
  rcases h with h | h
  · refine .inl ⟨h.boxed, h.stream, h.udp, ⟨?_, h.ledger.nodup⟩, h.pipe⟩
    rw [Conn.destruct, List.append_nil]
    exact h.ledger.balance
  · obtain ⟨hdrains, hallocated, hfreed, hpending⟩ := h.quiet
    refine .inr ⟨h.boxed, h.stream, h.tcp, ⟨rfl, hallocated, ?_, hpending⟩, h.pipe⟩
    rw [Conn.destruct, hdrains, hfreed, List.append_nil]

/-- A connection, and what its destructor has left of it. -/
structure Kept (b : Bool) (c : Conn) : Prop where
  life : Life b c
  emptied : c.Released → c.drains = []

theorem Life.reap (h : Life b c) : Kept b c.reap := by
  rw [Conn.reap]
  split_ifs with hreleased
  · exact ⟨h.destruct, fun _ ↦ rfl⟩
  · exact ⟨h, fun h ↦ absurd h hreleased⟩

theorem released_reap : c.reap.Released ↔ c.Released := by
  rw [Conn.reap]
  split_ifs <;> rfl

theorem live_of_ne_destroy {e : Event} (he : e ≠ .destroy) : c.live e = (c.step e).reap := by
  cases e with
  | destroy => exact absurd rfl he
  | _ => rfl

theorem kept_connectionCb (udp : Bool) (uv : Uv) : Kept true (connectionCb udp uv) := by
  have hlife := life_connectionCb udp uv
  refine ⟨hlife, fun h ↦ ?_⟩
  exact absurd (hlife.boxed.symm.trans h.1) Bool.noConfusion

theorem Kept.live (h : Kept b c) {e : Event} (he : c.Enabled e) :
    ∃ b', Kept b' (c.live e) ∧ (b' = false ↔ b = false ∨ e = .streamClose) := by
  by_cases hclose : e = .streamClose
  · subst hclose
    exact ⟨false, (h.life.streamClose he).reap, fun _ ↦ .inr rfl, fun _ ↦ rfl⟩
  · refine ⟨b, ?_, fun h ↦ .inl h, fun h ↦ h.resolve_right hclose⟩
    by_cases hdestroy : e = .destroy
    · subst hdestroy
      rw [Conn.live]
      split_ifs
      · exact h
      · exact (h.life.step he hclose).reap
    · rw [live_of_ne_destroy hdestroy]
      exact (h.life.step he hclose).reap

theorem kept_run (udp : Bool) (uv : Uv) {es : List Event}
    (h : Along live Enabled (connectionCb udp uv) es) :
    ∃ b, Kept b (run live (connectionCb udp uv) es) ∧ (b = false ↔ Event.streamClose ∈ es) := by
  refine history_of_along (P := fun es c ↦ ∃ b, Kept b c ∧ (b = false ↔ Event.streamClose ∈ es))
    ⟨true, kept_connectionCb udp uv, nofun, nofun⟩ ?_ h
  rintro es e ⟨b, hkept, hb⟩ he
  obtain ⟨b', hkept', hb'⟩ := hkept.live he
  refine ⟨b', hkept', hb'.trans ?_⟩
  rw [hb, List.mem_append, List.mem_singleton, eq_comm (a := e)]

/-- **The lifetime of a connection.** In every run: the connection is released exactly when its
stream's close callback and its pipe's `on_destroy` have both run; what has been released is called
by nothing, and only the last act of one of two callbacks releases it; after `on_destroy` libuv
knows no handle of the pipe; and of the `DrainCtx`s, all different, each is deleted or awaits its
ack, until the release deletes those that are left. -/
theorem lifetime (udp : Bool) (uv : Uv) (es : List Event)
    (h : Along live Enabled (connectionCb udp uv) es) :
    let c := run live (connectionCb udp uv) es
    (c.Released ↔ Event.streamClose ∈ es ∧ c.OnDestroyRan) ∧
      (∀ e, c.Enabled e → c.Released → e = .destroy) ∧
      (∀ e, c.Enabled e → ¬c.Released → (c.live e).Released → e = .closed ∨ e = .streamClose) ∧
      (c.OnDestroyRan → TcpPipe.handle c.tcp = none ∧ c.udp.bind UdpPipe.sock = none) ∧
      c.allocated.Nodup ∧ (c.freed ++ c.drains).Perm c.allocated ∧
      (c.Released → c.freed.Perm c.allocated) := by
  obtain ⟨b, hkept, hb⟩ := kept_run udp uv h
  have hlife := hkept.life
  refine ⟨?_, fun e he hreleased ↦ hlife.eq_destroy_of_released hreleased he, ?_, ?_,
    hlife.ledger.nodup, hlife.ledger.balance, ?_⟩
  · rw [hlife.released_iff, hb]
  · intro e he hnot hreleased
    by_contra hneither
    rw [not_or] at hneither
    refine hlife.not_released_step he hnot hneither.1 hneither.2 (released_reap.mp ?_)
    by_cases hdestroy : e = .destroy
    · subst hdestroy
      rwa [Conn.live, if_neg hnot] at hreleased
    · rwa [live_of_ne_destroy hdestroy] at hreleased
  · exact fun hran ↦ hlife.no_handle (hlife.onDestroyRan_iff.mp hran)
  · intro hreleased
    have hbalance := hlife.ledger.balance
    rwa [hkept.emptied hreleased, List.append_nil] at hbalance

/-- A read that is not acked when the stream closes; the handle closes last. -/
def unacked : List Event :=
  [.connected 0 {}, .streamOpen {}, .read (.data [1]) {}, .streamClose, .closed]

/-- The release deletes what no ack came for. -/
theorem lifetime_at :
    (run live (connectionCb false {}) unacked).Released ∧
      (run live (connectionCb false {}) unacked).allocated = [⟨0, 1⟩] ∧
      (run live (connectionCb false {}) unacked).freed.Perm
        (run live (connectionCb false {}) unacked).allocated := by
  have hreleased : (run live (connectionCb false {}) unacked).Released := by decide +kernel
  obtain ⟨-, -, -, -, -, -, hfreed⟩ := lifetime false {} unacked (by decide +kernel)
  exact ⟨hreleased, by decide +kernel, hfreed hreleased⟩

end Conn

end HolesailServer

end Holesail
