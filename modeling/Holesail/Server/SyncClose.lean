import Holesail.Server.Lifetime
import Holesail.Server.Stream

/-!
# A stream that closes inside the call

hyperdht may fire `on_close` from inside `hyperdht_stream_close`, on a stream whose other end has
ended already. `stepSync` is the machine of a connection for which it does so. A pipe that calls
`close` is at its end of file or is being destroyed. What is left to do of a `destroy` is to give
back the handle, and `on_close` does not touch a pipe that is being destroyed.

## Main result

`exists_run_of_sync`: where a run with such closes leads, a run leads in which every `on_close`
fires after the callback that closed the stream. So whatever holds in every state of the one kind of
run holds in every state of the other.
-/

namespace Holesail

/-! ## A pipe and its side -/

/-- `w'` is `w`, or what `g` makes of it. -/
def Deferred {W : Type} (g : W → W) (w w' : W) : Prop := w' = w ∨ w' = g w

theorem Deferred.ite {W : Type} {g : W → W} {p : Prop} [Decidable p] {u v u' v' : W}
    (hpos : p → Deferred g u u') (hneg : ¬p → Deferred g v v') :
    Deferred g (if p then u else v) (if p then u' else v') := by
  split_ifs with h
  · exact hpos h
  · exact hneg h

namespace TcpPipe

variable {W : Type} {h : Host W} {g : W → W}

/-- The host whose `close` does `g` before it returns. -/
def Host.syncing (h : Host W) (g : W → W) : Host W :=
  { h with stream := { h.stream with close := fun w ↦ g (h.stream.close w) } }

/-- For a destroyed pipe `g` can wait until the handle is given back. -/
def Host.Defers (h : Host W) (g : W → W) : Prop :=
  ∀ w, (h.pipe w).destroyed = true → closeHandle h (g w) = g (closeHandle h w)

theorem pipe_syncing (h : Host W) (g : W → W) : (h.syncing g).pipe = h.pipe := rfl

variable (hh : h.Plain) (hg : h.Defers g)

include hh hg

theorem deferred_destroy (w : W) : Deferred g (destroy h w) (destroy (h.syncing g) w) := by
  have hdestroyed : (h.pipe (h.stream.close (h.modify stopReading
      (h.modify (fun p ↦ { p with destroyed := true }) w)))).destroyed = true := by
    rw [hh.pipe_close, hh.pipe_modify, (turned_stopReading _).life.1, hh.pipe_modify]
  unfold destroy
  exact .ite (fun _ ↦ .inl rfl) fun _ ↦ .inr (hg _ hdestroyed)

theorem deferred_flushFinished (w : W) :
    Deferred g (flushFinished h w) (flushFinished (h.syncing g) w) := by
  unfold flushFinished
  exact .ite (fun _ ↦ .inl rfl) fun _ ↦ deferred_destroy hh hg w

theorem deferred_connect (uv : Uv) (id : ℕ) (onReady : Bool) (w : W) :
    Deferred g (connect h uv id onReady w).2 (connect (h.syncing g) uv id onReady w).2 := by
  simp only [connect, apply_ite Prod.snd]
  refine .ite (fun _ ↦ .inl rfl) fun _ ↦ .ite (fun _ ↦ .inl rfl) fun _ ↦ ?_
  refine .ite (fun _ ↦ deferred_destroy hh hg _) fun _ ↦ ?_
  exact .ite (fun _ ↦ deferred_destroy hh hg _) fun _ ↦ .inl rfl

theorem deferred_connectCb (uv : Uv) (status : ℤ) (w : W) :
    Deferred g (connectCb h uv status w) (connectCb (h.syncing g) uv status w) := by
  unfold connectCb
  exact .ite (fun _ ↦ deferred_destroy hh hg _) fun _ ↦ .inl rfl

theorem deferred_readCb (nread : Read) (w : W) :
    Deferred g (readCb h nread w) (readCb (h.syncing g) nread w) := by
  unfold readCb
  refine .ite (fun _ ↦ .inl rfl) fun _ ↦ ?_
  cases nread with
  | eof => exact .inr rfl
  | error => exact deferred_destroy hh hg w
  | data bytes =>
    refine .ite (fun _ ↦ .inl rfl) fun _ ↦ ?_
    refine .ite (fun _ ↦ deferred_destroy hh hg _) fun _ ↦ ?_
    exact .ite (fun _ ↦ .inl rfl) fun _ ↦ .inl rfl

theorem deferred_onStreamData (uv : Uv) (data : Bytes) (w : W) :
    Deferred g (onStreamData h uv data w) (onStreamData (h.syncing g) uv data w) := by
  rw [onStreamData.eq_def, onStreamData.eq_def, pipe_syncing]
  cases (h.pipe w).tcp with
  | none => exact .inl rfl
  | some t =>
    refine .ite (fun _ ↦ .inl rfl) fun _ ↦ .ite (fun _ ↦ .inl rfl) fun _ ↦ ?_
    refine .ite (fun _ ↦ deferred_destroy hh hg w) fun _ ↦ ?_
    exact .ite (fun _ ↦ .inl rfl) fun _ ↦ .inl rfl

theorem deferred_writeCb (status : ℤ) (w : W) :
    Deferred g (writeCb h status w) (writeCb (h.syncing g) status w) := by
  rw [writeCb.eq_def, writeCb.eq_def, pipe_syncing]
  cases (h.pipe w).tcp with
  | none => exact .inl rfl
  | some t =>
    dsimp only
    cases t.writes with
    | nil => exact .inl rfl
    | cons data rest =>
      exact .ite (fun _ ↦ deferred_destroy hh hg _) fun _ ↦ deferred_flushFinished hh hg _

end TcpPipe

namespace UdpPipe

variable {W : Type}

/-- The host whose `close` does `g` before it returns. -/
def Host.syncing (h : Host W) (g : W → W) : Host W :=
  { h with stream := { h.stream with close := fun w ↦ g (h.stream.close w) } }

/-- The end of `destroy`: give back the socket. -/
def closeSocket (h : Host W) (w : W) : W :=
  match (h.pipe w).sock with
  | some s =>
    if s.closing then fireOnDestroy h w
    else h.uvClose (h.modify (fun p ↦ { p with sock := some { s with closing := true } }) w)
  | none => fireOnDestroy h w

end UdpPipe

/-! ## The connection -/

namespace HolesailServer

namespace Conn

open Run

variable {a : Answers} {b : Bool} {c : Conn}

/-- `hyperdht_stream_close` fires `on_close`, on a stream that is there. -/
def onClose (c : Conn) : Conn := if c.stream then c.streamCloseCb else c

def tcpSync (a : Answers) : TcpPipe.Host Conn := (tcpHost a).syncing onClose

def udpSync (a : Answers) : UdpPipe.Host Conn := (udpHost a).syncing onClose

/-- `connection_cb`, where every `hyperdht_stream_close` fires `on_close` before it returns. -/
def connectionSync (udp : Bool) (uv : Uv) : Conn :=
  let c : Conn := { stream := true, boxed := true, keep := true }
  if udp then (UdpPipe.start (udpSync {}) uv { c with udp := some { onDestroy := true } }).2
  else (TcpPipe.connect (tcpSync {}) uv 0 false { c with tcp := some { onDestroy := true } }).2

/-- One event, where every `hyperdht_stream_close` fires `on_close` before it returns. -/
def stepSync (c : Conn) : Event → Conn
  | .connected status uv => TcpPipe.connectCb (tcpSync {}) uv status c
  | .read nread a =>
    TcpPipe.readCb (tcpSync a) nread ((tcpHost a).modify (TcpPipe.markEnded nread) c)
  | .written status => TcpPipe.writeCb (tcpSync {}) status c
  | .recv r a => UdpPipe.recvCb (udpSync a) r c
  | .streamData data a =>
    if c.boxed = false then c
    else match c.tcp, c.udp with
      | some _, _ => TcpPipe.onStreamData (tcpSync a) a.uv data c
      | none, some _ => UdpPipe.onStreamData (udpSync a) data c
      | none, none => c
  | .destroy =>
    let c := match c.tcp with
      | some _ => TcpPipe.destroy (tcpSync {}) c
      | none => c
    match c.udp with
      | some _ => UdpPipe.destroy (udpSync {}) c
      | none => c
  -- The others close no stream.
  | e => c.step e

/-- The connection without its stream. -/
def hangUp (c : Conn) : Conn :=
  if c.stream = true ∧ c.boxed = true then { c with stream := false, boxed := false } else c

theorem hangUp_comm {f : Conn → Conn} (hf : ∀ c s b, f { c with stream := s, boxed := b }
    = { f c with stream := s, boxed := b }) (c : Conn) : f c.hangUp = (f c).hangUp := by
  have hsame := hf c c.stream c.boxed
  have hstream : (f c).stream = c.stream := (congrArg Conn.stream hsame :)
  have hboxed : (f c).boxed = c.boxed := (congrArg Conn.boxed hsame :)
  rw [hangUp, hangUp, hstream, hboxed]
  split_ifs
  · exact hf c false false
  · rfl

theorem onClose_eq (hclosed : (match c.tcp, c.udp with
    | some _, _ => TcpPipe.onStreamClose (tcpHost {}) { c with stream := false }
    | none, some _ => UdpPipe.onStreamClose (udpHost {}) { c with stream := false }
    | none, none => { c with stream := false }) = { c with stream := false }) :
    c.onClose = c.hangUp := by
  rw [onClose, streamCloseCb, hangUp]
  by_cases hstream : c.stream = true
  · by_cases hboxed : c.boxed = true
    · rw [if_pos hstream, if_neg (by rw [hboxed]; decide), if_pos ⟨hstream, hboxed⟩]
      exact congrArg (fun c : Conn ↦ { c with boxed := false }) hclosed
    · rw [if_pos hstream, if_pos (Bool.of_not_eq_true hboxed), if_neg fun h ↦ hboxed h.2]
  · rw [if_neg hstream, if_neg fun h ↦ hstream h.1]

theorem onClose_of_tcp {p : TcpPipe} (htcp : c.tcp = some p) (hp : p.destroyed = true) :
    c.onClose = c.hangUp := by
  refine onClose_eq ?_
  rw [htcp]
  exact if_pos hp

theorem onClose_of_udp {p : UdpPipe} (htcp : c.tcp = none) (hudp : c.udp = some p)
    (hp : p.destroyed = true) : c.onClose = c.hangUp := by
  refine onClose_eq ?_
  rw [htcp, hudp]
  exact if_pos hp

theorem exists_tcp (hdestroyed : ((tcpHost a).pipe c).destroyed = true) :
    ∃ p, c.tcp = some p ∧ p.destroyed = true := by
  cases htcp : c.tcp with
  | none =>
    simp only [tcpHost, htcp] at hdestroyed
    exact absurd hdestroyed Bool.false_ne_true
  | some p =>
    rw [pipe_of_tcp htcp] at hdestroyed
    exact ⟨p, rfl, hdestroyed⟩

theorem fireOnDestroy_withStream (c : Conn) (s b : Bool) :
    TcpPipe.fireOnDestroy (tcpHost a) { c with stream := s, boxed := b }
      = { TcpPipe.fireOnDestroy (tcpHost a) c with stream := s, boxed := b } := by
  have hpipe : (tcpHost a).pipe { c with stream := s, boxed := b } = (tcpHost a).pipe c := rfl
  rw [TcpPipe.fireOnDestroy, TcpPipe.fireOnDestroy, hpipe]
  split_ifs <;> rfl

theorem closeHandle_withStream (a : Answers) (c : Conn) (s b : Bool) :
    TcpPipe.closeHandle (tcpHost a) { c with stream := s, boxed := b }
      = { TcpPipe.closeHandle (tcpHost a) c with stream := s, boxed := b } := by
  have hpipe : (tcpHost a).pipe { c with stream := s, boxed := b } = (tcpHost a).pipe c := rfl
  rw [TcpPipe.closeHandle.eq_def, TcpPipe.closeHandle.eq_def, hpipe]
  cases ((tcpHost a).pipe c).tcp with
  | none => exact fireOnDestroy_withStream c s b
  | some t =>
    dsimp only
    split_ifs
    · exact fireOnDestroy_withStream c s b
    · exact fireOnDestroy_withStream
        ((tcpHost a).modify (fun p ↦ { p with closing := true }) c) s b
    · rfl

theorem defers_tcpHost (a : Answers) : (tcpHost a).Defers onClose := by
  intro c hc
  obtain ⟨p, htcp, hp⟩ := exists_tcp hc
  obtain ⟨q, htcp', hq⟩ := exists_tcp (((plain_tcpHost a).destroyed_closeHandle c).trans hc)
  rw [onClose_of_tcp htcp hp, onClose_of_tcp htcp' hq]
  exact hangUp_comm (closeHandle_withStream a) c

theorem closeSocket_withStream (a : Answers) (c : Conn) (s b : Bool) :
    UdpPipe.closeSocket (udpHost a) { c with stream := s, boxed := b }
      = { UdpPipe.closeSocket (udpHost a) c with stream := s, boxed := b } := by
  have hpipe : (udpHost a).pipe { c with stream := s, boxed := b } = (udpHost a).pipe c := rfl
  have hfired : UdpPipe.fireOnDestroy (udpHost a) { c with stream := s, boxed := b }
      = { UdpPipe.fireOnDestroy (udpHost a) c with stream := s, boxed := b } := by
    rw [UdpPipe.fireOnDestroy, UdpPipe.fireOnDestroy, hpipe]
    split_ifs <;> rfl
  rw [UdpPipe.closeSocket.eq_def, UdpPipe.closeSocket.eq_def, hpipe]
  cases ((udpHost a).pipe c).sock with
  | none => exact hfired
  | some t =>
    dsimp only
    split_ifs
    · exact hfired
    · rfl

theorem closeSocket_spec {p : UdpPipe} (hudp : c.udp = some p) :
    (UdpPipe.closeSocket (udpHost a) c).tcp = c.tcp ∧
      ∃ q, (UdpPipe.closeSocket (udpHost a) c).udp = some q ∧ q.destroyed = p.destroyed := by
  have hfired : (UdpPipe.fireOnDestroy (udpHost a) c).tcp = c.tcp ∧
      ∃ q, (UdpPipe.fireOnDestroy (udpHost a) c).udp = some q ∧ q.destroyed = p.destroyed := by
    rw [UdpPipe.fireOnDestroy, UdpPipe.Host.modify, pipe_of_udp hudp]
    split_ifs
    · exact ⟨rfl, _, rfl, rfl⟩
    · exact ⟨rfl, p, hudp, rfl⟩
  rw [UdpPipe.closeSocket.eq_def, pipe_of_udp hudp]
  split
  · split_ifs
    · exact hfired
    · exact ⟨rfl, _, rfl, by rw [pipe_of_udp hudp]⟩
  · exact hfired

theorem closeSocket_onClose {p : UdpPipe} (htcp : c.tcp = none) (hudp : c.udp = some p)
    (hp : p.destroyed = true) :
    UdpPipe.closeSocket (udpHost a) c.onClose = (UdpPipe.closeSocket (udpHost a) c).onClose := by
  obtain ⟨htcp', q, hudp', hq⟩ := closeSocket_spec (a := a) hudp
  rw [onClose_of_udp htcp hudp hp, onClose_of_udp (htcp'.trans htcp) hudp' (hq.trans hp)]
  exact hangUp_comm (closeSocket_withStream a) c

theorem deferred_destroy_udp (htcp : c.tcp = none) :
    Deferred onClose (UdpPipe.destroy (udpHost a) c) (UdpPipe.destroy (udpSync a) c) := by
  have hcalled : ∀ c : Conn, (c.streamCall .close).tcp = c.tcp ∧
      (c.streamCall .close).udp = c.udp := by
    intro c
    rw [streamCall]
    split_ifs <;> exact ⟨rfl, rfl⟩
  obtain ⟨htcp', hudp⟩ := hcalled ((udpHost a).modify (fun p ↦ { p with
    destroyed := true
    sock := p.sock.map fun s ↦ { s with receiving := false } }) c)
  rw [UdpPipe.destroy.eq_def, UdpPipe.destroy.eq_def]
  exact .ite (fun _ ↦ .inl rfl) fun _ ↦ .inr (closeSocket_onClose (htcp'.trans htcp) hudp rfl)

/-! ## The machine -/

theorem deferred_connectionSync (udp : Bool) (uv : Uv) :
    Deferred onClose (connectionCb udp uv) (connectionSync udp uv) := by
  cases udp with
  | false => exact TcpPipe.deferred_connect (plain_tcpHost {}) (defers_tcpHost {}) uv 0 false _
  | true =>
    change Deferred onClose (UdpPipe.start (udpHost {}) uv _).2 (UdpPipe.start (udpSync {}) uv _).2
    simp only [UdpPipe.start, apply_ite Prod.snd]
    refine .ite (fun _ ↦ .inl rfl) fun _ ↦ .ite (fun _ ↦ .inl rfl) fun _ ↦ ?_
    refine .ite (fun _ ↦ .inl rfl) fun _ ↦ ?_
    exact .ite (fun _ ↦ deferred_destroy_udp rfl) fun _ ↦ .inl rfl

theorem TcpAt.udp_onClose (h : TcpAt b b (TcpLife b) c) : c.onClose.udp = none := by
  rw [onClose]
  split_ifs with hstream
  · obtain rfl : b = true := h.stream.symm.trans hstream
    exact h.streamCloseCb.udp
  · exact h.udp

theorem TcpAt.deferred (h : TcpAt b b (TcpLife b) c) {e : Event} (he : c.Enabled e) :
    Deferred onClose (c.step e) (c.stepSync e) := by
  obtain ⟨p, htcp, -⟩ := h.pipe
  cases e with
  | connected status uv =>
    exact TcpPipe.deferred_connectCb (plain_tcpHost {}) (defers_tcpHost {}) uv status c
  | read nread a =>
    exact TcpPipe.deferred_readCb (plain_tcpHost a) (defers_tcpHost a) nread _
  | written status =>
    exact TcpPipe.deferred_writeCb (plain_tcpHost {}) (defers_tcpHost {}) status c
  | recv r a =>
    obtain ⟨sock, hsock, -⟩ := he
    rw [h.udp] at hsock
    exact absurd hsock nofun
  | streamData data a =>
    change Deferred onClose (c.streamDataCb a data) _
    simp only [Conn.streamDataCb, stepSync, htcp]
    exact .ite (fun _ ↦ .inl rfl) fun _ ↦
      TcpPipe.deferred_onStreamData (plain_tcpHost a) (defers_tcpHost a) a.uv data c
  | destroy =>
    have hdestroyed := survives_life.destroy (a := {}) h
    have hsync := TcpPipe.deferred_destroy (plain_tcpHost {}) (defers_tcpHost {}) c
    have hudp : (TcpPipe.destroy (tcpSync {}) c).udp = none := by
      rcases hsync with hsame | hclosed
      · exact (congrArg Conn.udp hsame).trans hdestroyed.udp
      · exact (congrArg Conn.udp hclosed).trans hdestroyed.udp_onClose
    simp only [Conn.step, Conn.destroy, stepSync, htcp, hdestroyed.udp, hudp]
    exact hsync
  | closed | streamOpen | streamClose | drained => exact .inl rfl

theorem UdpAt.deferred (h : UdpAt b b (UdpLife b) c) {e : Event} (he : c.Enabled e) :
    Deferred onClose (c.step e) (c.stepSync e) := by
  obtain ⟨p, hudp, -⟩ := h.pipe
  have hother := ofTcp_of_noTcp h.tcp he
  cases e with
  | connected _ _ | read _ _ | written _ => exact Bool.noConfusion hother
  | recv r a =>
    change Deferred onClose (UdpPipe.recvCb (udpHost a) r c) (UdpPipe.recvCb (udpSync a) r c)
    unfold UdpPipe.recvCb
    refine .ite (fun _ ↦ .inl rfl) fun _ ↦ ?_
    cases r with
    | error => exact deferred_destroy_udp h.tcp
    | datagram data =>
      exact .ite (fun _ ↦ deferred_destroy_udp (h.write _).tcp) fun _ ↦ .inl rfl
    | endOfPass | noAddr | truncated => exact .inl rfl
  | streamData data a =>
    change Deferred onClose (c.streamDataCb a data) _
    simp only [Conn.streamDataCb, stepSync, h.tcp, hudp]
    refine .ite (fun _ ↦ .inl rfl) fun _ ↦ ?_
    unfold UdpPipe.onStreamData
    refine .ite (fun _ ↦ .inl rfl) fun _ ↦ ?_
    have hread := h.modify (a := a) (N := fun _ _ ↦ True) (f := fun p ↦
      { p with decoder := (((udpHost a).pipe c).decoder.push data).decoder }) fun _ _ _ ↦ trivial
    exact .ite (fun _ ↦ .inl rfl) fun _ ↦ deferred_destroy_udp (hread.foldl_send _).tcp
  | destroy =>
    simp only [Conn.step, Conn.destroy, stepSync, h.tcp, hudp]
    exact deferred_destroy_udp h.tcp
  | closed | streamOpen | streamClose | drained => exact .inl rfl

/-- **An event whose close fires `on_close` at once** does what it does otherwise, and at most what
`on_close` does then. -/
theorem Life.deferred (h : Life b c) {e : Event} (he : c.Enabled e) :
    Deferred onClose (c.step e) (c.stepSync e) :=
  h.elim (fun h ↦ h.deferred he) fun h ↦ h.deferred he

/-- A run leads to `c`, and it is where its life can be. -/
def Reached (c₀ c : Conn) : Prop :=
  ∃ es, Along step Enabled c₀ es ∧ run step c₀ es = c ∧ ∃ b, Life b c

theorem Reached.step {c₀ : Conn} (h : Reached c₀ c) {e : Event} (he : c.Enabled e) :
    Reached c₀ (c.step e) := by
  obtain ⟨es, hes, rfl, b, hlife⟩ := h
  exact ⟨es ++ [e], along_append.mpr ⟨hes, he, trivial⟩, run_concat step c₀ es e,
    hlife.any_step he⟩

theorem Reached.of_deferred {c₀ c' : Conn} (h : Reached c₀ c) (hc : Deferred onClose c c') :
    Reached c₀ c' := by
  rcases hc with rfl | rfl
  · exact h
  · rw [onClose]
    split_ifs with hstream
    · exact h.step (e := .streamClose) hstream
    · exact h

/-- One event, and whether a close fires `on_close` before it returns. -/
def stepEither (c : Conn) (e : Bool × Event) : Conn :=
  if e.1 then c.stepSync e.2 else c.step e.2

/-- **Where a run with such closes leads**, a run without them leads. -/
theorem exists_run_of_sync (udp sync : Bool) (uv : Uv) (es : List (Bool × Event)) :
    let c₀ := if sync then connectionSync udp uv else connectionCb udp uv
    Along stepEither (fun c e ↦ c.Enabled e.2) c₀ es →
      ∃ fs, Along step Enabled (connectionCb udp uv) fs ∧
        run step (connectionCb udp uv) fs = run stepEither c₀ es := by
  intro c₀ henabled
  have hfirst : Reached (connectionCb udp uv) (connectionCb udp uv) :=
    ⟨[], trivial, rfl, true, life_connectionCb udp uv⟩
  have hstart : Reached (connectionCb udp uv) c₀ := by
    refine hfirst.of_deferred ?_
    cases sync with
    | false => exact .inl rfl
    | true => exact deferred_connectionSync udp uv
  have hlast := invariant_of_along (P := Reached (connectionCb udp uv)) (fun c e hc he ↦ ?_) hstart
    henabled
  · obtain ⟨fs, hfs, hrun, -⟩ := hlast
    exact ⟨fs, hfs, hrun⟩
  · refine (hc.step he).of_deferred ?_
    obtain ⟨-, -, -, b, hlife⟩ := hc
    rw [stepEither]
    split_ifs
    · exact hlife.deferred he
    · exact .inl rfl

end Conn

end HolesailServer

end Holesail
