import Holesail.Pipe.TcpPipe
import Holesail.Pipe.UdpPipe
import Holesail.Theory.Run

/-!
# One connection of the server

`HolesailServer::Conn`: an inbound encrypted stream, the pipe that bridges it to the local service,
and the `StreamSide` between them, which buffers until the stream opens. Everything that happens to
one connection is an event of a machine.

hyperdht tolerates a null stream: a call on one does nothing, and a write returns an error. It fires
`on_close` only after both ends have written end, which here is an event of its own. One that fires
from inside `hyperdht_stream_close` leads nowhere else: that is `exists_run_of_sync`.
-/

namespace Holesail

namespace HolesailServer

def kMaxPendingBytes : ℕ := 256 * 1024

/-- What the world answers in one callback. -/
structure Answers where
  uv : Uv := {}
  /-- What `hyperdht_stream_write` returns. -/
  write : ℤ := 0
deriving DecidableEq

structure Conn where
  /-- Not null. -/
  stream : Bool := false
  tcp : Option TcpPipe := none
  udp : Option UdpPipe := none
  /-- The writes still awaiting an ack. -/
  drains : List Drain := []
  streamOpen : Bool := false
  pending : Bytes := []
  pendingDrains : List Drain := []
  /-- Reference A, in the box that hyperdht holds. -/
  boxed : Bool := false
  /-- Reference B, captured in the pipe's `on_destroy`. -/
  keep : Bool := false
  /-- The calls made on the stream. -/
  calls : List StreamCall := []
  /-- How often `uv_close` was issued on the local handle. -/
  uvCloses : ℕ := 0
  /-- The datagrams sent to the local service. -/
  sent : List Bytes := []
  /-- The `on_drain`s of the writes that were accepted, and those that were called. -/
  accepted : List Drain := []
  fired : List Drain := []
  /-- Every `DrainCtx` that was made, and those that were deleted. -/
  allocated : List Drain := []
  freed : List Drain := []
deriving DecidableEq

namespace Conn

/-! ## The stream -/

/-- `hyperdht_stream_write`, and `hyperdht_stream_write_with_drain`. -/
def streamWrite (a : Answers) (data : Bytes) (c : Conn) : ℤ × Conn :=
  if c.stream then (a.write, { c with calls := c.calls ++ [.write data a.write] })
  else (uvEINVAL, c)

/-- A call that returns nothing. -/
def streamCall (call : StreamCall) (c : Conn) : Conn :=
  if c.stream then { c with calls := c.calls ++ [call] } else c

/-- Note the `on_drain` of a write that was accepted. -/
def accept (onDrain : Option Drain) (c : Conn) : Conn :=
  { c with accepted := c.accepted ++ onDrain.toList }

def makeSide (a : Answers) : StreamSide Conn where
  write := fun data onDrain c ↦
    if c.streamOpen = false then
      if kMaxPendingBytes < c.pending.length + data.length then (1, c.accept onDrain)
      else
        (1, { c.accept onDrain with
          pending := c.pending ++ data
          pendingDrains := c.pendingDrains ++ onDrain.toList })
    else match onDrain with
      | none => c.streamWrite a data
      | some drain =>
        let c := { c with drains := c.drains ++ [drain], allocated := c.allocated ++ [drain] }
        let (rc, c) := c.streamWrite a data
        if rc < 0 then
          (rc, { c with drains := c.drains.erase drain, freed := c.freed ++ [drain] })
        else (rc, c.accept onDrain)
  pause := streamCall .pause
  resume := streamCall .resume
  close := streamCall .close

/-- The TCP pipe's place in the connection. -/
def tcpHost (a : Answers) : TcpPipe.Host Conn where
  pipe := fun c ↦ c.tcp.getD {}
  setPipe := fun p c ↦ { c with tcp := some p }
  stream := makeSide a
  uvClose := fun _ c ↦ { c with uvCloses := c.uvCloses + 1 }
  onReady := fun _ c ↦ c
  onDestroy := fun c ↦ { c with keep := false }

/-- The UDP pipe's place in the connection. -/
def udpHost (a : Answers) : UdpPipe.Host Conn where
  pipe := fun c ↦ c.udp.getD {}
  setPipe := fun p c ↦ { c with udp := some p }
  stream := makeSide a
  uvClose := fun c ↦ { c with uvCloses := c.uvCloses + 1 }
  send := fun d c ↦ { c with sent := c.sent ++ [d] }
  onDestroy := fun c ↦ { c with keep := false }

theorem pipe_of_tcp {a : Answers} {c : Conn} {p : TcpPipe} (htcp : c.tcp = some p) :
    (tcpHost a).pipe c = p := by
  simp only [tcpHost, htcp, Option.getD_some]

theorem modify_of_tcp {a : Answers} {c : Conn} {p : TcpPipe} (htcp : c.tcp = some p)
    (f : TcpPipe → TcpPipe) : (tcpHost a).modify f c = { c with tcp := some (f p) } := by
  rw [TcpPipe.Host.modify, pipe_of_tcp htcp]
  rfl

theorem pipe_of_udp {a : Answers} {c : Conn} {p : UdpPipe} (hudp : c.udp = some p) :
    (udpHost a).pipe c = p := by
  simp only [udpHost, hudp, Option.getD_some]

/-! ## Callbacks -/

/-- `connection_cb`, once it has a stream. -/
def connectionCb (udp : Bool) (uv : Uv) : Conn :=
  let c : Conn := { stream := true, boxed := true, keep := true }
  if udp then (UdpPipe.start (udpHost {}) uv { c with udp := some { onDestroy := true } }).2
  else (TcpPipe.connect (tcpHost {}) uv 0 false { c with tcp := some { onDestroy := true } }).2

def fireDrain (uv : Uv) (c : Conn) (drain : Drain) : Conn :=
  TcpPipe.onDrain (tcpHost { uv := uv }) uv drain.len { c with fired := c.fired ++ [drain] }

/-- Write what was buffered, if anything was. -/
def flush (a : Answers) (c : Conn) : ℤ × Conn :=
  if c.pending = [] then (0, c) else { c with pending := [] }.streamWrite a c.pending

/-- Call the withheld `on_drain`s. -/
def releaseDrains (uv : Uv) (c : Conn) : Conn :=
  c.pendingDrains.foldl (fireDrain uv) { c with pendingDrains := [] }

def streamOpenCb (a : Answers) (c : Conn) : Conn :=
  if c.boxed = false then c
  else
    let (rc, c) := { c with streamOpen := true }.flush a
    if rc < 0 then { c with pendingDrains := [] } else c.releaseDrains a.uv

def streamDataCb (a : Answers) (data : Bytes) (c : Conn) : Conn :=
  if c.boxed = false then c
  else match c.tcp, c.udp with
    | some _, _ => TcpPipe.onStreamData (tcpHost a) a.uv data c
    | none, some _ => UdpPipe.onStreamData (udpHost a) data c
    | none, none => c

/-- `stream_close_cb`. Reference A is dropped when it returns. -/
def streamCloseCb (c : Conn) : Conn :=
  if c.boxed = false then c
  else
    let c := { c with stream := false }
    let c := match c.tcp, c.udp with
      | some _, _ => TcpPipe.onStreamClose (tcpHost {}) c
      | none, some _ => UdpPipe.onStreamClose (udpHost {}) c
      | none, none => c
    { c with boxed := false }

def drainCb (uv : Uv) (drain : Drain) (c : Conn) : Conn :=
  fireDrain uv { c with drains := c.drains.erase drain, freed := c.freed ++ [drain] } drain

/-- What `HolesailServer::destroy` does to a connection it finds. -/
def destroy (c : Conn) : Conn :=
  let c := match c.tcp with
    | some _ => TcpPipe.destroy (tcpHost {}) c
    | none => c
  match c.udp with
    | some _ => UdpPipe.destroy (udpHost {}) c
    | none => c

/-! ## The machine -/

inductive Event where
  /-- The local connect completes. -/
  | connected (status : ℤ) (uv : Uv)
  | read (nread : Read) (a : Answers)
  /-- The oldest local write completes. -/
  | written (status : ℤ)
  /-- The local handle has closed. -/
  | closed
  | recv (r : Recv) (a : Answers)
  | streamOpen (a : Answers)
  | streamData (data : Bytes) (a : Answers)
  | streamClose
  /-- A write on the stream is acked. -/
  | drained (drain : Drain) (uv : Uv)
  | destroy

def step (c : Conn) : Event → Conn
  | .connected status uv => TcpPipe.connectCb (tcpHost {}) uv status c
  | .read nread a =>
    TcpPipe.readCb (tcpHost a) nread ((tcpHost a).modify (TcpPipe.markEnded nread) c)
  | .written status => TcpPipe.writeCb (tcpHost {}) status c
  | .closed =>
    match c.tcp with
    | some _ => TcpPipe.closedCb (tcpHost {}) c
    | none => UdpPipe.closedCb (udpHost {}) c
  | .recv r a => UdpPipe.recvCb (udpHost a) r c
  | .streamOpen a => c.streamOpenCb a
  | .streamData data a => c.streamDataCb a data
  | .streamClose => c.streamCloseCb
  | .drained drain uv => c.drainCb uv drain
  | .destroy => c.destroy

/-- When libuv and hyperdht can fire an event. -/
def Enabled (c : Conn) : Event → Prop
  | .connected status _ => ∃ t ∈ TcpPipe.handle c.tcp, t.connecting = true ∧
      (t.closing = true → status ≠ 0)
  | .read nread _ => ∃ t ∈ TcpPipe.handle c.tcp, t.reading = true ∧ t.closing = false ∧
      (t.ended = true → nread.isData = false)
  | .written _ => ∃ t ∈ TcpPipe.handle c.tcp, t.writes ≠ []
  | .closed =>
      (∃ t ∈ TcpPipe.handle c.tcp, t.closing = true ∧ t.writes = [] ∧ t.connecting = false) ∨
        ∃ s ∈ c.udp.bind UdpPipe.sock, s.closing = true
  | .recv _ _ => ∃ s ∈ c.udp.bind UdpPipe.sock, s.receiving = true ∧ s.closing = false
  | .streamOpen _ => c.stream = true ∧ c.streamOpen = false
  | .streamData _ _ => c.stream = true ∧ c.streamOpen = true
  | .streamClose => c.stream = true
  | .drained drain _ => c.stream = true ∧ drain ∈ c.drains
  | .destroy => True

instance (c : Conn) : (e : Event) → Decidable (Enabled c e)
  | .connected _ _ => inferInstanceAs (Decidable (∃ t ∈ TcpPipe.handle c.tcp, _))
  | .read _ _ => inferInstanceAs (Decidable (∃ t ∈ TcpPipe.handle c.tcp, _))
  | .written _ => inferInstanceAs (Decidable (∃ t ∈ TcpPipe.handle c.tcp, _))
  | .closed => inferInstanceAs (Decidable ((∃ t ∈ TcpPipe.handle c.tcp, _) ∨ ∃ s ∈ c.udp.bind _, _))
  | .recv _ _ => inferInstanceAs (Decidable (∃ s ∈ c.udp.bind UdpPipe.sock, _))
  | .streamOpen _ => inferInstanceAs (Decidable (_ ∧ _))
  | .streamData _ _ => inferInstanceAs (Decidable (_ ∧ _))
  | .streamClose => inferInstanceAs (Decidable (_ = _))
  | .drained _ _ => inferInstanceAs (Decidable (_ ∧ _))
  | .destroy => inferInstanceAs (Decidable True)

def Event.ofTcp : Event → Bool
  | .connected _ _ | .read _ _ | .written _ => true
  | _ => false

theorem ofTcp_of_noTcp {c : Conn} (htcp : c.tcp = none) {e : Event} (he : c.Enabled e) :
    e.ofTcp = false := by
  have hhandle := TcpPipe.not_mem_handle htcp
  cases e with
  | connected status uv => exact he.elim fun t ht ↦ absurd ht.1 (hhandle t)
  | read nread a => exact he.elim fun t ht ↦ absurd ht.1 (hhandle t)
  | written status => exact he.elim fun t ht ↦ absurd ht.1 (hhandle t)
  | _ => rfl

end Conn

end HolesailServer

end Holesail
