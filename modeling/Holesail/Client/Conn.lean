import Holesail.Pipe.TcpPipe
import Holesail.Pipe.UdpProxy

/-!
# One connection of the client

`HolesailClient::Conn`: one local socket, or one source of datagrams, bridged to one DHT stream. It
is dialled first and buffers until its stream opens; a TCP connection gets its pipe only then.

What a connection's callbacks act on is the connection and the UDP proxy it shares with the others,
together a `Conn.Ctx`. The record of a connection stays after `reap` has erased it, so that it can
be said what is still owed to it: `held` says whether it is in `conns_`, which is also when a
`weak_ptr` to it locks.

hyperdht may fire `on_close` from inside `hyperdht_stream_close`. It fires once, so a close that
`on_close` itself leads to finds the stream null: there it does not matter what the call does.
-/

namespace Holesail

namespace HolesailClient

def kMaxPendingBytes : ℕ := 256 * 1024

/-- What the world answers in one callback. -/
structure Answers where
  uv : Uv := {}
  /-- What `hyperdht_stream_write` returns. -/
  write : ℤ := 0
  /-- What `hyperdht_connect_ex` returns. -/
  connect : ℤ := 0
  /-- `hyperdht_stream_open` returns a stream. -/
  opened : Bool := true
  /-- `hyperdht_stream_close` fires `on_close` before it returns. -/
  sync : Bool := false
deriving DecidableEq

structure Conn where
  /-- Not null. -/
  stream : Bool := false
  connectPending : Bool := true
  streamOpen : Bool := false
  streamClosed : Bool := false
  /-- The accepted socket, until the pipe adopts it. -/
  tcp : Option UvTcp := none
  pipe : Option TcpPipe := none
  pipeDone : Bool := false
  udp : Bool := false
  clientId : Bytes := []
  pending : Bytes := []
  /-- In `conns_`. -/
  held : Bool := true
  /-- hyperdht owes the connect callback. -/
  connecting : Bool := false
  /-- hyperdht has a stream for it, and owes its `on_close`. -/
  live : Bool := false
  /-- The `DrainCtx`s that are allocated. -/
  drains : List Drain := []
  /-- The calls made on the stream. -/
  calls : List StreamCall := []
  /-- The handles that `uv_close` was issued on. -/
  uvClosed : List ℕ := []
deriving DecidableEq

namespace Conn

/-- What the callbacks of a connection act on. -/
structure Ctx where
  conn : Conn
  proxy : UdpProxy

namespace Ctx

def modify (f : Conn → Conn) (x : Ctx) : Ctx := { x with conn := f x.conn }

/-! ## The stream -/

/-- `hyperdht_stream_write`, and `hyperdht_stream_write_with_drain`. -/
def streamWrite (a : Answers) (data : Bytes) (x : Ctx) : ℤ × Ctx :=
  (a.write, x.modify fun c ↦ { c with calls := c.calls ++ [.write data a.write] })

/-- A call that returns nothing. -/
def streamCall (call : StreamCall) (x : Ctx) : Ctx :=
  x.modify fun c ↦ { c with calls := c.calls ++ [call] }

/-- `make_side`. `close` is `hyperdht_stream_close`. -/
def makeSide (close : Ctx → Ctx) (a : Answers) : StreamSide Ctx where
  write := fun data onDrain x ↦
    if x.conn.held = false ∨ x.conn.streamClosed = true then (-1, x)
    else if x.conn.stream = false ∨ x.conn.streamOpen = false then
      if kMaxPendingBytes < x.conn.pending.length + data.length then (1, x)
      else (1, x.modify fun c ↦ { c with pending := c.pending ++ data })
    else match onDrain with
      | none => x.streamWrite a data
      | some drain =>
        let x := x.modify fun c ↦ { c with drains := c.drains ++ [drain] }
        let (rc, x) := x.streamWrite a data
        if rc < 0 then (rc, x.modify fun c ↦ { c with drains := c.drains.erase drain })
        else (rc, x)
  pause := fun x ↦
    if x.conn.held = true ∧ x.conn.stream = true then x.streamCall .pause else x
  resume := fun x ↦
    if x.conn.held = true ∧ x.conn.stream = true then x.streamCall .resume else x
  close := fun x ↦
    if x.conn.held = true ∧ x.conn.stream = true ∧ x.conn.streamClosed = false then close x else x

/-! ## Teardown -/

/-- `reap`: erase a connection once nothing can call back into it. -/
def reap (x : Ctx) : Ctx :=
  if x.conn.held = false then x
  else if x.conn.connectPending = true then x
  else if x.conn.stream = true ∧ x.conn.streamClosed = false then x
  else if x.conn.pipe.isSome ∧ x.conn.pipeDone = false then x
  else x.modify fun c ↦ { c with held := false }

/-- The pipe's place in the connection. -/
def host (close : Ctx → Ctx) (a : Answers) : TcpPipe.Host Ctx where
  pipe := fun x ↦ x.conn.pipe.getD {}
  setPipe := fun p x ↦ x.modify fun c ↦ { c with pipe := some p }
  stream := makeSide close a
  uvClose := fun t x ↦ x.modify fun c ↦ { c with uvClosed := c.uvClosed ++ [t.id] }
  onReady := fun _ x ↦ x
  onDestroy := fun x ↦
    if x.conn.held = false then x else (x.modify fun c ↦ { c with pipeDone := true }).reap

/-- Give back the accepted socket. -/
def closeAccepted (x : Ctx) : Ctx :=
  match x.conn.tcp with
  | none => x
  | some accepted =>
    if accepted.closing then x.modify fun c ↦ { c with tcp := none }
    else x.modify fun c ↦ { c with tcp := none, uvClosed := c.uvClosed ++ [accepted.id] }

/-- Drop the proxy's entry, for a source of datagrams. -/
def dropClient (x : Ctx) : Ctx :=
  if x.conn.udp then { x with proxy := x.proxy.onStreamClose x.conn.clientId } else x

/-- End the pipe, and with it the stream; or the stream alone. -/
def endPipe (close : Ctx → Ctx) (a : Answers) (x : Ctx) : Ctx :=
  if x.conn.pipe.isSome ∧ x.conn.pipeDone = false then TcpPipe.destroy (host close a) x
  else if x.conn.stream = true ∧ x.conn.streamClosed = false then close x
  else x

def shutdownConn (close : Ctx → Ctx) (a : Answers) (x : Ctx) : Ctx :=
  (endPipe close a x.closeAccepted.dropClient).reap

/-- `hyperdht_stream_close`, with `on_close` fired some time later. -/
def closeLater (x : Ctx) : Ctx := x.streamCall .close

def streamCloseCb (x : Ctx) : Ctx :=
  let x := x.modify fun c ↦ { c with live := false }
  if x.conn.held = false then x
  else
    let x := x.modify fun c ↦ { c with streamClosed := true, stream := false }
    if x.conn.udp then x.dropClient.reap
    else if x.conn.pipe.isSome then (TcpPipe.onStreamClose (host closeLater {}) x).reap
    -- It never got as far as a pipe.
    else if x.conn.tcp.isSome then shutdownConn closeLater {} x
    else x.reap

/-- `hyperdht_stream_close`. -/
def streamClose (a : Answers) (x : Ctx) : Ctx :=
  if a.sync then x.closeLater.streamCloseCb else x.closeLater

/-! ## Dialling -/

def beginDhtConnect (a : Answers) (x : Ctx) : Bool × Ctx :=
  if a.connect < 0 then
    (false, shutdownConn (streamClose a) a (x.modify fun c ↦ { c with connectPending := false }))
  else (true, x.modify fun c ↦ { c with connecting := true })

/-- `connect_cb`. `found` says that it is given a connection, `destroyed` is `destroyed_`. -/
def connectCb (destroyed : Bool) (error : ℤ) (found : Bool) (a : Answers) (x : Ctx) : Ctx :=
  let x := x.modify fun c ↦ { c with connecting := false }
  if x.conn.held = false then x
  else
    let x := x.modify fun c ↦ { c with connectPending := false }
    if destroyed = true ∨ error ≠ 0 ∨ found = false then shutdownConn (streamClose a) a x
    else if a.opened then x.modify fun c ↦ { c with stream := true, live := true }
    else shutdownConn (streamClose a) a x

/-- Write what was buffered, if anything was. -/
def flush (a : Answers) (x : Ctx) : ℤ × Ctx :=
  if x.conn.pending = [] then (0, x)
  else (x.modify fun c ↦ { c with pending := [] }).streamWrite a x.conn.pending

/-- Hand the accepted socket to a pipe. -/
def bridge (a : Answers) (x : Ctx) : Ctx :=
  match x.conn.tcp with
  | none => x
  | some accepted =>
    let x := x.modify fun c ↦ { c with tcp := none, pipe := some { onDestroy := true } }
    let (rc, x) := TcpPipe.adopt (host (streamClose a) a) a.uv (some accepted) x
    if rc ≠ 0 then shutdownConn (streamClose a) a x else x

def onStreamOpen (a : Answers) (x : Ctx) : Ctx :=
  let (rc, x) := flush a (x.modify fun c ↦ { c with streamOpen := true })
  if rc < 0 then shutdownConn (streamClose a) a x
  -- The proxy already holds this stream's side.
  else if x.conn.udp then x
  else x.bridge a

def streamOpenCb (a : Answers) (x : Ctx) : Ctx :=
  if x.conn.held = false ∨ x.conn.stream = false ∨ x.conn.streamClosed = true then x
  else x.onStreamOpen a

/-! ## Callbacks of an open stream -/

/-- `stream_data_cb`, for a connection with a pipe. -/
def streamDataCb (a : Answers) (data : Bytes) (x : Ctx) : Ctx :=
  if x.conn.held = false ∨ data = [] then x
  else if x.conn.pipe.isSome then TcpPipe.onStreamData (host (streamClose a) a) a.uv data x
  else x

def drainCb (a : Answers) (drain : Drain) (x : Ctx) : Ctx :=
  let x := x.modify fun c ↦ { c with drains := c.drains.erase drain }
  if x.conn.held = false ∨ x.conn.streamClosed = true ∨ x.conn.pipeDone = true then x
  else TcpPipe.onDrain (host (streamClose a) a) a.uv drain.len x

end Ctx

/-! ## The machine -/

inductive Event where
  | streamOpen (a : Answers)
  | streamData (data : Bytes) (a : Answers)
  | streamClose
  /-- A write on the stream is acked. -/
  | drained (drain : Drain) (a : Answers)
  /-- The local socket is read. -/
  | read (nread : Read) (a : Answers)
  /-- The oldest local write completes. -/
  | written (status : ℤ) (a : Answers)
  /-- The local handle has closed. -/
  | closed

def step (x : Ctx) : Event → Ctx
  | .streamOpen a => x.streamOpenCb a
  | .streamData data a => x.streamDataCb a data
  | .streamClose => x.streamCloseCb
  | .drained drain a => x.drainCb a drain
  | .read nread a =>
    let h := Ctx.host (Ctx.streamClose a) a
    TcpPipe.readCb h nread (h.modify (TcpPipe.markEnded nread) x)
  | .written status a => TcpPipe.writeCb (Ctx.host (Ctx.streamClose a) a) status x
  | .closed => TcpPipe.closedCb (Ctx.host Ctx.closeLater {}) x

/-- When libuv and hyperdht can fire an event. -/
def Enabled (c : Conn) : Event → Prop
  | .streamOpen _ => c.live = true ∧ c.streamOpen = false
  | .streamData _ _ => c.live = true ∧ c.streamOpen = true
  | .streamClose => c.live = true
  | .drained drain _ => c.live = true ∧ drain ∈ c.drains
  | .read nread _ => ∃ t ∈ TcpPipe.handle c.pipe, t.reading = true ∧ t.closing = false ∧
      (t.ended = true → nread.isData = false)
  | .written _ _ => ∃ t ∈ TcpPipe.handle c.pipe, t.writes ≠ []
  | .closed => ∃ t ∈ TcpPipe.handle c.pipe, t.closing = true ∧ t.writes = []

instance (c : Conn) : (e : Event) → Decidable (Enabled c e)
  | .streamOpen _ => inferInstanceAs (Decidable (_ ∧ _))
  | .streamData _ _ => inferInstanceAs (Decidable (_ ∧ _))
  | .streamClose => inferInstanceAs (Decidable (_ = _))
  | .drained _ _ => inferInstanceAs (Decidable (_ ∧ _))
  | .read _ _ => inferInstanceAs (Decidable (∃ t ∈ TcpPipe.handle c.pipe, _))
  | .written _ _ => inferInstanceAs (Decidable (∃ t ∈ TcpPipe.handle c.pipe, _))
  | .closed => inferInstanceAs (Decidable (∃ t ∈ TcpPipe.handle c.pipe, _))

end Conn

end HolesailClient

end Holesail
