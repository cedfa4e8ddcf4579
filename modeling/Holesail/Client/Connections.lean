import Holesail.Client.Conn
import Holesail.Theory.Run

/-!
# The connections of the client

What a listening `HolesailClient` does about its connections: `conns_`, the UDP proxy they share,
and every callback that the local sockets, libuv and hyperdht can fire, as events of one machine.

Every connection ever made has its record, by its number; those in `conns_` are the ones `held`.
-/

namespace Holesail

namespace HolesailClient

structure Connections where
  conns : ℕ → Conn := fun _ ↦ { connectPending := false, held := false }
  /-- `next_id_`. -/
  nextId : ℕ := 1
  proxy : UdpProxy := {}
  /-- `dht_` is not null. -/
  dht : Bool := true
  destroyed : Bool := false
  /-- How many sockets were accepted: the name of the next one's handle. -/
  accepted : ℕ := 0
  /-- The handles that were closed as soon as they were accepted. -/
  refused : List ℕ := []

namespace Connections

variable (w : Connections)

/-- What the callbacks of connection `i` act on. -/
def ctx (i : ℕ) : Conn.Ctx := ⟨w.conns i, w.proxy⟩

/-- Put it back. -/
def put (i : ℕ) (x : Conn.Ctx) : Connections :=
  { w with conns := Function.update w.conns i x.conn, proxy := x.proxy }

def act (i : ℕ) (f : Conn.Ctx → Conn.Ctx) : Connections := w.put i (f (w.ctx i))

/-- Act on connection `i`, with a result. -/
def call {α : Type} (i : ℕ) (f : Conn.Ctx → α × Conn.Ctx) : α × Connections :=
  ((f (w.ctx i)).1, w.put i (f (w.ctx i)).2)

/-- Make the next connection. -/
def push (c : Conn) : Connections :=
  { w with conns := Function.update w.conns w.nextId c, nextId := w.nextId + 1 }

@[simp] theorem conns_put_self (i : ℕ) (x : Conn.Ctx) : (w.put i x).conns i = x.conn :=
  Function.update_self ..

theorem conns_put_of_ne {i j : ℕ} (hne : j ≠ i) (x : Conn.Ctx) :
    (w.put i x).conns j = w.conns j := Function.update_of_ne hne ..

@[simp] theorem conns_push_self (c : Conn) : (w.push c).conns w.nextId = c :=
  Function.update_self ..

theorem conns_push_of_ne {j : ℕ} (hne : j ≠ w.nextId) (c : Conn) :
    (w.push c).conns j = w.conns j := Function.update_of_ne hne ..

/-- `on_local_connection`, for the next accepted socket. -/
def onLocalConnection (a : Answers) : Connections :=
  let accepted : UvTcp := { id := w.accepted }
  if w.destroyed = true ∨ w.dht = false then
    { w with accepted := w.accepted + 1, refused := w.refused ++ [accepted.id] }
  else
    let w' := { w with accepted := w.accepted + 1 }.push { tcp := some accepted }
    (w'.call w.nextId (Conn.Ctx.beginDhtConnect a)).2

def openUdpStream (a : Answers) (clientId : Bytes) : Option ℕ × Connections :=
  if w.destroyed = true ∨ w.dht = false then (none, w)
  else
    let w' := w.push { udp := true, clientId := clientId }
    let (dialling, w') := w'.call w.nextId (Conn.Ctx.beginDhtConnect a)
    if dialling then (some w.nextId, w') else (none, w')

/-- The `StreamSide` that `make_side` makes for connection `i`. -/
def makeSide (a : Answers) (i : ℕ) : StreamSide Connections :=
  let side := Conn.Ctx.makeSide (Conn.Ctx.streamClose a) a
  { write := fun data onDrain w ↦ w.call i (side.write data onDrain)
    pause := fun w ↦ w.act i side.pause
    resume := fun w ↦ w.act i side.resume
    close := fun w ↦ w.act i side.close }

/-- The UDP proxy's place in the client. -/
def proxyHost (a : Answers) : UdpProxy.Host Connections where
  proxy := fun w ↦ w.proxy
  setProxy := fun p w ↦ { w with proxy := p }
  openStream := fun clientId w ↦ w.openUdpStream a clientId
  stream := makeSide a

/-- `stream_data_cb`, for connection `i`. -/
def streamDataCb (i : ℕ) (data : Bytes) (a : Answers) : Connections :=
  if (w.conns i).held = true ∧ (w.conns i).udp = true then
    UdpProxy.onStreamData (proxyHost a) (w.conns i).clientId i data w
  else w.act i (Conn.Ctx.streamDataCb a data)

/-- The connections in `conns_`, in its order. -/
def live : List ℕ := (List.range w.nextId).filter fun i ↦ (w.conns i).held

/-- `destroy`, as far as the connections go. `answers` says what the world answers for each. -/
def destroy (answers : ℕ → Answers) : Connections :=
  if w.destroyed then w
  else
    let w := { w with destroyed := true, proxy := w.proxy.close }
    w.live.foldl (fun w i ↦
      w.act i (Conn.Ctx.shutdownConn (Conn.Ctx.streamClose (answers i)) (answers i))) w

/-! ## The machine -/

inductive Event where
  /-- A local socket is accepted. -/
  | accept (a : Answers)
  /-- The UDP proxy's socket is read. -/
  | recv (addr : SockAddr) (r : Recv) (a : Answers)
  /-- The connect callback. -/
  | connected (i : ℕ) (error : ℤ) (found : Bool) (a : Answers)
  | conn (i : ℕ) (e : Conn.Event)
  | destroy (answers : ℕ → Answers)

def step (w : Connections) : Event → Connections
  | .accept a => w.onLocalConnection a
  | .recv addr r a => UdpProxy.recvCb (proxyHost a) addr r w
  | .connected i error found a => w.act i (Conn.Ctx.connectCb w.destroyed error found a)
  | .conn i (.streamData data a) => w.streamDataCb i data a
  | .conn i e => w.act i (Conn.step · e)
  | .destroy answers => w.destroy answers

/-- When libuv and hyperdht can fire an event. -/
def Enabled (w : Connections) : Event → Prop
  | .accept _ => True
  | .recv _ _ _ => ∃ s ∈ w.proxy.sock, s.receiving = true
  | .connected i _ _ _ => (w.conns i).connecting = true
  | .conn i e => (w.conns i).Enabled e
  | .destroy _ => True

instance (w : Connections) : (e : Event) → Decidable (Enabled w e)
  | .accept _ => inferInstanceAs (Decidable True)
  | .recv _ _ _ => inferInstanceAs (Decidable (∃ s ∈ w.proxy.sock, _))
  | .connected _ _ _ _ => inferInstanceAs (Decidable (_ = _))
  | .conn i e => inferInstanceAs (Decidable ((w.conns i).Enabled e))
  | .destroy _ => inferInstanceAs (Decidable True)

/-- A client that has just begun to listen, for sockets and for datagrams. -/
def listening (dht : Bool) : Connections :=
  { dht := dht, proxy := { sock := some { receiving := true } } }

end Connections

end HolesailClient

end Holesail
