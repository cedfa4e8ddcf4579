import Holesail.Server.Lifecycle
import Holesail.Server.Lifetime

/-!
# The connections of the server

What a `HolesailServer` does about its connections: `conns_`, which finds a `Conn` by the address of
the stream it was made for, `connection_cb`, and the part of `destroy` that tears the pipes down.
The server's own life and that of each connection are events of the same machine.

Every connection ever made has its record, by its number. `conns_` holds weak pointers: an entry
expires when its `Conn` is released. hyperdht frees a stream once its close callback has returned,
and from then on may hand out the address again.
-/

namespace Holesail

namespace HolesailServer

/-- The server's own teardown. -/
def Conn.Event.isDestroy : Conn.Event → Bool
  | .destroy => true
  | _ => false

/-- A server and its connections. -/
structure Connections where
  server : HolesailServer
  conns : ℕ → Conn := fun _ ↦ {}
  /-- How many connections were made: the number of the next one. -/
  made : ℕ := 0
  /-- The address of the stream that each connection was made for. -/
  address : ℕ → ℕ := fun _ ↦ 0
  /-- `conns_`: addresses of streams, and the connections they are mapped to. -/
  table : List (ℕ × ℕ) := []

namespace Connections

variable (w : Connections)

def act (i : ℕ) (f : Conn → Conn) : Connections :=
  { w with conns := Function.update w.conns i (f (w.conns i)) }

/-- `std::erase_if` on `conns_`: forget what has expired. -/
def prune : Connections := { w with table := w.table.filter fun e ↦ ¬(w.conns e.2).Released }

/-- Make a connection for the stream at `p`, and map `p` to it. -/
def push (p : ℕ) (c : Conn) : Connections :=
  { w with
    conns := Function.update w.conns w.made c
    made := w.made + 1
    address := Function.update w.address w.made p
    table := (p, w.made) :: w.table.filter fun e ↦ e.1 ≠ p }

/-- `connection_cb`. `opened` is the stream that `hyperdht_stream_open` returns, if not null. -/
def connectionCb (opened : Option ℕ) (uv : Uv) : Connections :=
  if w.server.srv = false then w
  else
    let w := w.prune
    match opened with
    | none => w
    | some p => w.push p (Conn.connectionCb w.server.config.udp uv)

/-- Lock one entry of `conns_`, and destroy its pipe. -/
def shut (e : ℕ × ℕ) : Connections := w.act e.2 (Conn.live · .destroy)

def destroy : Connections :=
  let w := w.table.foldl shut w
  { w with table := [], server := w.server.destroy }

/-! ## The machine -/

inductive Event where
  /-- A connection comes in. -/
  | accept (opened : Option ℕ) (uv : Uv)
  | conn (i : ℕ) (e : Conn.Event)
  | server (e : HolesailServer.Event)

def step : Event → Connections
  | .accept opened uv => w.connectionCb opened uv
  | .conn i e => w.act i (Conn.live · e)
  | .server .destroy => w.destroy
  | .server e => { w with server := w.server.step e }

/-- When libuv and hyperdht can fire an event. The address of a stream that is still there is not
handed out again, and no one but the server tears a connection down. -/
def Enabled : Event → Prop
  | .accept opened _ => ∀ p ∈ opened, ∀ i < w.made, (w.conns i).stream = true → w.address i ≠ p
  | .conn i e => (w.conns i).Enabled e ∧ e.isDestroy = false
  | .server _ => True

instance (w : Connections) : (e : Event) → Decidable (Enabled w e)
  | .accept (some p) _ =>
    decidable_of_iff (∀ i < w.made, (w.conns i).stream = true → w.address i ≠ p)
      ⟨fun h _ hq ↦ Option.some.inj hq ▸ h, fun h ↦ h p rfl⟩
  | .accept none _ => isTrue fun _ hp ↦ absurd hp (Option.not_mem_none _)
  | .conn i e => inferInstanceAs (Decidable ((w.conns i).Enabled e ∧ e.isDestroy = false))
  | .server _ => isTrue trivial

/-- A server that has no connections yet. -/
def idle (s : HolesailServer) : Connections := { server := s }

@[simp] theorem conns_act_self (i : ℕ) (f : Conn → Conn) : (w.act i f).conns i = f (w.conns i) :=
  Function.update_self ..

theorem conns_act_of_ne {i j : ℕ} (hne : j ≠ i) (f : Conn → Conn) :
    (w.act i f).conns j = w.conns j := Function.update_of_ne hne ..

@[simp] theorem conns_push_self (p : ℕ) (c : Conn) : (w.push p c).conns w.made = c :=
  Function.update_self ..

theorem conns_push_of_ne {j : ℕ} (hne : j ≠ w.made) (p : ℕ) (c : Conn) :
    (w.push p c).conns j = w.conns j := Function.update_of_ne hne ..

@[simp] theorem address_push_self (p : ℕ) (c : Conn) : (w.push p c).address w.made = p :=
  Function.update_self ..

theorem address_push_of_ne {j : ℕ} (hne : j ≠ w.made) (p : ℕ) (c : Conn) :
    (w.push p c).address j = w.address j := Function.update_of_ne hne ..

end Connections

end HolesailServer

end Holesail
