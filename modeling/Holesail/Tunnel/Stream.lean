import Holesail.Client.Stream
import Holesail.Server.Stream

/-!
# Bytes across a tunnel

A connection of the client and one of the server, with an encrypted stream between them, carry the
bytes of one TCP connection. The stream is taken to be what hyperdht promises: it delivers the bytes
that were accepted, in order, in portions of its own choosing. `uv_close` cancels the writes in
flight, as libuv documents it. Everything else may happen in any order at either end: reads, writes
that complete or fail, back-pressure, a refused write, an ended or destroyed pipe, and the teardown
of the client or of the server.

## Main results

* `socket_to_service`: what the service is handed is a prefix of what the client's socket was read,
  and nothing but what is queued at the server or in the stream is missing while both ends stand.
* `service_to_socket`: the same the other way, in a run that drops nothing before the opening.
* `service_to_socket_sublist`: the other way in any run. Bytes may be missing, but none is
  repeated, altered or out of order.
-/

namespace Holesail

open Run Conduit

/-- The two ends of a tunnel, and what is in the stream. -/
abbrev Tunnel : Type := Link HolesailClient.Conn.Ctx HolesailServer.Conn UInt8

namespace Tunnel

abbrev Event : Type := Link.Event HolesailClient.Conn.Act HolesailServer.Conn.Event

/-- A client has dialled, and the server has accepted. -/
def dialled (handle : ℕ) (proxy : UdpProxy) (uv : Uv) : Tunnel where
  near := HolesailClient.Conn.dialled handle proxy
  far := HolesailServer.Conn.connectionCb false uv

def step : Tunnel → Event → Tunnel :=
  Link.step HolesailClient.Conn.gateway HolesailServer.Conn.gateway

/-- The stream delivers what it was handed, in order. -/
def Enabled : Tunnel → Event → Prop :=
  Link.Reliable HolesailClient.Conn.gateway HolesailServer.Conn.gateway
    (fun x d ↦ x.conn.Orderly d) HolesailServer.Conn.Orderly

instance (t : Tunnel) (e : Event) : Decidable (Enabled t e) :=
  inferInstanceAs (Decidable (Link.Reliable _ _ _ _ t e))

/-- Besides, the server drops nothing. -/
def Spares : Tunnel → Event → Prop :=
  Link.Reliable HolesailClient.Conn.gateway HolesailServer.Conn.gateway
    (fun x d ↦ x.conn.Orderly d) HolesailServer.Conn.Spares

instance (t : Tunnel) (e : Event) : Decidable (Spares t e) :=
  inferInstanceAs (Decidable (Link.Reliable _ _ _ _ t e))

/-- The bytes that an event takes from the client's socket. -/
def fromSocket : Tunnel → Event → Bytes := Link.atNear HolesailClient.Conn.gateway.reads

/-- The bytes whose write to the client's socket an event completes. -/
def toSocket : Tunnel → Event → Bytes := Link.atNear HolesailClient.Conn.gateway.writes

/-- The bytes that an event takes from the service. -/
def fromService : Tunnel → Event → Bytes := Link.atFar HolesailServer.Conn.gateway.reads

/-- The bytes whose write to the service an event completes. -/
def toService : Tunnel → Event → Bytes := Link.atFar HolesailServer.Conn.gateway.writes

/-- Bytes on their way in both directions. -/
def exchange : List Event :=
  [.near (.event (.streamOpen {})), .near (.event (.read (.data [1, 2]) {})),
    .far (.connected 0 {}), .far (.read (.data [7, 8]) {}), .far (.streamOpen {}),
    .near (.event (.streamData [7] {})), .near (.event (.streamData [8] {})),
    .near (.event (.written 0 {})), .far (.streamData [1] {}), .far (.written 0),
    .far (.read (.data [9]) {}), .far (.streamData [2] {})]

section Runs

variable (handle : ℕ) (proxy : UdpProxy) (uv : Uv) (es : List Event)

/-- **From the client's socket to the service.** In every run, what the service is handed is a
prefix of what was read from the socket. While both ends stand the rest of it is in the stream or
queued at the server. -/
theorem socket_to_service (henabled : Along step Enabled (dialled handle proxy uv) es) :
    let t := run step (dialled handle proxy uv) es
    Conveys (HolesailClient.Conn.Standing t.near ∧ HolesailServer.Conn.Standing t.far)
      (trace step fromSocket (dialled handle proxy uv) es)
      (trace step toService (dialled handle proxy uv) es)
      (HolesailServer.Conn.underway t.far ++ t.outward) := by
  have hacross := Link.conveys_outward henabled HolesailClient.Conn.carries_reads
    HolesailServer.Conn.carries_received (HolesailClient.Conn.living_dialled handle proxy)
    (HolesailServer.Conn.living_connectionCb uv) rfl
    (HolesailServer.Conn.underway_connectionCb uv) rfl
  rwa [List.append_nil] at hacross

/-- Of two bytes one has been written and the other is queued at the server. -/
theorem socket_to_service_exchange :
    trace step toService (dialled 3 {} {}) exchange = [1] ∧
      trace step fromSocket (dialled 3 {} {}) exchange = [1] ++
        (HolesailServer.Conn.underway (run step (dialled 3 {} {}) exchange).far ++
          (run step (dialled 3 {} {}) exchange).outward) :=
  ⟨by decide +kernel,
    ((socket_to_service 3 {} {} exchange (by decide +kernel)).balance (by decide +kernel)).trans
      (congrArg (· ++ _) (by decide +kernel))⟩

/-- **From the service to the client's socket**, when the server drops nothing. What the socket is
handed is a prefix of what was read from the service. As long as the socket's end stands, and the
server's end has yet to open or has a pipe, the rest of it is queued at the client, in the stream or
withheld at the server. -/
theorem service_to_socket (hspares : Along step Spares (dialled handle proxy uv) es) :
    let t := run step (dialled handle proxy uv) es
    Conveys (t.far.Passing ∧ HolesailClient.Conn.Standing t.near)
      (trace step fromService (dialled handle proxy uv) es)
      (trace step toSocket (dialled handle proxy uv) es)
      (HolesailClient.Conn.underway t.near ++ t.inward ++ t.far.pending) :=
  Link.conveys_inward hspares HolesailServer.Conn.carries_reads
    HolesailClient.Conn.carries_received (HolesailServer.Conn.settled_connectionCb uv)
    (HolesailClient.Conn.living_dialled handle proxy)
    (HolesailServer.Conn.pending_connectionCb uv) rfl rfl

/-- Of three bytes, two of which were withheld, one has been written. -/
theorem service_to_socket_exchange :
    trace step toSocket (dialled 3 {} {}) exchange = [7] ∧
      trace step fromService (dialled 3 {} {}) exchange = [7] ++
        (HolesailClient.Conn.underway (run step (dialled 3 {} {}) exchange).near ++
          (run step (dialled 3 {} {}) exchange).inward ++
          (run step (dialled 3 {} {}) exchange).far.pending) :=
  ⟨by decide +kernel,
    ((service_to_socket 3 {} {} exchange (by decide +kernel)).balance (by decide +kernel)).trans
      (congrArg (· ++ _) (by decide +kernel))⟩

/-- **From the service to the client's socket**, in every run: a subsequence of what was read. -/
theorem service_to_socket_sublist (henabled : Along step Enabled (dialled handle proxy uv) es) :
    (trace step toSocket (dialled handle proxy uv) es).Sublist
      (trace step fromService (dialled handle proxy uv) es) :=
  Link.sublist_inward henabled HolesailServer.Conn.leaks_reads
    HolesailClient.Conn.carries_received (HolesailServer.Conn.settled_connectionCb uv)
    (HolesailClient.Conn.living_dialled handle proxy)
    (HolesailServer.Conn.pending_connectionCb uv) rfl rfl

/-- The flush is refused, and the bytes behind it arrive without those it lost. -/
theorem service_to_socket_sublist_spilled :
    (trace step toSocket (dialled 3 {} {})
        [.near (.event (.streamOpen {})), .far (.connected 0 {}), .far (.read (.data [7]) {}),
          .far (.streamOpen { write := -1 }), .far (.read (.data [8]) {}),
          .near (.event (.streamData [8] {})), .near (.event (.written 0 {}))]).Sublist
      (trace step fromService (dialled 3 {} {})
        [.near (.event (.streamOpen {})), .far (.connected 0 {}), .far (.read (.data [7]) {}),
          .far (.streamOpen { write := -1 }), .far (.read (.data [8]) {}),
          .near (.event (.streamData [8] {})), .near (.event (.written 0 {}))]) :=
  service_to_socket_sublist 3 {} {} _ (by decide +kernel)

end Runs

end Tunnel

end Holesail
