import Holesail.Client.Datagrams
import Holesail.Server.Datagrams

/-!
# Datagrams across a tunnel

Either end of a UDP tunnel takes datagrams from its side and hands them to its stream, and the other
end decodes what the stream delivers, in whatever chunks. Both ends are gates of frames, so the same
holds of both: nothing is modified or reordered, and nothing is lost but what came before the
opening and found no room.
-/

namespace Holesail

open Run

/-- The largest payload of a UDP datagram. -/
def maxPayload : ℕ := 65507

theorem maxPayload_le_kMaxDatagram : maxPayload ≤ kMaxDatagram := by decide

section Ends

open HolesailClient.Connections in
/-- **What a client hands to a stream** reaches the server as it was. -/
theorem client_datagrams_cross (dht : Bool) (es : List Event) (i : ℕ)
    (henabled : Along step Enabled (listening dht) es)
    (hudp : ((run step (listening dht) es).conns i).udp = true)
    (haccepted : ((run step (listening dht) es).conns i).Accepted)
    (hsize : ∀ d ∈ trace step (received i) (listening dht) es, d.length ≤ maxPayload) :
    Crosses (trace step (received i) (listening dht) es)
      (trace step (forwarded i) (listening dht) es)
      ((run step (listening dht) es).conns i).streamOpen
      ((run step (listening dht) es).conns i).pending
      (written ((run step (listening dht) es).conns i).calls) := by
  have hfits := carried_run dht henabled i (Or.inl hudp) haccepted
  exact hfits.framed.crosses fun d hd ↦ (hsize d hd).trans maxPayload_le_kMaxDatagram

open HolesailServer.Conn in
/-- **What a server hands to a stream** reaches the client as it was. -/
theorem server_datagrams_cross (uv : Uv) (es : List Event)
    (henabled : Along step Enabled (connectionCb true uv) es)
    (haccepted : (run step (connectionCb true uv) es).Accepted)
    (hsize : ∀ d ∈ es.flatMap received, d.length ≤ maxPayload) :
    Crosses (es.flatMap received) (trace step forwarded (connectionCb true uv) es)
      (run step (connectionCb true uv) es).streamOpen
      (run step (connectionCb true uv) es).pending
      (written (run step (connectionCb true uv) es).calls) := by
  have hframed := (carried_run uv henabled).framed haccepted
  exact hframed.crosses fun d hd ↦ (hsize d hd).trans maxPayload_le_kMaxDatagram

end Ends

/-- **UDP datagrams cross a stream unmodified**, from either end: as long as hyperdht accepts the
writes, what the other end decodes, from whatever chunks, is what was received, in order, but for
the datagrams that came before the opening and found no room. -/
theorem datagrams_cross :
    (∀ (dht : Bool) (es : List HolesailClient.Connections.Event) (i : ℕ),
      let w₀ := HolesailClient.Connections.listening dht
      let w := run HolesailClient.Connections.step w₀ es
      let received := trace HolesailClient.Connections.step
        (HolesailClient.Connections.received i) w₀ es
      let forwarded := trace HolesailClient.Connections.step
        (HolesailClient.Connections.forwarded i) w₀ es
      Along HolesailClient.Connections.step HolesailClient.Connections.Enabled w₀ es →
      (w.conns i).udp = true → (w.conns i).Accepted →
      (∀ d ∈ received, d.length ≤ maxPayload) →
      Crosses received forwarded (w.conns i).streamOpen (w.conns i).pending
        (written (w.conns i).calls)) ∧
    ∀ (uv : Uv) (es : List HolesailServer.Conn.Event),
      let c₀ := HolesailServer.Conn.connectionCb true uv
      let c := run HolesailServer.Conn.step c₀ es
      let received := es.flatMap HolesailServer.Conn.received
      let forwarded := trace HolesailServer.Conn.step HolesailServer.Conn.forwarded c₀ es
      Along HolesailServer.Conn.step HolesailServer.Conn.Enabled c₀ es → c.Accepted →
      (∀ d ∈ received, d.length ≤ maxPayload) →
      Crosses received forwarded c.streamOpen c.pending (written c.calls) := by
  constructor
  · intro dht es i
    exact client_datagrams_cross dht es i
  · intro uv es
    exact server_datagrams_cross uv es

/-- A datagram before the connect callback, an empty one before the opening, and one after it. -/
def clientDatagrams : List HolesailClient.Connections.Event :=
  let addr : SockAddr := ⟨(127, 0, 0, 1), 5353⟩
  [.recv addr (.datagram [1, 2]) {}, .connected 1 0 true {}, .recv addr (.datagram []) {},
    .conn 1 (.streamOpen {}), .recv addr (.datagram [3]) {}]

/-- The same on the server's side. -/
def serverDatagrams : List HolesailServer.Conn.Event :=
  [.recv (.datagram [1, 2]) {}, .recv (.datagram []) {}, .streamOpen {},
    .recv (.datagram [3]) {}]

/-- All three cross, as they were. -/
theorem datagrams_cross_at :
    Crosses [[1, 2], [], [3]] [[1, 2], [], [3]] true []
        (frame [1, 2] ++ frame [] ++ frame [3]) ∧
      Crosses [[1, 2], [], [3]] [[1, 2], [], [3]] true []
        (frame [1, 2] ++ frame [] ++ frame [3]) := by
  constructor
  · have h := datagrams_cross.1 true clientDatagrams 1 (by decide +kernel) (by decide +kernel)
      (by decide +kernel) (by decide +kernel)
    exact h
  · have h := datagrams_cross.2 {} serverDatagrams (by decide +kernel) (by decide +kernel)
      (by decide +kernel)
    exact h

end Holesail
