import Holesail.Client.HolesailClient
import Holesail.Server.HolesailServer

/-!
# The record carries the endpoint

The server publishes where its local service listens; a client that is told nothing else mirrors
that on its side. The two never meet but through the bytes of one record.
-/

namespace Holesail

theorem encodeRecord_ne_nil (host : Bytes) (udp : Option Bool) (port : UInt16) :
    encodeRecord host udp port ≠ [] := by
  intro h
  unfold encodeRecord at h
  exact absurd (List.append_eq_nil_iff.mp h).2 (by decide)

namespace HolesailServer

/-- What a server that has started puts on the DHT, whatever the read before it found. -/
theorem getLast_calls_getDoneCb {s : HolesailServer} {env : StartEnv} (h : (s.start env).1 = 0)
    (ctx : GetCtx) :
    ∃ seq, ((s.start env).2.getDoneCb ctx).calls.getLast?
      = some (.mutablePut s.config.record seq) := by
  refine ⟨nextSeq ctx.had ctx.seq (ctx.value = (s.start env).2.record), ?_⟩
  rw [← record_start h, getDoneCb, List.getLast?_concat]

end HolesailServer

namespace HolesailClient

theorem record_mutableCb {c : HolesailClient} {seq : UInt64} {value : Bytes} {r : Record}
    (hlive : c.destroyed = false) (hnewer : c.record.isSome → c.recordSeq < seq)
    (hne : value ≠ []) (hdecode : decodeRecord value = some r) :
    c.mutableCb seq (some value) = { c with record := some r, recordSeq := seq } := by
  have hold : ¬(c.record.isSome ∧ seq ≤ c.recordSeq) :=
    fun h ↦ absurd h.2 (UInt64.not_le.mpr (hnewer h.1))
  rw [mutableCb]
  simp only [hlive, hne, Bool.false_eq_true, or_self, if_false, if_neg hold, hdecode]

theorem resolved_mutableDoneCb {c : HolesailClient} (hlive : c.destroyed = false) (listen : ℤ) :
    (c.mutableDoneCb listen).resolved = resolve c.config c.record := by
  simp only [mutableDoneCb, hlive, Bool.false_eq_true, if_false, startProxy]
  split_ifs <;> rfl

end HolesailClient

/-- **The record carries the endpoint exactly.** Every host, transport and port other than 0
survives the record; and a client without overrides that takes up what a started server with a
host and a port puts on the DHT resolves to exactly that server's host, port and transport. -/
theorem record_carries_endpoint :
    (∀ (host : Bytes) (udp : Option Bool) (port : UInt16), 1 ≤ port.toNat →
      decodeRecord (encodeRecord host udp port) = some ⟨host, udp, some port⟩) ∧
    ∀ (s : HolesailServer) (env : HolesailServer.StartEnv) (ctx : HolesailServer.GetCtx)
      (value : Bytes) (seq : UInt64) (c : HolesailClient) (listen : ℤ),
      s.config.localHost ≠ [] → 1 ≤ s.config.localPort.toNat → (s.start env).1 = 0 →
      ((s.start env).2.getDoneCb ctx).calls.getLast? = some (.mutablePut value seq) →
      c.config.localPort = none → c.config.localHost = none → c.config.udp = none →
      c.destroyed = false → (c.record.isSome → c.recordSeq < seq) →
      ((c.mutableCb seq (some value)).mutableDoneCb listen).resolved
        = ⟨s.config.localPort, s.config.localHost, s.config.udp⟩ := by
  refine ⟨fun host udp port hport ↦ decodeRecord_encodeRecord host udp hport, ?_⟩
  intro s env ctx value seq c listen hhost hport hstart hput hcport hchost hcudp hlive hnewer
  obtain ⟨seq', hlast⟩ := HolesailServer.getLast_calls_getDoneCb hstart ctx
  have hvalue : value = s.config.record := by
    have := Option.some.inj (hput.symm.trans hlast)
    exact (HolesailServer.DhtCall.mutablePut.inj this).1
  have hdecode : decodeRecord value = some ⟨s.config.localHost,
      if s.config.udp then some true else none, some s.config.localPort⟩ := by
    rw [hvalue, HolesailServer.Config.record, decodeRecord_encodeRecord _ _ hport]
  have hne : value ≠ [] := by
    rw [hvalue]
    exact encodeRecord_ne_nil _ _ _
  have htaken := HolesailClient.record_mutableCb hlive hnewer hne hdecode
  have hlive' : (c.mutableCb seq (some value)).destroyed = false := by rw [htaken]; exact hlive
  rw [HolesailClient.resolved_mutableDoneCb hlive', htaken,
    HolesailClient.resolve_of_record hcport hchost hcudp hhost]
  cases s.config.udp <;> rfl

/-- A UDP server on a quoted host, and a client that has heard nothing yet. -/
theorem record_carries_endpoint_at :
    let c := HolesailClient.new vectorCrypto true { key := vectorKey, secure := true }
    ((c.mutableCb 0 (some (encodeRecord (ascii "\"") (some true) 53))).mutableDoneCb 0).resolved
      = ⟨53, ascii "\"", true⟩ := by
  intro c
  let s := HolesailServer.ofSeed vectorCrypto true
    { localPort := 53, localHost := ascii "\"", udp := true } vectorSeed
  exact record_carries_endpoint.2 s {} {} _ 0 c 0 (by decide) (by decide) rfl rfl rfl rfl rfl rfl
    (fun h ↦ absurd h (by decide))

end Holesail
