import Holesail.Client.Isolation

/-!
# What the UDP proxy sends to the local side

The proxy sends a datagram only when bytes arrive on the stream of a connection that carries
datagrams: those that the bytes complete, to the address of the entry they were fed to. As long as
the streams of one address are kept apart, that entry is the stream's own; so what is sent because
of one stream is what its own bytes decode to, to the address it was opened for.

## Main results

* `mem_sent`: whatever was sent was sent on behalf of a stream.
* `replied_run`: what is sent on behalf of one stream.
-/

namespace Holesail

namespace HolesailClient

namespace Conn.Ctx

/-! ## Callbacks that leave the proxy's socket alone -/

/-- The proxy's socket was left alone, and nothing was sent over it. -/
structure Mute (x y : Ctx) : Prop where
  sock : y.proxy.sock = x.proxy.sock
  sent : y.proxy.sent = x.proxy.sent

theorem mute_refl (x : Ctx) : Mute x x := ⟨rfl, rfl⟩

theorem Mute.trans {x y z : Ctx} (h : Mute x y) (h' : Mute y z) : Mute x z :=
  ⟨h'.sock.trans h.sock, h'.sent.trans h.sent⟩

/-- **No event of a connection alone** sends anything. -/
theorem allows_mute : AllowsAll Mute where
  refl := mute_refl
  trans := Mute.trans
  own := fun _ _ _ _ _ _ _ _ ↦ ⟨rfl, rfl⟩
  dropClient := by
    intro x
    unfold dropClient
    split_ifs <;> exact ⟨rfl, rfl⟩
  pause := fun _ ↦ ⟨rfl, rfl⟩
  resume := fun _ ↦ ⟨rfl, rfl⟩
  closeLater := fun _ ↦ ⟨rfl, rfl⟩
  life := fun _ _ _ _ _ _ _ ↦ ⟨rfl, rfl⟩
  log := fun _ _ _ _ _ ↦ ⟨rfl, rfl⟩

end Conn.Ctx

namespace Connections

open Run Conn

variable {w w' w'' : Connections}

/-! ## Events that send nothing -/

/-- The proxy's socket was left alone, and nothing was sent over it. -/
structure Hushed (w w' : Connections) : Prop where
  destroyed : w'.destroyed = w.destroyed
  sock : w'.proxy.sock = w.proxy.sock
  sent : w'.proxy.sent = w.proxy.sent

theorem hushed_refl (w : Connections) : Hushed w w := ⟨rfl, rfl, rfl⟩

theorem Hushed.trans (h : Hushed w w') (h' : Hushed w' w'') : Hushed w w'' :=
  ⟨h'.destroyed.trans h.destroyed, h'.sock.trans h.sock, h'.sent.trans h.sent⟩

theorem hushed_put {i : ℕ} {y : Ctx} (h : Ctx.Mute (w.ctx i) y) : Hushed w (w.put i y) :=
  ⟨rfl, h.sock, h.sent⟩

theorem hushed_dial (c : Conn) (a : Answers) : Hushed w (w.dial c a).2 := by
  have hmute := Ctx.allows_mute.beginDhtConnect a ⟨c, w.proxy⟩
  rw [← ctx_dial] at hmute
  exact ⟨rfl, hmute.sock, hmute.sent⟩

theorem hushed_erase (key : Bytes) (w : Connections) :
    Hushed w { w with proxy := w.proxy.erase key } := ⟨rfl, rfl, rfl⟩

theorem hushed_close (a : Answers) (i : ℕ) (w : Connections) :
    Hushed w ((makeSide a i).close w) :=
  hushed_put (Ctx.allows_mute.close (Ctx.allows_mute.streamClose a) a (w.ctx i))

theorem hushed_clientFor (addr : SockAddr) (a : Answers) :
    Hushed w (UdpProxy.clientFor (proxyHost a) addr w).2 := by
  rcases clientFor_cases w addr a with ⟨c, -, heq⟩ | heq | ⟨-, -, ⟨-, heq⟩ | ⟨-, heq⟩⟩
  · rw [heq]
    exact hushed_refl w
  · rw [heq]
    exact hushed_refl w
  · rw [heq]
    exact hushed_dial _ a
  · rw [heq]
    exact (hushed_dial _ a).trans ⟨rfl, rfl, rfl⟩

theorem hushed_recv (addr : SockAddr) (r : Recv) (a : Answers) :
    Hushed w (w.step (.recv addr r a)) := by
  cases r with
  | datagram data =>
    have hfound := hushed_clientFor (w := w) addr a
    change Hushed w (UdpProxy.recvCb (proxyHost a) addr (.datagram data) w)
    rcases hclient : UdpProxy.clientFor (proxyHost a) addr w with ⟨_ | c, w₁⟩
    · rw [hclient] at hfound
      rw [UdpProxy.recvCb_of_none hclient]
      exact hfound
    · rw [hclient] at hfound
      have hwritten : Hushed w ((makeSide a c.stream).write (frame data) none w₁).2 :=
        hfound.trans (hushed_put (Ctx.allows_mute.write _ a _ none _))
      rw [UdpProxy.recvCb_of_some hclient]
      split_ifs
      · exact hwritten.trans ((hushed_erase (clientKey addr) _).trans (hushed_close a c.stream _))
      · exact hwritten
  | _ => exact hushed_refl w

/-- The bytes of a stream that reach a decoder, if they come from connection `i`. -/
def pushes (i : ℕ) : Event → List Bytes
  | .conn j (.streamData data _) => if j = i ∧ data ≠ [] then [data] else []
  | _ => []

/-- What an event sends to the local side on behalf of connection `i`. -/
def replies (i : ℕ) (w : Connections) : Event → List (SockAddr × Bytes)
  | .conn j e => if j = i then (w.step (.conn j e)).proxy.sent.drop w.proxy.sent.length else []
  | _ => []

/-- The connection's bytes go to the decoders of the proxy. -/
def Routed (w : Connections) : Event → Prop
  | .conn i (.streamData _ _) => (w.conns i).held = true ∧ (w.conns i).udp = true
  | _ => False

/-- **Nothing but the bytes of such a stream** sends anything. -/
theorem hushed_step {e : Event} (hrouted : ¬w.Routed e)
    (hdestroy : ∀ answers, e ≠ .destroy answers) : Hushed w (w.step e) := by
  cases e with
  | accept a =>
    rcases onLocalConnection_cases w a with heq | ⟨-, heq⟩
    · rw [heq]
      exact ⟨rfl, rfl, rfl⟩
    · rw [heq]
      have hcounted : Hushed w { w with accepted := w.accepted + 1 } := ⟨rfl, rfl, rfl⟩
      exact hcounted.trans (hushed_dial _ a)
  | recv addr r a => exact hushed_recv addr r a
  | connected i error found a =>
    exact hushed_put (Ctx.allows_mute.connectCb w.destroyed error found a (w.ctx i))
  | conn i e =>
    have hstep := hushed_put (Ctx.allows_mute.step (w.ctx i) e)
    cases e with
    | streamData data a =>
      change Hushed w (w.streamDataCb i data a)
      unfold streamDataCb
      split_ifs with hroute
      · exact absurd hroute hrouted
      · exact hstep
    | _ => exact hstep
  | destroy answers => exact absurd rfl (hdestroy answers)

/-- What is left of the proxy's socket says whether the client was destroyed. -/
def Bound (w : Connections) : Prop := w.destroyed = false → w.proxy.sock ≠ none

theorem Hushed.bound (h : Hushed w w') (hbound : Bound w) : Bound w' := by
  rw [Bound, h.destroyed, h.sock]
  exact hbound

/-! ## The bytes of a stream -/

section Fed

variable {key : Bytes} {c : UdpProxy.Client} {i : ℕ} {data : Bytes}

/-- The proxy, when the entry `c` was fed. -/
def fedProxy (w : Connections) (key : Bytes) (c : UdpProxy.Client) (i : ℕ) (data : Bytes) :
    UdpProxy :=
  { w.proxy.emplace key
      { c with decoder := (c.decoder.push data).decoder, sources := c.sources ++ [i] } with
    sent := w.proxy.sent ++ (c.decoder.push data).frames.map fun d ↦ (c.addr, d) }

/-- **An entry is fed**: what its bytes complete is sent to its address, and if they are no frames
it is given up. -/
theorem onStreamData_of_some (hsock : w.proxy.sock ≠ none) (hdata : data ≠ [])
    (hc : w.proxy.clients key = some c) (a : Answers) :
    UdpProxy.onStreamData (proxyHost a) key i data w =
      if (c.decoder.push data).ok then { w with proxy := w.fedProxy key c i data }
      else (makeSide a c.stream).close { w with proxy := (w.fedProxy key c i data).erase key } := by
  have hguard : ¬((proxyHost a).proxy w).sock = none ∧ ¬data = [] := ⟨hsock, hdata⟩
  unfold UdpProxy.onStreamData
  rw [if_neg (not_or.mpr hguard)]
  split
  · next hnone => exact absurd (hc.symm.trans hnone) (Option.some_ne_none c)
  · next c' hc' =>
    obtain rfl := Option.some.inj (hc.symm.trans hc')
    rfl

theorem onStreamData_of_none (hnone : w.proxy.clients key = none) (a : Answers) :
    UdpProxy.onStreamData (proxyHost a) key i data w = w := by
  unfold UdpProxy.onStreamData
  split_ifs
  · rfl
  · split
    · rfl
    · next c hc => exact absurd (hc.symm.trans hnone) (Option.some_ne_none c)

theorem onStreamData_nil (a : Answers) :
    UdpProxy.onStreamData (proxyHost a) key i [] w = w := if_pos (Or.inr rfl)

end Fed

/-! ## What is sent on behalf of one stream -/

open FrameDecoder (pushAll)

/-- After the bytes `ds` of stream `i`, of which `out` was sent: it goes to the address that the
stream was opened for, and nothing is missing while that has its entry. -/
structure Replied (i : ℕ) (ds : List Bytes) (out : List (SockAddr × Bytes)) (w : Connections) :
    Prop where
  unborn : w.nextId ≤ i → ds = [] ∧ out = []
  ordered : (w.conns i).udp = true → ∀ addr, clientKey addr = (w.conns i).clientId →
    out <+: (pushAll ds).frames.map (addr, ·)
  entry : ∀ key c, w.proxy.clients key = some c → c.stream = i → clientKey c.addr = key ∧
    c.decoder = (pushAll ds).decoder ∧ out = (pushAll ds).frames.map (c.addr, ·)

/-- From `w` to `w'` stream `i` is fed nothing. -/
structure Unfed (i : ℕ) (w w' : Connections) : Prop extends Grows w w' where
  /-- Its entry was there, or is new, and so is the stream. -/
  entry : ∀ key c, w'.proxy.clients key = some c → c.stream = i →
    w.proxy.clients key = some c ∨ w.nextId ≤ i ∧ clientKey c.addr = key ∧ c.decoder = {}

section Unfed

variable {i j : ℕ} {ds : List Bytes} {out : List (SockAddr × Bytes)}

theorem Unfed.trans (h : Unfed i w w') (h' : Unfed i w' w'') : Unfed i w w'' := by
  refine ⟨h.toGrows.trans h'.toGrows, fun key c hc hi ↦ ?_⟩
  rcases h'.entry key c hc hi with hold | ⟨hle, hnew⟩
  · exact h.entry key c hold hi
  · exact Or.inr ⟨h.nextId.trans hle, hnew⟩

theorem Replied.unfed (h : Replied i ds out w) (hunfed : Unfed i w w') : Replied i ds out w' := by
  refine ⟨fun hle ↦ h.unborn (hunfed.nextId.trans hle), fun hudp addr haddr ↦ ?_,
    fun key c hc hi ↦ ?_⟩
  · rcases Nat.lt_or_ge i w.nextId with hlt | hge
    · obtain ⟨hsame, hid⟩ := hunfed.conn i hlt
      exact h.ordered (hsame.symm.trans hudp) addr (haddr.trans hid)
    · rw [(h.unborn hge).2]
      exact List.nil_prefix
  · rcases hunfed.entry key c hc hi with hold | ⟨hle, hkey, hfresh⟩
    · exact h.entry key c hold hi
    · obtain ⟨rfl, rfl⟩ := h.unborn hle
      exact ⟨hkey, hfresh, rfl⟩

theorem unfed_of_clients (hnext : w'.nextId = w.nextId) (hconns : w'.conns = w.conns)
    (hclients : ∀ key c, w'.proxy.clients key = some c → c.stream = i →
      w.proxy.clients key = some c) : Unfed i w w' :=
  ⟨grows_of_conns hnext hconns, fun key c hc hi ↦ Or.inl (hclients key c hc hi)⟩

theorem unfed_put {y : Ctx} (hmoves : w.Moves j y) : Unfed i w (w.put j y) :=
  ⟨hmoves.grows, fun _ _ hc _ ↦ Or.inl (hmoves.clients_of_some hc)⟩

theorem unfed_born (hborn : Born w w') (hentry : ∀ key c, w'.proxy.clients key = some c →
    w.proxy.clients key = some c ∨
      c.stream = w.nextId ∧ clientKey c.addr = key ∧ c.decoder = {}) : Unfed i w w' := by
  refine ⟨hborn.grows, fun key c hc hi ↦ ?_⟩
  rcases hentry key c hc with hold | ⟨hstream, hnew⟩
  · exact Or.inl hold
  · exact Or.inr ⟨Nat.le_of_eq (hstream.symm.trans hi), hnew⟩

theorem unfed_clientFor (addr : SockAddr) (a : Answers) :
    Unfed i w (UdpProxy.clientFor (proxyHost a) addr w).2 := by
  have hrefl : Unfed i w w := unfed_of_clients rfl rfl fun _ _ hc _ ↦ hc
  rcases clientFor_cases w addr a with ⟨c, -, heq⟩ | heq |
    ⟨hnone, hdestroyed, ⟨hconnect, heq⟩ | ⟨hconnect, heq⟩⟩
  · rw [heq]
    exact hrefl
  · rw [heq]
    exact hrefl
  · obtain ⟨-, hclients⟩ := dial_udp_failed hnone hconnect
    rw [heq]
    refine unfed_born (born_dial hdestroyed _ a) fun key c hc ↦ Or.inl ?_
    rw [hclients] at hc
    exact hc
  · obtain ⟨hborn, -, hclients⟩ :=
      born_enrol hdestroyed (clientKey addr) hconnect { stream := w.nextId, addr := addr }
    rw [heq]
    refine unfed_born hborn fun key c hc ↦ ?_
    rw [hclients] at hc
    rcases eq_or_ne key (clientKey addr) with rfl | hne
    · rw [Function.update_self] at hc
      obtain rfl := Option.some.inj hc
      exact Or.inr ⟨rfl, rfl, rfl⟩
    · rw [Function.update_of_ne hne] at hc
      exact Or.inl hc

end Unfed

section Step

variable {n : ℕ → ℕ} {k i : ℕ} {ds : List Bytes} {out : List (SockAddr × Bytes)}

theorem unfed_step (h : Entered w) (hs : Settled n k w) {e : Event} (henabled : w.Enabled e)
    (hrouted : ¬w.Routed e) : Unfed i w (w.step e) := by
  cases e with
  | accept a =>
    refine ⟨grows_step h hs henabled, fun key c hc _ ↦ Or.inl ?_⟩
    rw [clients_accept] at hc
    exact hc
  | recv addr r a =>
    cases r with
    | datagram data =>
      have hfound := unfed_clientFor (w := w) (i := i) addr a
      rcases h.recvCb_cases hs addr data a with ⟨-, heq⟩ | ⟨c, y, -, -, heq, hmoves, -⟩
      · rw [heq]
        exact hfound
      · rw [heq]
        exact hfound.trans (unfed_put hmoves)
    | _ => exact unfed_of_clients rfl rfl fun _ _ hc _ ↦ hc
  | connected j error found a => exact unfed_put (moves_connectCb hs henabled).2
  | conn j e =>
    have hstep := unfed_put (i := i) (moves_step hs henabled).2
    cases e with
    | streamData data a =>
      change Unfed i w (w.streamDataCb j data a)
      unfold streamDataCb
      split_ifs with hroute
      · exact absurd hroute hrouted
      · exact hstep
    | _ => exact hstep
  | destroy answers =>
    refine ⟨grows_destroy answers, fun key c hc _ ↦ ?_⟩
    change (w.destroy answers).proxy.clients key = some c at hc
    cases hdestroyed : w.destroyed with
    | true =>
      rw [destroy, if_pos hdestroyed] at hc
      exact Or.inl hc
    | false =>
      obtain ⟨-, -, hclients, -⟩ := shut_destroy hdestroyed answers
      exact absurd (hc.symm.trans (hclients key rfl)) (Option.some_ne_none c)

theorem Entered.key_eq (h : Entered w) {key : Bytes} {c : UdpProxy.Client}
    (hc : w.proxy.clients key = some c) (hi : c.stream = i) : key = (w.conns i).clientId := by
  obtain ⟨-, hserves, -⟩ := h.entry key c hc
  rw [← hserves.clientId, hi]

/-- What a push completed is sent, whether or not the entry survives it. -/
theorem sent_onStreamData {key : Bytes} {c : UdpProxy.Client} {data : Bytes}
    (hsock : w.proxy.sock ≠ none) (hdata : data ≠ []) (hc : w.proxy.clients key = some c)
    (a : Answers) :
    (UdpProxy.onStreamData (proxyHost a) key i data w).proxy.sent
      = w.proxy.sent ++ (c.decoder.push data).frames.map (c.addr, ·) := by
  rw [onStreamData_of_some hsock hdata hc]
  split_ifs
  · rfl
  · exact (hushed_close a c.stream _).sent

theorem clients_close_of_none {key : Bytes} (hnone : w.proxy.clients key = none) (a : Answers) :
    ((makeSide a i).close w).proxy.clients key = none := by
  have hframe := Ctx.allows_frame.close (Ctx.allows_frame.streamClose a) a (w.ctx i)
  change ((Ctx.makeSide (Ctx.streamClose a) a).close (w.ctx i)).proxy.clients key = none
  rcases hframe.clients with hsame | ⟨-, hsame⟩
  · rw [hsame]
    exact hnone
  · rw [hsame, Function.update_apply]
    exact ite_eq_left_iff.mpr fun _ ↦ hnone

theorem replied_of_all {addr : SockAddr} (hborn : ¬w.nextId ≤ i)
    (hkey : clientKey addr = (w.conns i).clientId)
    (hall : out = (pushAll ds).frames.map (addr, ·))
    (hentry : ∀ key c, w.proxy.clients key = some c → c.stream = i →
      c.addr = addr ∧ key = (w.conns i).clientId ∧ c.decoder = (pushAll ds).decoder) :
    Replied i ds out w := by
  refine ⟨fun hle ↦ absurd hle hborn, fun _ addr' haddr ↦ ?_, fun key c hc hi ↦ ?_⟩
  · obtain rfl := clientKey_injective (haddr.trans hkey.symm)
    exact hall ▸ List.prefix_rfl
  · obtain ⟨rfl, rfl, hdecoder⟩ := hentry key c hc hi
    exact ⟨hkey, hdecoder, hall⟩

theorem Replied.fed (h : Replied i ds out w) (hapart : Apart (w.conns i).clientId w)
    (hs : Settled n k w)
    (hcarries : (w.conns i).Carries (w.conns i).clientId) (hstream : (w.conns i).stream = true)
    (hbound : Bound w) {data : Bytes} (hdata : data ≠ []) (a : Answers) :
    let w' := UdpProxy.onStreamData (proxyHost a) (w.conns i).clientId i data w
    Replied i (ds ++ [data]) (out ++ w'.proxy.sent.drop w.proxy.sent.length) w' := by
  have hborn : ¬w.nextId ≤ i := Nat.not_le.mpr (hapart.lt_nextId hcarries.held)
  intro w'
  cases hc : w.proxy.clients (w.conns i).clientId with
  | none =>
    -- Without an entry the bytes are dropped, and none will be made for this stream again.
    have hsame : w' = w := onStreamData_of_none hc a
    rw [hsame, List.drop_length, List.append_nil]
    refine ⟨fun hle ↦ absurd hle hborn, fun hudp addr haddr ↦ ?_, fun key c hc' hi ↦ ?_⟩
    · refine (h.ordered hudp addr haddr).trans ?_
      exact (FrameDecoder.frames_pushAll_prefix ds data).map _
    · rw [hapart.key_eq hc' hi, hc] at hc'
      exact absurd hc'.symm (Option.some_ne_none c)
  | some c =>
    have hi : c.stream = i := hapart.stream_eq hc hcarries
    obtain ⟨hkey, hdecoder, hout⟩ := h.entry _ c hc hi
    have hsock := hbound (hapart.entry _ c hc).1
    have hsent : w'.proxy.sent = _ := sent_onStreamData hsock hdata hc a
    have hall : out ++ w'.proxy.sent.drop w.proxy.sent.length
        = (pushAll (ds ++ [data])).frames.map (c.addr, ·) := by
      rw [hsent, List.drop_left, FrameDecoder.pushAll_concat, List.map_append, ← hout, ← hdecoder]
    have hpushed := onStreamData_of_some (i := i) hsock hdata hc a
    by_cases hok : (c.decoder.push data).ok = true
    · have hfed : w' = { w with proxy := w.fedProxy (w.conns i).clientId c i data } :=
        hpushed.trans (if_pos hok)
      rw [hfed] at hall ⊢
      refine replied_of_all hborn hkey hall fun key d hd hdi ↦ ?_
      change Function.update w.proxy.clients (w.conns i).clientId _ key = some d at hd
      rcases eq_or_ne key (w.conns i).clientId with rfl | hne
      · rw [Function.update_self] at hd
        obtain rfl := Option.some.inj hd
        refine ⟨rfl, rfl, ?_⟩
        rw [FrameDecoder.pushAll_concat, ← hdecoder]
      · rw [Function.update_of_ne hne] at hd
        exact absurd (hapart.key_eq hd hdi) hne
    · set v : Connections := { w with
        proxy := (w.fedProxy (w.conns i).clientId c i data).erase (w.conns i).clientId } with hv
      have hgone : w' = (makeSide a i).close v := by
        rw [hi] at hpushed
        exact hpushed.trans (if_neg hok)
      have hmoves := (hapart.give_up_cases (p := w.fedProxy (w.conns i).clientId c i data) hs hc
        rfl a).resolve_right fun hgone ↦ by
          rw [hi, hstream] at hgone
          exact absurd hgone.1 (by decide)
      rw [hi] at hmoves
      have hid : (((makeSide a i).close v).conns i).clientId = (w.conns i).clientId :=
        (congrArg Conn.clientId (conns_put_self ..)).trans
          (Ctx.allows_frame.close (Ctx.allows_frame.streamClose a) a (v.ctx i)).clientId
      have herased : v.proxy.clients (w.conns i).clientId = none := Function.update_self ..
      have hnone := clients_close_of_none (i := i) herased a
      rw [hgone] at hall ⊢
      refine replied_of_all hborn (hkey.trans hid.symm) hall fun key d hd hdi ↦ ?_
      have hold := hmoves.2.clients_of_some hd
      rw [hapart.key_eq hold hdi, hnone] at hd
      exact absurd hd.symm (Option.some_ne_none d)

theorem Apart.unfed {key : Bytes} (h : Apart key w) (hs : Settled n k w)
    (hid : i < w.nextId → (w.conns i).clientId = key) {j : ℕ} (hne : j ≠ i)
    (hcarries : (w.conns j).Carries (w.conns j).clientId) (data : Bytes) (a : Answers) :
    Unfed i w (UdpProxy.onStreamData (proxyHost a) (w.conns j).clientId j data w) := by
  rcases onStreamData_cases (w.conns j).clientId j data a w with heq |
    ⟨c, hc, c', p, hsame, -, hp, heq | heq⟩
  · rw [heq]
    exact unfed_of_clients rfl rfl fun _ _ hc _ ↦ hc
  · -- The entry that is fed belongs to `j`, or to none that is for the address.
    have hother : c.stream ≠ i := by
      rintro rfl
      obtain ⟨-, hserves, -⟩ := h.toEntered.entry _ c hc
      obtain rfl := hserves.clientId.symm.trans (hid (h.lt_nextId hserves.held))
      exact hne (h.stream_eq hc hcarries).symm
    rw [heq]
    refine unfed_of_clients rfl rfl fun key d hd hi ↦ ?_
    change p.clients key = some d at hd
    rw [hp] at hd
    rcases eq_or_ne key (w.conns j).clientId with rfl | hkey
    · rw [Function.update_self] at hd
      obtain rfl := Option.some.inj hd
      exact absurd (hsame.symm.trans hi) hother
    · rw [Function.update_of_ne hkey] at hd
      exact hd
  · rw [heq]
    rcases h.give_up_cases hs hc hp a with ⟨-, hmoves⟩ | ⟨-, hput⟩
    · exact unfed_put hmoves
    · rw [hput]
      refine unfed_of_clients rfl rfl fun key d hd _ ↦ ?_
      rw [show _ = _ from clients_erase_of_update hp] at hd
      rcases eq_or_ne key (w.conns j).clientId with rfl | hkey
      · rw [Function.update_self] at hd
        exact absurd hd.symm (Option.some_ne_none d)
      · rw [Function.update_of_ne hkey] at hd
        exact hd

theorem replied_of_not_udp (h : Entered w) (hborn : i < w.nextId)
    (hudp : (w.conns i).udp = false) : Replied i ds out w := by
  refine ⟨fun hle ↦ absurd hborn (Nat.not_lt.mpr hle), fun htrue ↦ ?_, fun key c hc hi ↦ ?_⟩
  · exact absurd (hudp.symm.trans htrue) (by decide)
  · obtain ⟨-, hserves, -⟩ := h.entry key c hc
    rw [hi] at hserves
    exact absurd (hudp.symm.trans hserves.udp) (by decide)

theorem replies_of_hushed {e : Event} (h : Hushed w (w.step e)) : replies i w e = [] := by
  cases e with
  | conn j e =>
    rw [replies]
    split_ifs
    · rw [h.sent, List.drop_length]
    · rfl
  | _ => rfl

theorem not_udp_of_pushes (hs : Settled n k w) {e : Event} (henabled : w.Enabled e)
    (hrouted : ¬w.Routed e) (hpushes : pushes i e ≠ []) :
    (w.conns i).held = true ∧ (w.conns i).udp = false := by
  cases e with
  | conn j e =>
    cases e with
    | streamData data a =>
      have hmine : j = i := by
        by_contra hne
        exact hpushes (if_neg fun hand ↦ hne hand.1)
      subst hmine
      have hheld := (hs.exact j).held_of_stream ((hs.sound j).live.symm.trans henabled.1)
      exact ⟨hheld, Bool.eq_false_iff.mpr fun hudp ↦ hrouted ⟨hheld, hudp⟩⟩
    | _ => exact absurd rfl hpushes
  | _ => exact absurd rfl hpushes

theorem Replied.step (h : Replied i ds out w) {key : Bytes} (hapart : Apart key w)
    (hs : Settled n k w) (hid : i < w.nextId → (w.conns i).clientId = key) (hbound : Bound w)
    {e : Event} (henabled : w.Enabled e) :
    Replied i (ds ++ pushes i e) (out ++ replies i w e) (w.step e) := by
  by_cases hrouted : w.Routed e
  · -- The bytes of a stream of datagrams.
    cases e with
    | conn j e =>
      cases e with
      | streamData data a =>
        have hcarries : (w.conns j).Carries (w.conns j).clientId := ⟨hrouted.1, hrouted.2, rfl⟩
        have hstream : (w.conns j).stream = true := (hs.sound j).live.symm.trans henabled.1
        have hstep : w.step (.conn j (.streamData data a))
            = UdpProxy.onStreamData (proxyHost a) (w.conns j).clientId j data w := if_pos hrouted
        by_cases hmine : j = i
        · subst hmine
          rw [pushes, replies, if_pos rfl, hstep]
          by_cases hdata : data = []
          · rw [if_neg fun hand ↦ hand.2 hdata, hdata, onStreamData_nil, List.drop_length,
              List.append_nil, List.append_nil]
            exact h
          · rw [if_pos ⟨rfl, hdata⟩]
            have hown : Apart (w.conns j).clientId w :=
              (hid (hapart.lt_nextId hcarries.held)).symm ▸ hapart
            exact h.fed hown hs hcarries hstream hbound hdata a
        · rw [pushes, replies, if_neg fun hand ↦ hmine hand.1, if_neg hmine, List.append_nil,
            List.append_nil, hstep]
          exact h.unfed (hapart.unfed hs hid hmine hcarries data a)
      | _ => exact hrouted.elim
    | _ => exact hrouted.elim
  · have hreplies : replies i w e = [] := by
      cases e with
      | destroy answers => rfl
      | _ => exact replies_of_hushed (hushed_step hrouted fun _ h ↦ nomatch h)
    have hpushes : Replied i (ds ++ pushes i e) out w := by
      -- Bytes for a TCP connection are none of the proxy's.
      by_cases hnone : pushes i e = []
      · rw [hnone, List.append_nil]
        exact h
      · obtain ⟨hheld, hudp⟩ := not_udp_of_pushes hs henabled hrouted hnone
        exact replied_of_not_udp hapart.toEntered (hapart.lt_nextId hheld) hudp
    rw [hreplies, List.append_nil]
    exact hpushes.unfed (unfed_step hapart.toEntered hs henabled hrouted)

theorem bound_step (hbound : Bound w) (e : Event) : Bound (w.step e) := by
  by_cases hrouted : w.Routed e
  · cases e with
    | conn j e =>
      cases e with
      | streamData data a =>
        have hsame : ∀ key, Bound (UdpProxy.onStreamData (proxyHost a) key j data w) := by
          intro key
          unfold UdpProxy.onStreamData
          split_ifs
          · exact hbound
          · split
            · exact hbound
            · simp only
              split_ifs
              · exact hbound
              · exact (hushed_close a _ _).bound hbound
        have hstep : w.step (.conn j (.streamData data a))
            = UdpProxy.onStreamData (proxyHost a) (w.conns j).clientId j data w := if_pos hrouted
        rw [hstep]
        exact hsame _
      | _ => exact hrouted.elim
    | _ => exact hrouted.elim
  · cases e with
    | destroy answers =>
      change Bound (w.destroy answers)
      cases hdestroyed : w.destroyed with
      | true =>
        rw [destroy, if_pos hdestroyed]
        exact hbound
      | false =>
        intro hlive
        obtain ⟨-, hgone, -, -⟩ := shut_destroy hdestroyed answers
        exact Bool.noConfusion (show true = false from hgone.symm.trans hlive)
    | _ => exact (hushed_step hrouted fun _ ↦ by rintro ⟨⟩).bound hbound

end Step

theorem sent_destroy (w : Connections) (answers : ℕ → Answers) :
    (w.destroy answers).proxy.sent = w.proxy.sent := by
  have hfold : ∀ (l : List ℕ) (w : Connections), (l.foldl (fun w i ↦
      w.act i (Ctx.shutdownConn (Ctx.streamClose (answers i)) (answers i))) w).proxy.sent
        = w.proxy.sent := by
    intro l
    induction l with
    | nil => exact fun _ ↦ rfl
    | cons i l ih =>
      intro w
      rw [List.foldl_cons, ih]
      exact (Ctx.allows_mute.shutdownConn (Ctx.allows_mute.streamClose (answers i)) (answers i)
        (w.ctx i)).sent
  rw [destroy]
  split_ifs
  · rfl
  · exact hfold _ _

theorem sent_step (hbound : Bound w) (hentered : Entered w) (e : Event) :
    ∃ i, (w.step e).proxy.sent = w.proxy.sent ++ replies i w e := by
  by_cases hrouted : w.Routed e
  · cases e with
    | conn j e =>
      cases e with
      | streamData data a =>
        have hstep : w.step (.conn j (.streamData data a))
            = UdpProxy.onStreamData (proxyHost a) (w.conns j).clientId j data w := if_pos hrouted
        refine ⟨j, ?_⟩
        rw [replies, if_pos rfl, hstep]
        by_cases hdata : data = []
        · rw [hdata, onStreamData_nil, List.drop_length, List.append_nil]
        · cases hc : w.proxy.clients (w.conns j).clientId with
          | none => rw [onStreamData_of_none hc, List.drop_length, List.append_nil]
          | some c =>
            have hsock := hbound (hentered.entry _ c hc).1
            rw [sent_onStreamData hsock hdata hc, List.drop_left]
      | _ => exact hrouted.elim
    | _ => exact hrouted.elim
  · refine ⟨0, ?_⟩
    cases e with
    | destroy answers => exact (sent_destroy w answers).trans (List.append_nil _).symm
    | _ =>
      have hushed := hushed_step hrouted fun _ h ↦ nomatch h
      rw [replies_of_hushed hushed, hushed.sent, List.append_nil]

/-- **Whatever was sent** was sent on behalf of a stream. -/
theorem mem_sent (dht : Bool) {es : List Event}
    (henabled : Along step Enabled (listening dht) es) {s : SockAddr × Bytes}
    (hs : s ∈ (run step (listening dht) es).proxy.sent) :
    ∃ i, s ∈ trace step (replies i) (listening dht) es := by
  let P : List Event → Connections → Prop := fun es w ↦ (∃ k, Settled (once k) k w) ∧ Entered w ∧
    Bound w ∧ ∀ s ∈ w.proxy.sent, ∃ i, s ∈ trace step (replies i) (listening dht) es
  have hstart : P [] (listening dht) := by
    refine ⟨⟨0, settled_listening dht⟩, entered_listening dht, fun _ ↦ Option.some_ne_none _, ?_⟩
    exact fun s hs ↦ absurd hs List.not_mem_nil
  obtain ⟨-, -, -, hall⟩ : P es (run step (listening dht) es) := by
    refine history_of_along (G := Enabled) hstart ?_ henabled
    rintro es e ⟨⟨k, hs⟩, hentered, hbound, hall⟩ he
    refine ⟨hs.step he, hentered.step hs he, bound_step hbound e, fun s hmem ↦ ?_⟩
    obtain ⟨i, hsent⟩ := sent_step hbound hentered e
    rw [hsent, List.mem_append] at hmem
    rcases hmem with hold | hnew
    · obtain ⟨j, hj⟩ := hall s hold
      refine ⟨j, ?_⟩
      rw [trace_concat]
      exact List.mem_append_left _ hj
    · refine ⟨i, ?_⟩
      rw [trace_concat]
      exact List.mem_append_right _ hnew
  exact hall s hs

/-- **What is sent on behalf of a stream**, as long as no datagram arrives from its address when the
entry of that is gone but a connection for it is not. -/
theorem replied_run (dht : Bool) (i : ℕ) {key : Bytes} {es : List Event}
    (henabled : Along step Enabled (listening dht) es)
    (hvacant : Along step (VacantAt key) (listening dht) es)
    (hid : ((run step (listening dht) es).conns i).clientId = key) :
    (((run step (listening dht) es).conns i).udp = true →
      ((run step (listening dht) es).conns i).live = true →
      StreamCall.close ∉ ((run step (listening dht) es).conns i).calls →
        ∃ c, (run step (listening dht) es).proxy.clients key = some c ∧ c.stream = i) ∧
      Replied i (es.flatMap (pushes i)) (trace step (replies i) (listening dht) es)
        (run step (listening dht) es) := by
  -- Until it is made, the stream may yet be for another address.
  let P : List Event → Connections → Prop := fun es w ↦ (∃ k, Settled (once k) k w) ∧
    Apart key w ∧ Bound w ∧ ((i < w.nextId → (w.conns i).clientId = key) →
      Replied i (es.flatMap (pushes i)) (trace step (replies i) (listening dht) es) w)
  have hstart : P [] (listening dht) := by
    refine ⟨⟨0, settled_listening dht⟩, apart_listening dht key, fun _ ↦ Option.some_ne_none _,
      fun _ ↦ ?_⟩
    exact ⟨fun _ ↦ ⟨rfl, rfl⟩, fun _ _ _ ↦ List.nil_prefix,
      fun key c hc ↦ absurd hc.symm (Option.some_ne_none c)⟩
  obtain ⟨⟨k, hs⟩, hapart, -, hreplied⟩ : P es (run step (listening dht) es) := by
    refine history_of_along (G := fun w e ↦ Enabled w e ∧ VacantAt key w e) hstart ?_
      (henabled.and hvacant)
    rintro es e ⟨⟨k, hs⟩, hapart, hbound, h⟩ ⟨he, hv⟩
    have hgrows := grows_step hapart.toEntered hs he
    refine ⟨hs.step he, hapart.step hs he hv, bound_step hbound e, fun hnext ↦ ?_⟩
    have hborn : i < (run step (listening dht) es).nextId →
        ((run step (listening dht) es).conns i).clientId = key := fun hlt ↦
      (hgrows.conn i hlt).2.symm.trans (hnext (Nat.lt_of_lt_of_le hlt hgrows.nextId))
    rw [trace_concat, List.flatMap_append, List.flatMap_singleton]
    exact (h hborn).step hapart hs hborn hbound he
  exact ⟨fun hudp ↦ hapart.entry_of_live (hs.sound i) (hs.exact i) hudp hid,
    hreplied fun _ ↦ hid⟩

end Connections

end HolesailClient

end Holesail
