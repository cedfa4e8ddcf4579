import Holesail.Client.Parting
import Holesail.Client.Table

/-!
# The entries of the proxy

What one event does to the connections and to the proxy's entries, said once: a callback of one
connection moves that connection, and drops at most its own address's entry; a datagram finds an
entry or makes one, with a connection that is dialled for it, and is written to its stream;
destroying the client shuts down each connection and leaves no entry.

Whatever the events, an entry then belongs to a connection that carries the datagrams of its address
and was not asked to close.
-/

namespace Holesail

namespace HolesailClient

namespace Connections

open Run Conn

variable {w : Connections}

/-! ## The invariant -/

/-- Each entry belongs to a connection that serves its address. -/
structure Entered (w : Connections) : Prop where
  /-- The connections that were not made yet. -/
  unborn : ∀ i, w.nextId ≤ i → w.conns i = { connectPending := false, held := false }
  entry : ∀ key c, w.proxy.clients key = some c → w.destroyed = false ∧
    (w.conns c.stream).Carries key ∧ StreamCall.close ∉ (w.conns c.stream).calls

theorem Entered.lt_nextId (h : Entered w) {i : ℕ} (hheld : (w.conns i).held = true) :
    i < w.nextId := by
  by_contra hle
  rw [h.unborn i (Nat.le_of_not_lt hle)] at hheld
  exact absurd hheld Bool.false_ne_true

/-! ## One connection moves -/

/-- A callback of connection `i` keeps its frame, and, if it carries datagrams, either goes on
serving them or gives up their entry. -/
structure Moves (w : Connections) (i : ℕ) (y : Ctx) : Prop where
  frame : Ctx.Frame (w.ctx i) y
  exact : y.conn.Exact
  udp : (w.conns i).udp = true → Ctx.Stays w.destroyed (w.ctx i) y ∨ Ctx.Parts (w.ctx i) y

section Moves

variable {i : ℕ} {y : Ctx}

theorem Moves.clients_of_some (hmoves : w.Moves i y) {key : Bytes} {c : UdpProxy.Client}
    (hc : y.proxy.clients key = some c) : w.proxy.clients key = some c := by
  rcases hmoves.frame.clients with hsame | ⟨-, hsame⟩
  · rw [hsame] at hc
    exact hc
  · rw [hsame] at hc
    rcases eq_or_ne key (w.conns i).clientId with rfl | hne
    · exact absurd (hc.symm.trans (Function.update_self ..)) (Option.some_ne_none c)
    · exact (Function.update_of_ne hne _ _).symm.trans hc

theorem Moves.clients_of_ne (hmoves : w.Moves i y) {key : Bytes}
    (hne : key ≠ (w.conns i).clientId) : y.proxy.clients key = w.proxy.clients key := by
  rcases hmoves.frame.clients with hsame | ⟨-, hsame⟩
  · exact congrFun hsame key
  · rw [hsame]
    exact Function.update_of_ne hne _ _

theorem Moves.carries (hmoves : w.Moves i y) {j : ℕ} {key : Bytes}
    (hj : ((w.put i y).conns j).Carries key) : (w.conns j).Carries key := by
  rcases eq_or_ne j i with rfl | hne
  · rw [conns_put_self] at hj
    exact hmoves.frame.carries hj
  · rw [conns_put_of_ne _ hne] at hj
    exact hj

/-- **The invariant follows a connection.** -/
theorem Entered.put (h : Entered w) (hheld : (w.conns i).held = true) (hmoves : w.Moves i y) :
    Entered (w.put i y) := by
  refine ⟨fun j hj ↦ ?_, fun key c hc ↦ ?_⟩
  · have hlt := h.lt_nextId hheld
    rw [conns_put_of_ne _ (show j ≠ i from (Nat.lt_of_lt_of_le hlt hj).ne')]
    exact h.unborn j hj
  · obtain ⟨hdestroyed, hcarries, hclose⟩ := h.entry key c (hmoves.clients_of_some hc)
    refine ⟨hdestroyed, ?_⟩
    rcases eq_or_ne c.stream i with rfl | hne
    · rw [conns_put_self]
      rcases hmoves.udp hcarries.udp with hstays | hparts
      · obtain ⟨hheld', hclose'⟩ := hstays.serving.mpr ⟨hcarries.held, hclose⟩
        exact ⟨⟨hheld', hmoves.frame.udp.trans hcarries.udp,
          hmoves.frame.clientId.trans hcarries.clientId⟩, hclose'⟩
      · -- Its entry would be gone.
        have hgone : y.proxy.clients key = none := by
          rw [hparts.clients, ← hcarries.clientId]
          exact Function.update_self ..
        exact absurd (hc.symm.trans hgone) (Option.some_ne_none c)
    · rw [conns_put_of_ne _ hne]
      exact ⟨hcarries, hclose⟩

end Moves

/-! ## A connection is made -/

section Born

variable {w' : Connections}

/-- `w'` is `w` with one more connection. -/
structure Born (w w' : Connections) : Prop where
  nextId : w'.nextId = w.nextId + 1
  destroyed : w.destroyed = false ∧ w'.destroyed = false
  conns : ∀ j, j ≠ w.nextId → w'.conns j = w.conns j

/-- **The invariant survives a new connection**, if that comes with the new entries. -/
theorem Entered.born (h : Entered w) (hborn : Born w w')
    (hentry : ∀ key c, w'.proxy.clients key = some c → w.proxy.clients key = some c ∨
      c.stream = w.nextId ∧ (w'.conns w.nextId).Carries key ∧
        StreamCall.close ∉ (w'.conns w.nextId).calls) :
    Entered w' := by
  refine ⟨fun j hj ↦ ?_, fun key c hc ↦ ⟨hborn.destroyed.2, ?_⟩⟩
  · rw [hborn.nextId] at hj
    rw [hborn.conns j (Nat.ne_of_gt hj)]
    exact h.unborn j (Nat.le_of_lt hj)
  · rcases hentry key c hc with hold | ⟨hstream, hnew⟩
    · obtain ⟨-, hserves⟩ := h.entry key c hold
      rw [hborn.conns _ (Nat.ne_of_lt (h.lt_nextId hserves.1.held))]
      exact hserves
    · rw [hstream]
      exact hnew

/-- The next connection is made and dialled. -/
def dial (w : Connections) (c : Conn) (a : Answers) : Bool × Connections :=
  (w.push c).call w.nextId (Ctx.beginDhtConnect a)

theorem ctx_push_self (c : Conn) : (w.push c).ctx w.nextId = ⟨c, w.proxy⟩ :=
  congrArg (Ctx.mk · w.proxy) (w.conns_push_self c)

theorem fst_dial (c : Conn) (a : Answers) :
    (w.dial c a).1 = (Ctx.beginDhtConnect a ⟨c, w.proxy⟩).1 := by
  rw [dial, call, ctx_push_self]

theorem ctx_dial (c : Conn) (a : Answers) :
    (w.dial c a).2.ctx w.nextId = (Ctx.beginDhtConnect a ⟨c, w.proxy⟩).2 := by
  rw [dial, call, ctx_push_self, ctx, conns_put_self]
  rfl

theorem frame_dial (c : Conn) (a : Answers) :
    Ctx.Frame ⟨c, w.proxy⟩ ((w.dial c a).2.ctx w.nextId) := by
  rw [ctx_dial]
  exact Ctx.allows_frame.beginDhtConnect a _

theorem born_dial (hdestroyed : w.destroyed = false) (c : Conn) (a : Answers) :
    Born w (w.dial c a).2 := by
  refine ⟨rfl, ⟨hdestroyed, hdestroyed⟩, fun j hne ↦ ?_⟩
  rw [dial, call, conns_put_of_ne _ hne, conns_push_of_ne _ hne]

theorem dial_tcp (t : UvTcp) (a : Answers) :
    ((w.dial { tcp := some t } a).2.conns w.nextId).udp = false ∧
      (w.dial { tcp := some t } a).2.proxy.clients = w.proxy.clients := by
  have hframe := frame_dial (w := w) { tcp := some t } a
  exact ⟨hframe.udp, hframe.clients.resolve_right fun hudp ↦ absurd hudp.1 Bool.false_ne_true⟩

/-- **A socket is accepted**, and closed on the spot, or a connection is dialled for it. -/
theorem onLocalConnection_cases (w : Connections) (a : Answers) :
    w.step (.accept a)
        = { w with accepted := w.accepted + 1, refused := w.refused ++ [w.accepted] } ∨
      w.destroyed = false ∧ w.step (.accept a)
        = (({ w with accepted := w.accepted + 1 } : Connections).dial
            { tcp := some { id := w.accepted } } a).2 := by
  change w.onLocalConnection a = _ ∨ _ ∧ w.onLocalConnection a = _
  by_cases hgone : w.destroyed = true ∨ w.dht = false
  · exact Or.inl (if_pos hgone)
  · exact Or.inr ⟨Bool.eq_false_iff.mpr fun hd ↦ hgone (Or.inl hd), if_neg hgone⟩

/-- If a stream cannot be dialled, nothing is left to serve the address. -/
theorem dial_udp_failed {key : Bytes} (hnone : w.proxy.clients key = none) {a : Answers}
    (hconnect : a.connect < 0) :
    ¬((w.dial { udp := true, clientId := key } a).2.conns w.nextId).Serving ∧
      (w.dial { udp := true, clientId := key } a).2.proxy.clients = w.proxy.clients := by
  have hparts := Ctx.beginDhtConnect_parts (a := a)
    (x := ⟨{ udp := true, clientId := key }, w.proxy⟩) rfl hconnect
  rw [← ctx_dial] at hparts
  refine ⟨hparts.serving, hparts.clients.trans ?_⟩
  rw [Function.update_eq_self_iff]
  exact hnone.symm

theorem dial_udp (key : Bytes) {a : Answers} (hconnect : ¬a.connect < 0) :
    (w.dial { udp := true, clientId := key } a).2.conns w.nextId
        = { udp := true, clientId := key, connecting := true } ∧
      (w.dial { udp := true, clientId := key } a).2.proxy = w.proxy := by
  have hctx := ctx_dial (w := w) { udp := true, clientId := key } a
  rw [Ctx.beginDhtConnect, if_neg hconnect] at hctx
  exact ⟨congrArg Ctx.conn hctx, congrArg Ctx.proxy hctx⟩

/-- The entry that a new stream is given. -/
def enrol (w : Connections) (key : Bytes) (c : UdpProxy.Client) : Connections :=
  { w with proxy := w.proxy.emplace key c }

theorem clients_enrol (key : Bytes) (c : UdpProxy.Client) :
    (w.enrol key c).proxy.clients = Function.update w.proxy.clients key (some c) := rfl

theorem openUdpStream_of_not_gone (a : Answers) (key : Bytes)
    (hgone : ¬(w.destroyed = true ∨ w.dht = false)) :
    w.openUdpStream a key = (if a.connect < 0 then none else some w.nextId,
      (w.dial { udp := true, clientId := key } a).2) := by
  have hfst := fst_dial (w := w) { udp := true, clientId := key } a
  rw [openUdpStream, if_neg hgone]
  by_cases hconnect : a.connect < 0
  · rw [Ctx.beginDhtConnect, if_pos hconnect] at hfst
    rw [if_pos hconnect]
    exact if_neg fun hdialling ↦ absurd (hfst.symm.trans hdialling) Bool.false_ne_true
  · rw [Ctx.beginDhtConnect, if_neg hconnect] at hfst
    rw [if_neg hconnect]
    exact if_pos hfst

/-- **A datagram finds its client**; or there is no stream to be had, or none that could be dialled;
or its client is new. -/
theorem clientFor_cases (w : Connections) (addr : SockAddr) (a : Answers) :
    (∃ c, w.proxy.clients (clientKey addr) = some c ∧
        UdpProxy.clientFor (proxyHost a) addr w = (some c, w)) ∨
      UdpProxy.clientFor (proxyHost a) addr w = (none, w) ∨
      (w.proxy.clients (clientKey addr) = none ∧ w.destroyed = false ∧
        (a.connect < 0 ∧ UdpProxy.clientFor (proxyHost a) addr w
            = (none, (w.dial { udp := true, clientId := clientKey addr } a).2) ∨
          ¬a.connect < 0 ∧ UdpProxy.clientFor (proxyHost a) addr w
            = (some { stream := w.nextId, addr := addr },
              (w.dial { udp := true, clientId := clientKey addr } a).2.enrol (clientKey addr)
                { stream := w.nextId, addr := addr }))) := by
  cases hold : w.proxy.clients (clientKey addr) with
  | some c => exact Or.inl ⟨c, rfl, UdpProxy.clientFor_of_some (h := proxyHost a) hold⟩
  | none =>
    right
    by_cases hgone : w.destroyed = true ∨ w.dht = false
    · exact Or.inl (UdpProxy.clientFor_of_none (h := proxyHost a) hold (if_pos hgone))
    · have hdestroyed : w.destroyed = false :=
        Bool.eq_false_iff.mpr fun hd ↦ hgone (Or.inl hd)
      have hopen := openUdpStream_of_not_gone a (clientKey addr) hgone
      refine Or.inr ⟨rfl, hdestroyed, ?_⟩
      by_cases hconnect : a.connect < 0
      · rw [if_pos hconnect] at hopen
        exact Or.inl ⟨hconnect, UdpProxy.clientFor_of_none (h := proxyHost a) hold hopen⟩
      · rw [if_neg hconnect] at hopen
        exact Or.inr ⟨hconnect, UdpProxy.clientFor_of_opened (h := proxyHost a) hold hopen⟩

/-- The connection that was dialled for a new client, which is served by it. -/
theorem born_enrol (hdestroyed : w.destroyed = false) (key : Bytes) {a : Answers}
    (hconnect : ¬a.connect < 0) (c : UdpProxy.Client) :
    let w' := (w.dial { udp := true, clientId := key } a).2.enrol key c
    Born w w' ∧ w'.conns w.nextId = { udp := true, clientId := key, connecting := true } ∧
      w'.proxy.clients = Function.update w.proxy.clients key (some c) := by
  obtain ⟨hnext, hgone, hconns⟩ :=
    born_dial hdestroyed { udp := true, clientId := key } a
  obtain ⟨hself, hproxy⟩ := dial_udp (w := w) key hconnect
  refine ⟨⟨hnext, hgone, hconns⟩, hself, ?_⟩
  rw [clients_enrol, hproxy]

theorem Entered.clientFor (h : Entered w) (addr : SockAddr) (a : Answers) :
    Entered (UdpProxy.clientFor (proxyHost a) addr w).2 ∧
      (∀ c, (UdpProxy.clientFor (proxyHost a) addr w).1 = some c →
        (UdpProxy.clientFor (proxyHost a) addr w).2.proxy.clients (clientKey addr) = some c) ∧
      ∀ key, key ≠ clientKey addr →
        (UdpProxy.clientFor (proxyHost a) addr w).2.proxy.clients key = w.proxy.clients key := by
  -- Found; or nothing to dial with; or dialled, which fails at once or makes an entry.
  rcases clientFor_cases w addr a with ⟨c, hc, heq⟩ | heq |
    ⟨hnone, hdestroyed, ⟨hconnect, heq⟩ | ⟨hconnect, heq⟩⟩
  · rw [heq]
    refine ⟨h, ?_, fun _ _ ↦ rfl⟩
    rintro c' ⟨⟩
    exact hc
  · rw [heq]
    exact ⟨h, fun c hc ↦ absurd hc.symm (Option.some_ne_none c), fun _ _ ↦ rfl⟩
  · obtain ⟨-, hclients⟩ := dial_udp_failed hnone hconnect
    rw [heq]
    refine ⟨h.born (born_dial hdestroyed _ a) fun key c hc ↦ ?_,
      fun c hc ↦ absurd hc.symm (Option.some_ne_none c), fun key _ ↦ congrFun hclients key⟩
    rw [hclients] at hc
    exact Or.inl hc
  · obtain ⟨hborn, hself, hclients⟩ :=
      born_enrol hdestroyed (clientKey addr) hconnect { stream := w.nextId, addr := addr }
    rw [heq]
    refine ⟨h.born hborn fun key c hc ↦ ?_, fun c hc ↦ ?_, fun key hne ↦ ?_⟩
    · rw [hclients] at hc
      rcases eq_or_ne key (clientKey addr) with heq' | hne
      · rw [heq', Function.update_self] at hc
        obtain rfl := Option.some.inj hc
        rw [hself, heq']
        exact Or.inr ⟨rfl, ⟨rfl, rfl, rfl⟩, List.not_mem_nil⟩
      · rw [Function.update_of_ne hne] at hc
        exact Or.inl hc
    · obtain rfl := Option.some.inj hc
      rw [hclients, Function.update_self]
    · rw [hclients, Function.update_of_ne hne]

end Born

/-! ## Datagrams, in both directions -/

/-- What acts on connection `i` right after it was put back, with another proxy. -/
theorem act_put (i : ℕ) (x : Ctx) (p : UdpProxy) (f : Ctx → Ctx) :
    ({ w.put i x with proxy := p } : Connections).act i f = w.put i (f ⟨x.conn, p⟩) := by
  simp only [act, ctx, put, Function.update_self, Function.update_idem]

section Datagrams

variable {n : ℕ → ℕ} {k i : ℕ} {a : Answers}

theorem moves_erase_close (hudp : (w.conns i).udp = true) {y : Ctx}
    (hframe : Ctx.Frame (w.ctx i) y) (hsound : y.conn.Sound) (hexact : y.conn.Exact)
    (hstream : y.conn.stream = true)
    (hclients : y.proxy.clients = Function.update w.proxy.clients (w.conns i).clientId none) :
    w.Moves i ((Ctx.makeSide (Ctx.streamClose a) a).close y) where
  frame := hframe.trans (Ctx.allows_frame.close (Ctx.allows_frame.streamClose a) a y)
  exact := (Ctx.close_settles (Ctx.closer_streamClose a) hsound hexact).2
  udp := fun _ ↦ Or.inr
    (Ctx.erase_makeSide_close_parts hframe hsound hexact hstream hudp hclients)

/-- `y` is the connection `x` after a write, and after it was given up if that failed. -/
def Wrote (a : Answers) (data : Bytes) (x y : Ctx) : Prop :=
  let side := Ctx.makeSide (Ctx.streamClose a) a
  (0 ≤ (side.write data none x).1 → y = (side.write data none x).2) ∧
    ((side.write data none x).1 < 0 →
      ∃ p, y = side.close ⟨(side.write data none x).2.conn, p⟩)

/-- **A datagram is written to the stream of its client**, which is given up if that fails. -/
theorem exists_write_eq (hs : Settled n k w) {key : Bytes}
    (hcarries : (w.conns i).Carries key) (data : Bytes) (a : Answers) :
    ∃ y, (if ((makeSide a i).write data none w).1 < 0 then
        (makeSide a i).close ((proxyHost a).modify (fun p ↦ p.erase key)
          ((makeSide a i).write data none w).2)
      else ((makeSide a i).write data none w).2) = w.put i y ∧ w.Moves i y ∧
      Wrote a data (w.ctx i) y := by
  obtain ⟨hheld, hudp, hid⟩ := hcarries
  have hsound := hs.sound i
  have hexact := hs.exact i
  set x := w.ctx i
  set side := Ctx.makeSide (Ctx.streamClose a) a
  have hframe : Ctx.Frame x (side.write data none x).2 := Ctx.allows_frame.write _ a data none x
  obtain ⟨hsettles, hexact', -⟩ :=
    Ctx.write_settles (x := x) (Ctx.streamClose a) a hsound hexact data none fun _ ↦ rfl
  have hstays : Ctx.Stays w.destroyed x (side.write data none x).2 :=
    Ctx.write_stays w.destroyed (Ctx.streamClose a) data
  -- A refused write drops the entry and closes the stream.
  by_cases hrc : (side.write data none x).1 < 0
  · refine ⟨_, (if_pos hrc).trans (act_put _ _ _ _), ?_, fun hnot ↦ ?_, fun _ ↦ ⟨_, rfl⟩⟩
    · have hstream : x.conn.stream = true :=
        Ctx.stream_of_write_neg (x := x) hsound hheld hexact hudp hrc
      obtain ⟨pending, drains, calls, heq, -⟩ :=
        Ctx.exists_write_eq (Ctx.streamClose a) a data none x
      have hstream' : (side.write data none x).2.conn.stream = true := by
        rw [heq]
        exact hstream
      have herased : ((side.write data none x).2.proxy.erase key).clients
          = Function.update w.proxy.clients (w.conns i).clientId none := by
        rw [hid]
        exact congrArg (Function.update · key none) hstays.clients
      exact moves_erase_close hudp
        ⟨hframe.udp, hframe.clientId, hframe.held, Or.inr ⟨hudp, herased⟩⟩ hsettles.sound hexact'
        hstream' herased
    · exact absurd hrc (Int.not_lt.mpr hnot)
  · exact ⟨_, if_neg hrc, ⟨hframe, hexact', fun _ ↦ Or.inl hstays⟩, fun _ ↦ rfl,
      fun hrc' ↦ absurd hrc' hrc⟩

/-- **What a datagram does**: nothing is to be had for it, or its client's connection moves. -/
theorem Entered.recvCb_cases (h : Entered w) (hs : Settled n k w) (addr : SockAddr) (data : Bytes)
    (a : Answers) :
    let found := UdpProxy.clientFor (proxyHost a) addr w
    found.1 = none ∧ w.step (.recv addr (.datagram data) a) = found.2 ∨
      ∃ c y, found.1 = some c ∧ found.2.proxy.clients (clientKey addr) = some c ∧
        w.step (.recv addr (.datagram data) a) = found.2.put c.stream y ∧
        found.2.Moves c.stream y ∧ Wrote a (frame data) (found.2.ctx c.stream) y := by
  obtain ⟨hentered, hentry, -⟩ := h.clientFor addr a
  have hs' : Settled n k (UdpProxy.clientFor (proxyHost a) addr w).2 :=
    (keeps_settled a n k).clientFor addr hs
  change let found := UdpProxy.clientFor (proxyHost a) addr w
    _ ∧ UdpProxy.recvCb (proxyHost a) addr (.datagram data) w = found.2 ∨
      ∃ (c : UdpProxy.Client) (y : Ctx), _ ∧ _ ∧
        UdpProxy.recvCb (proxyHost a) addr (.datagram data) w = found.2.put c.stream y ∧ _
  rcases hfound : UdpProxy.clientFor (proxyHost a) addr w with ⟨_ | c, w₁⟩
  · exact Or.inl ⟨rfl, UdpProxy.recvCb_of_none hfound⟩
  · rw [hfound] at hentered hentry hs'
    have hc := hentry c rfl
    obtain ⟨y, hy, hmoves, hwritten⟩ :=
      exists_write_eq hs' (hentered.entry _ c hc).2.1 (frame data) a
    exact Or.inr ⟨c, y, rfl, hc, (UdpProxy.recvCb_of_some hfound).trans hy, hmoves, hwritten⟩

/-- **What bytes of a stream do**: the entry of its address, if there is one, is fed, or given up
and its stream asked to close. -/
theorem onStreamData_cases (key : Bytes) (source : ℕ) (data : Bytes) (a : Answers)
    (w : Connections) :
    UdpProxy.onStreamData (proxyHost a) key source data w = w ∨
      ∃ c, w.proxy.clients key = some c ∧ ∃ c' p, c'.stream = c.stream ∧
        c'.sources = c.sources ++ [source] ∧
        p.clients = Function.update w.proxy.clients key (some c') ∧
        (UdpProxy.onStreamData (proxyHost a) key source data w = { w with proxy := p } ∨
          UdpProxy.onStreamData (proxyHost a) key source data w = w.put c.stream
            ((Ctx.makeSide (Ctx.streamClose a) a).close ⟨w.conns c.stream, p.erase key⟩)) := by
  unfold UdpProxy.onStreamData
  split_ifs with hguard
  · exact Or.inl rfl
  · split
    · exact Or.inl rfl
    · next c hc =>
      let c' : UdpProxy.Client := { c with
        decoder := (c.decoder.push data).decoder, sources := c.sources ++ [source] }
      refine Or.inr ⟨c, hc, c', { w.proxy.emplace key c' with
        sent := w.proxy.sent ++ (c.decoder.push data).frames.map fun d ↦ (c.addr, d) },
        rfl, rfl, rfl, ?_⟩
      simp only
      split_ifs
      · exact Or.inl rfl
      · exact Or.inr rfl

theorem Entered.fed (h : Entered w) {key : Bytes} {c c' : UdpProxy.Client}
    (hc : w.proxy.clients key = some c) (hstream : c'.stream = c.stream) {p : UdpProxy}
    (hp : p.clients = Function.update w.proxy.clients key (some c')) :
    Entered { w with proxy := p } := by
  refine ⟨h.unborn, fun key' d hd ↦ ?_⟩
  change p.clients key' = some d at hd
  rw [hp] at hd
  rcases eq_or_ne key' key with rfl | hne
  · rw [Function.update_self] at hd
    obtain rfl := Option.some.inj hd
    rw [hstream]
    exact h.entry key' c hc
  · rw [Function.update_of_ne hne] at hd
    exact h.entry key' d hd

theorem clients_erase_of_update {key : Bytes} {v : Option UdpProxy.Client} {p : UdpProxy}
    {clients : Bytes → Option UdpProxy.Client} (hp : p.clients = Function.update clients key v) :
    (p.erase key).clients = Function.update clients key none := by
  change Function.update p.clients key none = _
  rw [hp, Function.update_idem]

theorem Entered.erased (h : Entered w) {key : Bytes} {p : UdpProxy}
    (hp : p.clients = Function.update w.proxy.clients key none) :
    Entered { w with proxy := p } := by
  refine ⟨h.unborn, fun key' d hd ↦ ?_⟩
  change p.clients key' = some d at hd
  rw [hp] at hd
  rcases eq_or_ne key' key with rfl | hne
  · rw [Function.update_self] at hd
    exact absurd hd.symm (Option.some_ne_none d)
  · rw [Function.update_of_ne hne] at hd
    exact h.entry key' d hd

/-- A stream whose client was given up for its bytes is asked to close, if hyperdht has it. -/
theorem Entered.give_up_cases (h : Entered w) (hs : Settled n k w) {key : Bytes}
    {c c' : UdpProxy.Client} (hc : w.proxy.clients key = some c) {p : UdpProxy}
    (hp : p.clients = Function.update w.proxy.clients key (some c')) (a : Answers) :
    let y := (Ctx.makeSide (Ctx.streamClose a) a).close ⟨w.conns c.stream, p.erase key⟩
    (w.conns c.stream).stream = true ∧ w.Moves c.stream y ∨
      (w.conns c.stream).stream = false ∧
        w.put c.stream y = { w with proxy := p.erase key } := by
  obtain ⟨-, ⟨-, hudp, hid⟩, -⟩ := h.entry key c hc
  have hclients : (p.erase key).clients
      = Function.update w.proxy.clients (w.conns c.stream).clientId none := by
    rw [hid]
    exact clients_erase_of_update hp
  cases hstream : (w.conns c.stream).stream with
  | true =>
    exact Or.inl ⟨rfl, moves_erase_close hudp ⟨rfl, rfl, id, Or.inr ⟨hudp, hclients⟩⟩
      (hs.sound c.stream) (hs.exact c.stream) hstream hclients⟩
  | false =>
    have hsame : (Ctx.makeSide (Ctx.streamClose a) a).close ⟨w.conns c.stream, p.erase key⟩
        = ⟨w.conns c.stream, p.erase key⟩ :=
      if_neg fun hopen ↦ absurd (hstream.symm.trans hopen.2.1) Bool.false_ne_true
    refine Or.inr ⟨rfl, ?_⟩
    rw [hsame]
    change { w with
      conns := Function.update w.conns c.stream (w.conns c.stream), proxy := p.erase key } = _
    rw [Function.update_eq_self]

end Datagrams

/-! ## The client is destroyed -/

/-- `v` is `w` after the connections in `l` were shut down. -/
structure Shut (answers : ℕ → Answers) (l : List ℕ) (w v : Connections) : Prop where
  nextId : v.nextId = w.nextId
  destroyed : v.destroyed = w.destroyed
  clients : ∀ key, w.proxy.clients key = none → v.proxy.clients key = none
  conns : ∀ i, i ∉ l ∧ v.conns i = w.conns i ∨ i ∈ l ∧ ∃ p, v.conns i
    = (Ctx.shutdownConn (Ctx.streamClose (answers i)) (answers i) ⟨w.conns i, p⟩).conn

theorem shut_foldl (answers : ℕ → Answers) {l : List ℕ} (hl : l.Nodup) (w : Connections) :
    Shut answers l w (l.foldl (fun w i ↦
      w.act i (Ctx.shutdownConn (Ctx.streamClose (answers i)) (answers i))) w) := by
  -- By induction on the connections still to be shut down, each of which comes once.
  induction l generalizing w with
  | nil => exact ⟨rfl, rfl, fun _ ↦ id, fun _ ↦ Or.inl ⟨List.not_mem_nil, rfl⟩⟩
  | cons i l ih =>
    rw [List.nodup_cons] at hl
    set w₁ := w.act i (Ctx.shutdownConn (Ctx.streamClose (answers i)) (answers i))
    have hframe : Ctx.Frame (w.ctx i) (Ctx.shutdownConn _ _ (w.ctx i)) :=
      Ctx.allows_frame.shutdownConn (Ctx.allows_frame.streamClose (answers i)) (answers i) _
    obtain ⟨hnext, hgone, hclients, hconns⟩ := ih hl.2 w₁
    refine ⟨hnext, hgone, fun key hkey ↦ hclients key ?_, fun j ↦ ?_⟩
    · change (Ctx.shutdownConn _ _ (w.ctx i)).proxy.clients key = none
      rcases hframe.clients with hsame | ⟨-, hsame⟩
      · rw [hsame]
        exact hkey
      · rw [hsame, Function.update_apply]
        split_ifs
        · rfl
        · exact hkey
    · rcases eq_or_ne j i with rfl | hne
      · rcases hconns j with ⟨-, hsame⟩ | ⟨hmem, -⟩
        · refine Or.inr ⟨List.mem_cons_self, w.proxy, ?_⟩
          rw [List.foldl_cons, hsame]
          exact conns_put_self ..
        · exact absurd hmem hl.1
      · have hother : w₁.conns j = w.conns j := conns_put_of_ne w hne _
        rcases hconns j with ⟨hnot, hsame⟩ | ⟨hmem, p, hshut⟩
        · exact Or.inl ⟨List.not_mem_cons_of_ne_of_not_mem hne hnot, hsame.trans hother⟩
        · refine Or.inr ⟨List.mem_cons_of_mem _ hmem, p, ?_⟩
          rw [List.foldl_cons, hshut, hother]

theorem mem_live {i : ℕ} : i ∈ w.live ↔ i < w.nextId ∧ (w.conns i).held = true := by
  rw [live, List.mem_filter, List.mem_range]

/-- **What destroying the client does**: every connection in the table is shut down, and no entry is
left. -/
theorem shut_destroy (hdestroyed : w.destroyed = false) (answers : ℕ → Answers) :
    Shut answers w.live { w with destroyed := true, proxy := w.proxy.close }
      (w.destroy answers) := by
  have hdestroy : w.destroy answers = w.live.foldl (fun w i ↦
      w.act i (Ctx.shutdownConn (Ctx.streamClose (answers i)) (answers i)))
      { w with destroyed := true, proxy := w.proxy.close } := by
    rw [destroy, if_neg (by rw [hdestroyed]; exact Bool.false_ne_true)]
    rfl
  rw [hdestroy]
  exact shut_foldl answers (List.nodup_range.filter _) _

theorem Entered.destroy (h : Entered w) (answers : ℕ → Answers) :
    Entered (w.destroy answers) := by
  cases hdestroyed : w.destroyed with
  | true =>
    rw [Connections.destroy, if_pos hdestroyed]
    exact h
  | false =>
    obtain ⟨hnext, -, hclients, hconns⟩ := shut_destroy hdestroyed answers
    refine ⟨fun i hi ↦ ?_, fun key c hc ↦ ?_⟩
    · rcases hconns i with ⟨-, hsame⟩ | ⟨hmem, -⟩
      · rw [hsame]
        exact h.unborn i (hnext ▸ hi)
      · exact absurd (mem_live.mp hmem).1 (Nat.not_lt.mpr (hnext ▸ hi))
    · exact absurd (hc.symm.trans (hclients key rfl)) (Option.some_ne_none c)

/-! ## Every event -/

section Step

variable {n : ℕ → ℕ} {k i : ℕ}

theorem moves_connectCb (hs : Settled n k w) {error : ℤ} {found : Bool} {a : Answers}
    (henabled : w.Enabled (.connected i error found a)) :
    (w.conns i).held = true ∧
      w.Moves i (Ctx.connectCb w.destroyed error found a (w.ctx i)) := by
  have hsound : (w.ctx i).conn.Sound := hs.sound i
  have hexact : (w.ctx i).conn.Exact := hs.exact i
  obtain ⟨-, hheld, -⟩ := Ctx.fired_settles hsound hexact henabled
  refine ⟨hheld, Ctx.allows_frame.connectCb _ error found a _, ?_, fun hudp ↦ ?_⟩
  · exact (Ctx.connectCb_settles hsound hexact henabled _ error found).2
  · exact Ctx.connectCb_moves hsound hexact hudp henabled _ error found

theorem moves_step (hs : Settled n k w) {e : Conn.Event} (henabled : (w.conns i).Enabled e) :
    (w.conns i).held = true ∧ w.Moves i (Conn.step (w.ctx i) e) := by
  have hsound : (w.ctx i).conn.Sound := hs.sound i
  have hexact : (w.ctx i).conn.Exact := hs.exact i
  refine ⟨?_, Ctx.allows_frame.step _ e, (Ctx.step_settles hsound hexact henabled).2,
    fun hudp ↦ Ctx.step_moves hsound hexact hudp _ henabled⟩
  by_contra hheld
  rw [Bool.not_eq_true] at hheld
  exact Ctx.not_enabled_of_not_held hsound hexact hheld e henabled

theorem Entered.onStreamData (h : Entered w) (hs : Settled n k w) (key : Bytes) (source : ℕ)
    (data : Bytes) (a : Answers) :
    Entered (UdpProxy.onStreamData (proxyHost a) key source data w) := by
  rcases onStreamData_cases key source data a w with heq |
    ⟨c, hc, c', p, hstream, -, hp, heq | heq⟩
  · rw [heq]
    exact h
  · rw [heq]
    exact h.fed hc hstream hp
  · obtain ⟨-, hcarries, -⟩ := h.entry key c hc
    rcases h.give_up_cases hs hc hp a with ⟨-, hmoves⟩ | ⟨-, hsame⟩
    · rw [heq]
      exact h.put hcarries.held hmoves
    · rw [heq, hsame]
      exact h.erased (clients_erase_of_update hp)

theorem Entered.step (h : Entered w) (hs : Settled n k w) {e : Event} (henabled : w.Enabled e) :
    Entered (w.step e) := by
  cases e with
  | accept a =>
    rcases onLocalConnection_cases w a with heq | ⟨hdestroyed, heq⟩
    · rw [heq]
      exact ⟨h.unborn, h.entry⟩
    · rw [heq]
      have hcounted : Entered { w with accepted := w.accepted + 1 } := ⟨h.unborn, h.entry⟩
      refine hcounted.born (born_dial (w := { w with accepted := w.accepted + 1 }) hdestroyed _ a)
        fun key c hc ↦ Or.inl ?_
      rw [(dial_tcp { id := w.accepted } a).2] at hc
      exact hc
  | recv addr r a =>
    cases r with
    | datagram data =>
      obtain ⟨hentered, -⟩ := h.clientFor addr a
      rcases h.recvCb_cases hs addr data a with ⟨-, heq⟩ | ⟨c, y, -, hc, heq, hmoves, -⟩
      · rw [heq]
        exact hentered
      · rw [heq]
        exact hentered.put (hentered.entry _ c hc).2.1.held hmoves
    | _ => exact h
  | connected i error found a =>
    obtain ⟨hheld, hmoves⟩ := moves_connectCb hs henabled
    exact h.put hheld hmoves
  | conn i e =>
    obtain ⟨hheld, hmoves⟩ := moves_step hs henabled
    have hstep := h.put hheld hmoves
    cases e with
    | streamData data a =>
      change Entered (w.streamDataCb i data a)
      unfold streamDataCb
      split_ifs
      · exact h.onStreamData hs _ i data a
      · exact hstep
    | _ => exact hstep
  | destroy answers => exact h.destroy answers

/-- From `w` to `w'`, a connection that was made keeps what it was made for. -/
structure Grows (w w' : Connections) : Prop where
  nextId : w.nextId ≤ w'.nextId
  conn : ∀ i < w.nextId, (w'.conns i).udp = (w.conns i).udp ∧
    (w'.conns i).clientId = (w.conns i).clientId

section Grows

variable {w' w'' : Connections}

theorem grows_of_conns (hnext : w'.nextId = w.nextId) (hconns : w'.conns = w.conns) :
    Grows w w' := ⟨Nat.le_of_eq hnext.symm, fun _ _ ↦ by rw [hconns]; exact ⟨rfl, rfl⟩⟩

theorem Grows.trans (h : Grows w w') (h' : Grows w' w'') : Grows w w'' := by
  refine ⟨h.nextId.trans h'.nextId, fun i hlt ↦ ?_⟩
  obtain ⟨hudp, hid⟩ := h.conn i hlt
  obtain ⟨hudp', hid'⟩ := h'.conn i (Nat.lt_of_lt_of_le hlt h.nextId)
  exact ⟨hudp'.trans hudp, hid'.trans hid⟩

theorem grows_put {y : Ctx} (hudp : y.conn.udp = (w.conns i).udp)
    (hid : y.conn.clientId = (w.conns i).clientId) : Grows w (w.put i y) := by
  refine ⟨Nat.le_refl _, fun j _ ↦ ?_⟩
  rcases eq_or_ne j i with rfl | hne
  · rw [conns_put_self]
    exact ⟨hudp, hid⟩
  · rw [conns_put_of_ne _ hne]
    exact ⟨rfl, rfl⟩

theorem Moves.grows {y : Ctx} (h : w.Moves i y) : Grows w (w.put i y) :=
  grows_put h.frame.udp h.frame.clientId

theorem Born.grows (h : Born w w') : Grows w w' := by
  refine ⟨h.nextId ▸ Nat.le_succ _, fun j hlt ↦ ?_⟩
  rw [h.conns j (Nat.ne_of_lt hlt)]
  exact ⟨rfl, rfl⟩

theorem grows_clientFor (addr : SockAddr) (a : Answers) :
    Grows w (UdpProxy.clientFor (proxyHost a) addr w).2 := by
  rcases clientFor_cases w addr a with ⟨c, -, heq⟩ | heq |
    ⟨-, hdestroyed, ⟨-, heq⟩ | ⟨hconnect, heq⟩⟩
  · rw [heq]
    exact grows_of_conns rfl rfl
  · rw [heq]
    exact grows_of_conns rfl rfl
  · rw [heq]
    exact (born_dial hdestroyed _ a).grows
  · rw [heq]
    exact (born_enrol hdestroyed (clientKey addr) hconnect _).1.grows

theorem grows_onStreamData (key : Bytes) (source : ℕ) (data : Bytes) (a : Answers) :
    Grows w (UdpProxy.onStreamData (proxyHost a) key source data w) := by
  rcases onStreamData_cases key source data a w with heq | ⟨c, -, c', p, -, -, -, heq | heq⟩
  · rw [heq]
    exact grows_of_conns rfl rfl
  · rw [heq]
    exact grows_of_conns rfl rfl
  · have hframe := Ctx.allows_frame.close (Ctx.allows_frame.streamClose a) a
      ⟨w.conns c.stream, p.erase key⟩
    rw [heq]
    exact grows_put hframe.udp hframe.clientId

theorem grows_destroy (answers : ℕ → Answers) : Grows w (w.destroy answers) := by
  cases hdestroyed : w.destroyed with
  | true =>
    rw [destroy, if_pos hdestroyed]
    exact grows_of_conns rfl rfl
  | false =>
    obtain ⟨hnext, -, -, hconns⟩ := shut_destroy hdestroyed answers
    refine ⟨Nat.le_of_eq hnext.symm, fun j _ ↦ ?_⟩
    rcases hconns j with ⟨-, hsame⟩ | ⟨-, p, hshut⟩
    · rw [hsame]
      exact ⟨rfl, rfl⟩
    · have hframe := Ctx.allows_frame.shutdownConn (Ctx.allows_frame.streamClose (answers j))
        (answers j) ⟨w.conns j, p⟩
      rw [hshut]
      exact ⟨hframe.udp, hframe.clientId⟩

theorem grows_step (h : Entered w) (hs : Settled n k w) {e : Event} (henabled : w.Enabled e) :
    Grows w (w.step e) := by
  cases e with
  | accept a =>
    rcases onLocalConnection_cases w a with heq | ⟨hdestroyed, heq⟩
    · rw [heq]
      exact grows_of_conns rfl rfl
    · rw [heq]
      have hcounted : Grows w { w with accepted := w.accepted + 1 } := grows_of_conns rfl rfl
      exact hcounted.trans
        (born_dial (w := { w with accepted := w.accepted + 1 }) hdestroyed _ a).grows
  | recv addr r a =>
    cases r with
    | datagram data =>
      have hfound := grows_clientFor (w := w) addr a
      rcases h.recvCb_cases hs addr data a with ⟨-, heq⟩ | ⟨c, y, -, -, heq, hmoves, -⟩
      · rw [heq]
        exact hfound
      · rw [heq]
        exact hfound.trans hmoves.grows
    | _ => exact grows_of_conns rfl rfl
  | connected i error found a => exact (moves_connectCb hs henabled).2.grows
  | conn i e =>
    have hstep := (moves_step hs henabled).2.grows
    cases e with
    | streamData data a =>
      change Grows w (w.streamDataCb i data a)
      unfold streamDataCb
      split_ifs
      · exact grows_onStreamData _ i data a
      · exact hstep
    | _ => exact hstep
  | destroy answers => exact grows_destroy answers

end Grows

theorem entered_listening (dht : Bool) : Entered (listening dht) :=
  ⟨fun _ _ ↦ rfl, fun _ c hc ↦ absurd hc.symm (Option.some_ne_none c)⟩

end Step

end Connections

end HolesailClient

end Holesail
