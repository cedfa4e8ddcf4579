import Holesail.Client.Entries

/-!
# Isolation between the streams of one address

The proxy finds a stream by the text of the address its datagrams come from, and so do the stream's
data and its close find their way back: by that text alone, not by the stream they came from. As
long as one address never has two connections at a time, that is as good as being told apart by
stream.

It is not so when a stream is closed because a write on it failed, or because the peer sent a frame
that is no datagram: the entry is erased at once, the stream is only asked to close. A datagram that
arrives in between opens a second stream for the same address, and what the first one still has to
say then reaches the entry of the second.
-/

namespace Holesail

namespace HolesailClient

namespace Connections

open Run Conn

/-! ## What isolation means -/

/-- Every decoder was only fed by the stream of its own client; and every source of datagrams whose
stream hyperdht has, and that nobody asked to close, has its entry. -/
structure Isolated (w : Connections) : Prop where
  sources : ∀ key c, w.proxy.clients key = some c → ∀ s ∈ c.sources, s = c.stream
  entry : ∀ i, (w.conns i).udp = true → (w.conns i).live = true →
    StreamCall.close ∉ (w.conns i).calls →
      ∃ c, w.proxy.clients (w.conns i).clientId = some c ∧ c.stream = i

/-- From `w` to `w'`, the entries of all streams but `i` are left alone. -/
def Spares (i : ℕ) (w w' : Connections) : Prop :=
  ∀ key c, w.proxy.clients key = some c → c.stream ≠ i → w'.proxy.clients key = some c

/-- What happens to one stream is none of the others' concern: nor is a datagram from one address
that of the others. -/
def Isolates (w : Connections) : Event → Prop
  | .accept a => (w.step (.accept a)).proxy.clients = w.proxy.clients
  | .recv addr r a => ∀ key, key ≠ clientKey addr →
      (w.step (.recv addr r a)).proxy.clients key = w.proxy.clients key
  | .connected i error found a => Spares i w (w.step (.connected i error found a))
  | .conn i e => Spares i w (w.step (.conn i e))
  | .destroy _ => True

/-- No datagram arrives, without an entry, from an address that a connection still carries. -/
def Vacant (w : Connections) : Event → Prop
  | .recv addr (.datagram _) _ => w.proxy.clients (clientKey addr) = none →
      ∀ i < w.nextId, ¬(w.conns i).Carries (clientKey addr)
  | _ => True

instance (w : Connections) : (e : Event) → Decidable (Vacant w e)
  | .recv _ (.datagram _) _ => inferInstanceAs (Decidable (_ = none → ∀ i < w.nextId, _))
  | .recv _ .endOfPass _ => inferInstanceAs (Decidable True)
  | .recv _ .error _ => inferInstanceAs (Decidable True)
  | .recv _ .noAddr _ => inferInstanceAs (Decidable True)
  | .recv _ (.truncated _) _ => inferInstanceAs (Decidable True)
  | .accept _ => inferInstanceAs (Decidable True)
  | .connected _ _ _ _ => inferInstanceAs (Decidable True)
  | .conn _ _ => inferInstanceAs (Decidable True)
  | .destroy _ => inferInstanceAs (Decidable True)

/-- hyperdht fires no `on_close` from inside `hyperdht_stream_close`. -/
def Later : Event → Prop
  | .accept a => a.sync = false
  | .recv _ _ a => a.sync = false
  | .connected _ _ _ a => a.sync = false
  | .conn _ (.streamOpen a) => a.sync = false
  | .conn _ (.streamData _ a) => a.sync = false
  | .conn _ .streamClose => True
  | .conn _ (.drained _ a) => a.sync = false
  | .conn _ (.read _ a) => a.sync = false
  | .conn _ (.written _ a) => a.sync = false
  | .conn _ .closed => True
  | .destroy answers => ∀ i, (answers i).sync = false

/-- `Vacant`, for one address. -/
def VacantAt (key : Bytes) (w : Connections) : Event → Prop
  | .recv addr (.datagram _) _ => clientKey addr = key → w.proxy.clients key = none →
      ∀ i < w.nextId, ¬(w.conns i).Carries key
  | _ => True

instance (key : Bytes) (w : Connections) : (e : Event) → Decidable (VacantAt key w e)
  | .recv _ (.datagram _) _ => inferInstanceAs (Decidable (_ = _ → _ = none → ∀ i < w.nextId, _))
  | .recv _ .endOfPass _ => inferInstanceAs (Decidable True)
  | .recv _ .error _ => inferInstanceAs (Decidable True)
  | .recv _ .noAddr _ => inferInstanceAs (Decidable True)
  | .recv _ (.truncated _) _ => inferInstanceAs (Decidable True)
  | .accept _ => inferInstanceAs (Decidable True)
  | .connected _ _ _ _ => inferInstanceAs (Decidable True)
  | .conn _ _ => inferInstanceAs (Decidable True)
  | .destroy _ => inferInstanceAs (Decidable True)

theorem Vacant.at {w : Connections} {e : Event} (h : Vacant w e) (key : Bytes) :
    VacantAt key w e := by
  cases e with
  | recv addr r a =>
    cases r with
    | datagram data =>
      rintro rfl
      exact h
    | _ => trivial
  | _ => trivial

/-! ## The invariant -/

/-- At most one connection carries the datagrams of an address, and the entry of that address is
there as long as that connection serves it. -/
structure Apart (key : Bytes) (w : Connections) : Prop extends Entered w where
  unique : ∀ i j, (w.conns i).Carries key → (w.conns j).Carries key → i = j
  sources : ∀ c, w.proxy.clients key = some c → ∀ s ∈ c.sources, s = c.stream
  served : w.destroyed = false → ∀ i, (w.conns i).udp = true → (w.conns i).clientId = key →
    (w.conns i).Serving → ∃ c, w.proxy.clients key = some c ∧ c.stream = i
  ended : w.destroyed = true → ∀ i, (w.conns i).udp = true → (w.conns i).clientId = key →
    (w.conns i).Quiet

variable {w : Connections} {key : Bytes}

/-- The entry of the address belongs to the connection that carries its datagrams. -/
theorem Apart.stream_eq (h : Apart key w) {i : ℕ} {c : UdpProxy.Client}
    (hc : w.proxy.clients key = some c) (hi : (w.conns i).Carries key) : c.stream = i :=
  h.unique _ _ (h.entry key c hc).2.1 hi

theorem Apart.entry_of_live (h : Apart key w) {i : ℕ} (hsound : (w.conns i).Sound)
    (hexact : (w.conns i).Exact) (hudp : (w.conns i).udp = true) (hid : (w.conns i).clientId = key)
    (hlive : (w.conns i).live = true) (hclose : StreamCall.close ∉ (w.conns i).calls) :
    ∃ c, w.proxy.clients key = some c ∧ c.stream = i := by
  have hstream : (w.conns i).stream = true := hsound.live.symm.trans hlive
  cases hdestroyed : w.destroyed with
  | false => exact h.served hdestroyed i hudp hid ⟨hexact.held_of_stream hstream, hclose⟩
  | true => exact absurd (h.ended hdestroyed i hudp hid hstream) hclose

/-- **The invariant is isolation**, if it holds of every address. -/
theorem isolated_of_apart (h : ∀ key, Apart key w) (hsound : ∀ i, (w.conns i).Sound)
    (hexact : ∀ i, (w.conns i).Exact) : Isolated w :=
  ⟨fun key ↦ (h key).sources, fun i hudp ↦
    (h (w.conns i).clientId).entry_of_live (hsound i) (hexact i) hudp rfl⟩

/-! ## One connection moves -/

section Moves

variable {i : ℕ} {y : Ctx}

/-- The entries of the others stay: that of its own address is its own. -/
theorem Moves.spares (hmoves : w.Moves i y) (h : Apart (w.conns i).clientId w) :
    Spares i w (w.put i y) := by
  intro key c hc hne
  change y.proxy.clients key = some c
  rcases hmoves.frame.clients with hsame | ⟨hudp, -⟩
  · rw [hsame]
    exact hc
  · rcases hmoves.udp hudp with hstays | hparts
    · rw [hstays.clients]
      exact hc
    · have hkey : key ≠ (w.conns i).clientId := by
        rintro rfl
        exact hne (h.stream_eq hc ⟨hparts.held, hudp, rfl⟩)
      rw [hmoves.clients_of_ne hkey]
      exact hc

/-- **The invariant follows a connection.** -/
theorem Apart.put (h : Apart key w) (hheld : (w.conns i).held = true) (hmoves : w.Moves i y) :
    Apart key (w.put i y) := by
  -- The entry goes only if the connection was for the address.
  have hkept : ∀ c, w.proxy.clients key = some c → c.stream ≠ i →
      y.proxy.clients key = some c := by
    intro c hc hne
    rcases eq_or_ne key (w.conns i).clientId with rfl | hkey
    · exact hmoves.spares h _ c hc hne
    · exact (hmoves.clients_of_ne hkey).trans hc
  refine ⟨h.toEntered.put hheld hmoves, fun j k hj hk ↦ ?_,
    fun c hc ↦ h.sources c (hmoves.clients_of_some hc), fun hdestroyed j hudp hid hj ↦ ?_,
    fun hdestroyed j hudp hid ↦ ?_⟩
  · exact h.unique j k (hmoves.carries hj) (hmoves.carries hk)
  · rcases eq_or_ne j i with rfl | hne
    · rw [conns_put_self] at hudp hid hj
      have hudp' := hmoves.frame.udp.symm.trans hudp
      have hid' := hmoves.frame.clientId.symm.trans hid
      rcases hmoves.udp hudp' with hstays | hparts
      · obtain ⟨c, hc, hstream⟩ := h.served hdestroyed j hudp' hid' (hstays.serving.mp hj)
        refine ⟨c, ?_, hstream⟩
        change y.proxy.clients _ = _
        rw [hstays.clients]
        exact hc
      · exact absurd hj hparts.serving
    · rw [conns_put_of_ne _ hne] at hudp hid hj
      obtain ⟨c, hc, hstream⟩ := h.served hdestroyed j hudp hid hj
      exact ⟨c, hkept c hc (hstream ▸ hne), hstream⟩
  · rcases eq_or_ne j i with rfl | hne
    · rw [conns_put_self] at hudp hid ⊢
      have hudp' := hmoves.frame.udp.symm.trans hudp
      have hid' := hmoves.frame.clientId.symm.trans hid
      rcases hmoves.udp hudp' with hstays | hparts
      · exact hstays.quiet hdestroyed (h.ended hdestroyed j hudp' hid')
      · exact Ctx.quiet_of_not_serving hmoves.exact hparts.serving
    · rw [conns_put_of_ne _ hne] at hudp hid ⊢
      exact h.ended hdestroyed j hudp hid

theorem Apart.erased (h : Apart key w) {key' : Bytes} (hne : key ≠ key') {p : UdpProxy}
    (hp : p.clients = Function.update w.proxy.clients key' none) :
    Apart key { w with proxy := p } := by
  have hsame : p.clients key = w.proxy.clients key := by
    rw [hp, Function.update_of_ne hne]
  exact ⟨h.toEntered.erased hp, h.unique, fun c hc ↦ h.sources c (hsame.symm.trans hc),
    fun hdestroyed i hudp hid hi ↦ (h.served hdestroyed i hudp hid hi).imp fun _ hc ↦
      hc.imp_left hsame.trans, h.ended⟩

end Moves

/-! ## A connection is made -/

/-- **The invariant survives a new connection**, which is the only one for the address if it is for
it, and comes with its entry if it serves. -/
theorem Apart.born {w' : Connections} (h : Apart key w) (hborn : Born w w') (hentered : Entered w')
    (hunique : (w'.conns w.nextId).Carries key → ∀ j < w.nextId, ¬(w.conns j).Carries key)
    (hclients : ∀ c, w'.proxy.clients key = some c → w.proxy.clients key = some c ∨
      c.sources = [])
    (hkept : ∀ c, w.proxy.clients key = some c → w'.proxy.clients key = some c)
    (hserved : (w'.conns w.nextId).udp = true → (w'.conns w.nextId).clientId = key →
      (w'.conns w.nextId).Serving →
        ∃ c, w'.proxy.clients key = some c ∧ c.stream = w.nextId) :
    Apart key w' := by
  refine ⟨hentered, fun j k hj hk ↦ ?_, fun c hc s hs ↦ ?_, fun _ j hudp hid hj ↦ ?_,
    fun hfalse ↦ ?_⟩
  -- Two for one address: either is old, and two old ones were told apart before.
  · rcases eq_or_ne j w.nextId with rfl | hjne
    · rcases eq_or_ne k w.nextId with rfl | hkne
      · rfl
      · rw [hborn.conns k hkne] at hk
        exact absurd hk (hunique hj k (h.lt_nextId hk.held))
    · rw [hborn.conns j hjne] at hj
      rcases eq_or_ne k w.nextId with rfl | hkne
      · exact absurd hj (hunique hk j (h.lt_nextId hj.held))
      · rw [hborn.conns k hkne] at hk
        exact h.unique j k hj hk
  · rcases hclients c hc with hold | hnew
    · exact h.sources c hold s hs
    · rw [hnew] at hs
      exact absurd hs List.not_mem_nil
  · rcases eq_or_ne j w.nextId with rfl | hne
    · exact hserved hudp hid hj
    · rw [hborn.conns j hne] at hudp hid hj
      obtain ⟨c, hc, hstream⟩ := h.served hborn.destroyed.1 j hudp hid hj
      exact ⟨c, hkept c hc, hstream⟩
  · exact absurd (hborn.destroyed.2.symm.trans hfalse) Bool.false_ne_true

theorem Apart.accept (h : Apart key w) {a : Answers} (hentered : Entered (w.step (.accept a))) :
    Apart key (w.step (.accept a)) := by
  rcases onLocalConnection_cases w a with heq | ⟨hdestroyed, heq⟩
  · rw [heq] at hentered ⊢
    exact ⟨hentered, h.unique, h.sources, h.served, h.ended⟩
  · have hcounted : Apart key { w with accepted := w.accepted + 1 } :=
      ⟨⟨h.unborn, h.toEntered.entry⟩, h.unique, h.sources, h.served, h.ended⟩
    obtain ⟨hudp, hclients⟩ :=
      dial_tcp (w := { w with accepted := w.accepted + 1 }) { id := w.accepted } a
    rw [heq] at hentered ⊢
    refine hcounted.born (born_dial (w := { w with accepted := w.accepted + 1 }) hdestroyed _ a)
      hentered ?_ ?_ ?_ ?_
    · intro hcarries
      exact absurd (hudp.symm.trans hcarries.udp) Bool.false_ne_true
    · intro c hc
      rw [hclients] at hc
      exact Or.inl hc
    · intro c hc
      rw [hclients]
      exact hc
    · intro hudp'
      exact absurd (hudp.symm.trans hudp') Bool.false_ne_true

theorem clients_accept (w : Connections) (a : Answers) :
    (w.step (.accept a)).proxy.clients = w.proxy.clients := by
  rcases onLocalConnection_cases w a with heq | ⟨-, heq⟩
  · rw [heq]
  · rw [heq]
    exact (dial_tcp (w := { w with accepted := w.accepted + 1 }) { id := w.accepted } a).2

/-! ## Datagrams, in both directions -/

section Datagrams

variable {n : ℕ → ℕ} {k i : ℕ}

/-- **A datagram finds its client**, or a new one, unless there is no stream to be had. -/
theorem Apart.clientFor (h : Apart key w) {addr : SockAddr} (a : Answers)
    (hvacant : clientKey addr = key → w.proxy.clients key = none →
      ∀ i < w.nextId, ¬(w.conns i).Carries key) :
    Apart key (UdpProxy.clientFor (proxyHost a) addr w).2 := by
  obtain ⟨hentered, -⟩ := h.toEntered.clientFor addr a
  -- Found; or nothing to dial with; or dialled, which fails at once or does not.
  rcases clientFor_cases w addr a with ⟨c, -, heq⟩ | heq |
    ⟨hnone, hdestroyed, ⟨hconnect, heq⟩ | ⟨hconnect, heq⟩⟩
  · rw [heq]
    exact h
  · rw [heq]
    exact h
  -- The dial failed at once, and the connection that was made never serves.
  · obtain ⟨hserving, hclients⟩ := dial_udp_failed hnone hconnect
    have hframe := frame_dial (w := w) { udp := true, clientId := clientKey addr } a
    rw [heq] at hentered ⊢
    refine h.born (born_dial hdestroyed _ a) hentered ?_ ?_ ?_ ?_
    · intro hcarries
      obtain rfl : clientKey addr = key := hframe.clientId.symm.trans hcarries.clientId
      exact hvacant rfl hnone
    · intro c hc
      rw [hclients] at hc
      exact Or.inl hc
    · intro c hc
      rw [hclients]
      exact hc
    · intro _ _ hserving'
      exact absurd hserving' hserving
  · obtain ⟨hborn, hself, hclients⟩ :=
      born_enrol hdestroyed (clientKey addr) hconnect { stream := w.nextId, addr := addr }
    rw [heq] at hentered ⊢
    refine h.born hborn hentered ?_ ?_ ?_ ?_
    · intro hcarries
      have hid := hcarries.clientId
      rw [hself] at hid
      obtain rfl : clientKey addr = key := hid
      exact hvacant rfl hnone
    · intro c hc
      rw [hclients] at hc
      rcases eq_or_ne key (clientKey addr) with heq | hne
      · rw [heq, Function.update_self] at hc
        obtain rfl := Option.some.inj hc
        exact Or.inr rfl
      · rw [Function.update_of_ne hne] at hc
        exact Or.inl hc
    · intro c hc
      have hne : key ≠ clientKey addr := by
        intro heq
        rw [heq] at hc
        exact absurd (hnone.symm.trans hc) (Option.some_ne_none c).symm
      rw [hclients, Function.update_of_ne hne]
      exact hc
    · intro _ hid _
      rw [hself] at hid
      obtain rfl : clientKey addr = key := hid
      refine ⟨{ stream := w.nextId, addr := addr }, ?_, rfl⟩
      rw [hclients, Function.update_self]

theorem Apart.recv (h : Apart key w) (hs : Settled n k w) (addr : SockAddr) (r : Recv) (a : Answers)
    (hvacant : VacantAt key w (.recv addr r a)) : Apart key (w.step (.recv addr r a)) := by
  cases r with
  | datagram data =>
    have hapart := h.clientFor a hvacant
    rcases h.recvCb_cases hs addr data a with ⟨-, heq⟩ | ⟨c, y, -, hc, heq, hmoves, -⟩
    · rw [heq]
      exact hapart
    · rw [heq]
      exact hapart.put (hapart.toEntered.entry _ c hc).2.1.held hmoves
  | _ => exact h

theorem Entered.isolates_recv (h : Entered w) (hs : Settled n k w) (addr : SockAddr) (r : Recv)
    (a : Answers) : Isolates w (.recv addr r a) := by
  cases r with
  | datagram data =>
    obtain ⟨hentered, -, hsame⟩ := h.clientFor addr a
    rcases h.recvCb_cases hs addr data a with ⟨-, heq⟩ | ⟨c, y, -, hc, heq, hmoves, -⟩
    · rw [Isolates, heq]
      exact hsame
    · obtain ⟨-, hcarries, -⟩ := hentered.entry _ c hc
      rw [Isolates, heq]
      intro key hne
      rw [← hsame key hne]
      refine hmoves.clients_of_ne ?_
      rw [hcarries.clientId]
      exact hne
  | _ => exact fun _ _ ↦ rfl

theorem Apart.fed (h : Apart key w) {key' : Bytes} {c c' : UdpProxy.Client}
    (hc : w.proxy.clients key' = some c) (hstream : c'.stream = c.stream)
    (hsources : key' = key → c'.sources = c.sources ++ [c.stream]) {p : UdpProxy}
    (hp : p.clients = Function.update w.proxy.clients key' (some c')) :
    Apart key { w with proxy := p } := by
  refine ⟨h.toEntered.fed hc hstream hp, h.unique, fun d hd s hs ↦ ?_,
    fun hdestroyed i hudp hid hserving ↦ ?_, h.ended⟩
  · change p.clients key = some d at hd
    rw [hp] at hd
    rcases eq_or_ne key key' with rfl | hne
    · rw [Function.update_self] at hd
      obtain rfl := Option.some.inj hd
      rw [hsources rfl, List.mem_append, List.mem_singleton] at hs
      rw [hstream]
      exact hs.elim (h.sources c hc s) id
    · rw [Function.update_of_ne hne] at hd
      exact h.sources d hd s hs
  · obtain ⟨d, hd, hi⟩ := h.served hdestroyed i hudp hid hserving
    change ∃ d, p.clients key = some d ∧ _
    rw [hp]
    rcases eq_or_ne key key' with rfl | hne
    · obtain rfl := Option.some.inj (hc.symm.trans hd)
      exact ⟨c', by rw [Function.update_self], hstream.trans hi⟩
    · exact ⟨d, by rw [Function.update_of_ne hne]; exact hd, hi⟩

/-- **Bytes arrive on the stream of a source of datagrams.** If the stream is for the address, they
only reach its own decoder. -/
theorem Apart.onStreamData (h : Apart key w) (hs : Settled n k w)
    (hcarries : (w.conns i).Carries (w.conns i).clientId)
    (hstream : (w.conns i).stream = true) (data : Bytes) (a : Answers) :
    Apart key (UdpProxy.onStreamData (proxyHost a) (w.conns i).clientId i data w) := by
  rcases onStreamData_cases (w.conns i).clientId i data a w with heq |
    ⟨c, hc, c', p, hsame, hsources, hp, heq | heq⟩
  · rw [heq]
    exact h
  · rw [heq]
    refine h.fed hc hsame ?_ hp
    rintro rfl
    rw [hsources, h.stream_eq hc hcarries]
  · obtain ⟨-, hserves, -⟩ := h.toEntered.entry _ c hc
    rw [heq]
    rcases h.give_up_cases hs hc hp a with ⟨-, hmoves⟩ | ⟨hgone, hput⟩
    · exact h.put hserves.held hmoves
    · -- The stream of the address is there, so this is another one.
      rw [hput]
      have hne : key ≠ (w.conns i).clientId := by
        rintro rfl
        rw [h.stream_eq hc hcarries] at hgone
        exact absurd (hgone.symm.trans hstream) Bool.false_ne_true
      exact h.erased hne (clients_erase_of_update hp)

theorem Apart.spares_onStreamData (h : Apart (w.conns i).clientId w) (hs : Settled n k w)
    (hcarries : (w.conns i).Carries (w.conns i).clientId)
    (hstream : (w.conns i).stream = true) (data : Bytes) (a : Answers) :
    Spares i w (UdpProxy.onStreamData (proxyHost a) (w.conns i).clientId i data w) := by
  rcases onStreamData_cases (w.conns i).clientId i data a w with heq |
    ⟨c, hc, c', p, -, -, hp, heq | heq⟩
  · rw [heq]
    exact fun _ _ hc _ ↦ hc
  · obtain rfl : c.stream = i := h.stream_eq hc hcarries
    rw [heq]
    intro key d hd hne
    have hkey : key ≠ (w.conns c.stream).clientId := by
      rintro rfl
      obtain rfl := Option.some.inj (hd.symm.trans hc)
      exact hne rfl
    change p.clients key = some d
    rw [hp, Function.update_of_ne hkey]
    exact hd
  · obtain rfl : c.stream = i := h.stream_eq hc hcarries
    rw [heq]
    rcases h.give_up_cases hs hc hp a with ⟨-, hmoves⟩ | ⟨hgone, -⟩
    · exact hmoves.spares h
    · exact absurd (hgone.symm.trans hstream) Bool.false_ne_true

end Datagrams

/-! ## Every event -/

section Step

variable {n : ℕ → ℕ} {k : ℕ}

/-- **The client is destroyed**: no entry is left, and no stream that was not asked to close. -/
theorem Apart.destroy (h : Apart key w) (hs : Settled n k w) (answers : ℕ → Answers) :
    Apart key (w.destroy answers) := by
  cases hdestroyed : w.destroyed with
  | true =>
    rw [Connections.destroy, if_pos hdestroyed]
    exact h
  | false =>
    have hentered := h.toEntered.destroy answers
    obtain ⟨-, hgone, hclients, hconns⟩ := shut_destroy hdestroyed answers
    -- A teardown makes nothing serve that did not serve before.
    have hcarries : ∀ i, ((w.destroy answers).conns i).Carries key → (w.conns i).Carries key := by
      intro i hi
      rcases hconns i with ⟨-, hsame⟩ | ⟨-, p, hshut⟩
      · rw [hsame] at hi
        exact hi
      · rw [hshut] at hi
        exact (Ctx.allows_frame.shutdownConn (Ctx.allows_frame.streamClose _) _
          ⟨w.conns i, p⟩).carries hi
    refine ⟨hentered, fun i j hi hj ↦ ?_, fun c hc ↦ ?_, fun hfalse ↦ ?_, fun _ i hudp _ ↦ ?_⟩
    · exact h.unique i j (hcarries i hi) (hcarries j hj)
    · exact absurd (hc.symm.trans (hclients key rfl)) (Option.some_ne_none c)
    · exact absurd ((show _ = true from hgone).symm.trans hfalse) (by decide)
    · rcases hconns i with ⟨hnot, hsame⟩ | ⟨-, p, hshut⟩
      · rw [hsame]
        intro hstream
        have hheld := (hs.exact i).held_of_stream hstream
        exact absurd (mem_live.mpr ⟨h.lt_nextId hheld, hheld⟩) hnot
      · have hframe := Ctx.allows_frame.shutdownConn (Ctx.allows_frame.streamClose (answers i))
          (answers i) ⟨w.conns i, p⟩
        rw [hshut] at hudp ⊢
        exact Ctx.shutdownConn_quiet (x := ⟨w.conns i, p⟩) (hs.sound i) (hs.exact i)
          (hframe.udp.symm.trans hudp)

theorem Apart.step (h : Apart key w) (hs : Settled n k w) {e : Event} (henabled : w.Enabled e)
    (hvacant : w.VacantAt key e) : Apart key (w.step e) := by
  cases e with
  | accept a => exact h.accept (h.toEntered.step hs henabled)
  | recv addr r a => exact h.recv hs addr r a hvacant
  | connected i error found a =>
    obtain ⟨hheld, hmoves⟩ := moves_connectCb hs henabled
    exact h.put hheld hmoves
  | conn i e =>
    obtain ⟨hheld, hmoves⟩ := moves_step hs henabled
    have hstep := h.put hheld hmoves
    cases e with
    | streamData data a =>
      change Apart key (w.streamDataCb i data a)
      unfold streamDataCb
      split_ifs with hroute
      · exact h.onStreamData hs ⟨hroute.1, hroute.2, rfl⟩
          ((hs.sound i).live.symm.trans henabled.1) data a
      · exact hstep
    | _ => exact hstep
  | destroy answers => exact h.destroy hs answers

theorem isolates_of_apart (h : ∀ key, Apart key w) (hs : Settled n k w) {e : Event}
    (henabled : w.Enabled e) : Isolates w e := by
  cases e with
  | accept a => exact clients_accept w a
  | recv addr r a => exact (h []).isolates_recv hs addr r a
  | connected i error found a => exact (moves_connectCb hs henabled).2.spares (h _)
  | conn i e =>
    have hspares := (moves_step hs henabled).2.spares (h _)
    cases e with
    | streamData data a =>
      change Spares i w (w.streamDataCb i data a)
      unfold streamDataCb
      split_ifs with hroute
      · exact (h _).spares_onStreamData hs ⟨hroute.1, hroute.2, rfl⟩
          ((hs.sound i).live.symm.trans henabled.1) data a
      · exact hspares
    | _ => exact hspares
  | destroy answers => trivial

theorem apart_listening (dht : Bool) (key : Bytes) : Apart key (listening dht) := by
  refine ⟨entered_listening dht, fun i j hi ↦ ?_, fun c hc ↦ ?_, fun _ i hudp ↦ ?_,
    fun hfalse ↦ ?_⟩
  · exact absurd hi.held Bool.false_ne_true
  · exact absurd hc.symm (Option.some_ne_none c)
  · exact absurd hudp Bool.false_ne_true
  · exact absurd hfalse Bool.false_ne_true

end Step

/-- **The streams of one address are kept apart**, as long as no datagram arrives from an address
whose entry is gone but whose connection is not: each decoder is only fed by its own stream, no
event of one stream touches the entry of another, and no open stream is left without its entry. -/
theorem streams_apart (dht : Bool) (es : List Event)
    (henabled : Along step Enabled (listening dht) es)
    (hvacant : Along step Vacant (listening dht) es) :
    Isolated (run step (listening dht) es) ∧ Along step Isolates (listening dht) es := by
  have hstep : ∀ v e, (∃ k, Settled (once k) k v ∧ ∀ key, Apart key v) →
      Enabled v e ∧ Vacant v e →
      ∃ k, Settled (once k) k (v.step e) ∧ ∀ key, Apart key (v.step e) := by
    rintro v e ⟨k, hs, h⟩ ⟨henabled, hvacant⟩
    obtain ⟨k', hs'⟩ := hs.step henabled
    exact ⟨k', hs', fun key ↦ (h key).step hs henabled (hvacant.at key)⟩
  have hstart : ∃ k, Settled (once k) k (listening dht) ∧ ∀ key, Apart key (listening dht) :=
    ⟨0, settled_listening dht, apart_listening dht⟩
  have halong := henabled.and hvacant
  obtain ⟨k, hs, h⟩ := invariant_of_along hstep hstart halong
  refine ⟨isolated_of_apart h hs.sound hs.exact, (along_of_invariant hstep hstart halong).imp ?_⟩
  rintro v e ⟨⟨k, hs, h⟩, henabled, -⟩
  exact isolates_of_apart h hs henabled

/-- The address that the datagrams come from. -/
def local5353 : SockAddr := ⟨(127, 0, 0, 1), 5353⟩

/-- A write fails on the first stream of an address, which closes before the next datagram comes. -/
def parted : List Event :=
  [.recv local5353 (.datagram [1]) {}, .connected 1 0 true {}, .conn 1 (.streamOpen {}),
    .recv local5353 (.datagram [2]) { write := -1 }, .conn 1 .streamClose,
    .recv local5353 (.datagram [3]) {}, .connected 2 0 true {}, .conn 2 (.streamOpen {})]

/-- The second stream has its entry. -/
theorem streams_apart_at :
    Isolated (run step (listening true) parted) ∧
      ((run step (listening true) parted).conns 2).live = true := by
  have hvacant : Along step Vacant (listening true) parted := by decide +kernel
  exact ⟨(streams_apart true parted (by decide +kernel) hvacant).1, by decide +kernel⟩

/-- The next datagram comes before the first stream has closed, and then that stream still has
something to say. -/
def crossed : List Event :=
  [.recv local5353 (.datagram [1]) {}, .connected 1 0 true {}, .conn 1 (.streamOpen {}),
    .recv local5353 (.datagram [2]) { write := -1 }, .recv local5353 (.datagram [3]) {},
    .connected 2 0 true {}, .conn 2 (.streamOpen {}), .conn 1 .streamClose]

/-- **The close of the first stream removes the entry of the second**, which is open. -/
theorem streams_crossed :
    ¬∀ dht es, Along step Enabled (listening dht) es → (∀ e ∈ es, Later e) →
      Isolated (run step (listening dht) es) ∧ Along step Isolates (listening dht) es := by
  intro h
  have hlater : ∀ e ∈ crossed, Later e := by
    simp [crossed, Later]
  obtain ⟨hisolated, -⟩ := h true crossed (by decide +kernel) hlater
  obtain ⟨c, hc, -⟩ := hisolated.entry 2 (by decide +kernel) (by decide +kernel)
    (by decide +kernel)
  have hgone : (run step (listening true) crossed).proxy.clients
      ((run step (listening true) crossed).conns 2).clientId = none := by decide +kernel
  exact Option.some_ne_none c (hc.symm.trans hgone)

end Connections

end HolesailClient

end Holesail
