import Holesail.Client.Entries
import Holesail.Tunnel.Framing

/-!
# Datagrams on the client's side

A source of datagrams as a gate of frames: `recv_cb` writes each datagram, as one frame, to the side
of the stream that serves its address, which buffers, drops or passes it on, and `on_stream_open`
flushes what was buffered. Everything else that happens to the connection, or to any other, leaves
what was buffered and what was written as it is.
-/

namespace Holesail

namespace HolesailClient

namespace Conn

/-- Before the stream opens, `data` would take `pending` past its limit. -/
def Overflows (c : Conn) (data : Bytes) : Prop :=
  c.streamOpen = false ∧ kMaxPendingBytes < c.pending.length + (frame data).length

instance (c : Conn) (data : Bytes) : Decidable (c.Overflows data) :=
  inferInstanceAs (Decidable (_ ∧ _))

/-- hyperdht accepted every write on the stream. -/
def Accepted (c : Conn) : Prop := ∀ data rc, StreamCall.write data rc ∈ c.calls → 0 ≤ rc

instance (c : Conn) : Decidable c.Accepted :=
  inferInstanceAs (Decidable (∀ data rc, StreamCall.write data rc ∈ c.calls → 0 ≤ rc))

namespace Ctx

/-! ## Callbacks that write nothing -/

/-- Nothing was buffered or written, and the stream has not opened. -/
structure Silent (x y : Ctx) : Prop where
  streamOpen : y.conn.streamOpen = x.conn.streamOpen
  pending : y.conn.pending = x.conn.pending
  connectPending : y.conn.connectPending = true → x.conn.connectPending = true
  calls : ∃ l, y.conn.calls = x.conn.calls ++ l ∧ written l = []

theorem silent_of_calls {x y : Ctx} (hopen : y.conn.streamOpen = x.conn.streamOpen)
    (hpending : y.conn.pending = x.conn.pending)
    (hdial : y.conn.connectPending = true → x.conn.connectPending = true)
    (hcalls : y.conn.calls = x.conn.calls) : Silent x y :=
  ⟨hopen, hpending, hdial, [], by rw [hcalls, List.append_nil], rfl⟩

theorem silent_refl (x : Ctx) : Silent x x := silent_of_calls rfl rfl id rfl

theorem Silent.trans {x y z : Ctx} (h : Silent x y) (h' : Silent y z) : Silent x z := by
  obtain ⟨l, hl, hnone⟩ := h.calls
  obtain ⟨l', hl', hnone'⟩ := h'.calls
  refine ⟨h'.streamOpen.trans h.streamOpen, h'.pending.trans h.pending,
    fun hdial ↦ h.connectPending (h'.connectPending hdial), l ++ l', ?_, ?_⟩
  · rw [hl', hl, List.append_assoc]
  · rw [written_append, hnone, hnone', List.append_nil]

theorem Silent.accepted {x y : Ctx} (h : Silent x y) (hy : y.conn.Accepted) : x.conn.Accepted := by
  obtain ⟨l, hl, -⟩ := h.calls
  intro data rc hmem
  refine hy data rc ?_
  rw [hl]
  exact List.mem_append_left l hmem

theorem Silent.written {x y : Ctx} (h : Silent x y) :
    written y.conn.calls = written x.conn.calls := by
  obtain ⟨l, hl, hnone⟩ := h.calls
  rw [hl, written_append, hnone, List.append_nil]

/-- But for the writes, no callback buffers or writes anything. -/
theorem allows_silent : AllowsLife Silent where
  refl := silent_refl
  trans := Silent.trans
  own := fun _ _ _ _ _ _ _ _ ↦ silent_of_calls rfl rfl id rfl
  dropClient := by
    intro x
    have hconn := conn_dropClient x
    exact silent_of_calls (congrArg Conn.streamOpen hconn) (congrArg Conn.pending hconn)
      (fun hdial ↦ hconn ▸ hdial) (congrArg Conn.calls hconn)
  pause := fun _ ↦ ⟨rfl, rfl, id, [.pause], rfl, rfl⟩
  resume := fun _ ↦ ⟨rfl, rfl, id, [.resume], rfl, rfl⟩
  closeLater := fun _ ↦ ⟨rfl, rfl, id, [.close], rfl, rfl⟩
  life := fun _ _ _ _ _ _ hdial ↦ silent_of_calls rfl rfl hdial rfl

section Callbacks

variable {a : Answers} {x : Ctx}

/-! ## Callbacks that write -/

/-- What was buffered and written agrees with a gate of frames; and what is still dialled has not
opened. -/
structure Fits (received forwarded : List Bytes) (c : Conn) : Prop where
  dialling : c.connectPending = true → c.streamOpen = false
  framed : Framed kMaxPendingBytes received forwarded c.streamOpen c.pending (written c.calls)

variable {received forwarded : List Bytes}

theorem Fits.silent {y : Ctx} (h : Fits received forwarded x.conn) (hsilent : Silent x y) :
    Fits received forwarded y.conn := by
  refine ⟨fun hdial ↦ hsilent.streamOpen.trans (h.dialling (hsilent.connectPending hdial)), ?_⟩
  rw [hsilent.streamOpen, hsilent.pending, hsilent.written]
  exact h.framed

/-- A source of datagrams in the table is dialled, or has its stream. -/
theorem stream_of_held (h : x.conn.Sound) (hexact : x.conn.Exact) (hheld : x.conn.held = true)
    (hudp : x.conn.udp = true) :
    x.conn.streamClosed = false ∧ (x.conn.connectPending = false → x.conn.stream = true) := by
  have hpinned := hexact.held.symm.trans hheld
  rw [pinned, (h.bare hudp).2, Option.isSome_none, Bool.false_and, Bool.or_false,
    Bool.or_eq_true] at hpinned
  rcases hpinned with hpending | hstream
  · refine ⟨(h.dialling hpending).2, fun hdialled ↦ ?_⟩
    exact absurd (hpending.symm.trans hdialled) (by decide)
  · exact ⟨h.stream hstream, fun _ ↦ hstream⟩

/-- A write, without an `on_drain`, of a connection that is not closed. -/
theorem write_eq (close : Ctx → Ctx) (data : Bytes) (hheld : x.conn.held = true)
    (hclosed : x.conn.streamClosed = false) :
    (makeSide close a).write data none x =
      if x.conn.stream = false ∨ x.conn.streamOpen = false then
        if kMaxPendingBytes < x.conn.pending.length + data.length then (1, x)
        else (1, x.modify fun c ↦ { c with pending := c.pending ++ data })
      else x.streamWrite a data := by
  refine if_neg ?_
  rw [hheld, hclosed]
  decide

theorem accepted_of_wrote {y : Ctx} {data : Bytes}
    (hwrote : Connections.Wrote a data x y) (hy : y.conn.Accepted) : x.conn.Accepted := by
  have hwritten : ∀ {z : Ctx}, z.conn = ((makeSide (streamClose a) a).write data none x).2.conn →
      z.conn.Accepted → x.conn.Accepted := by
    intro z hz hacc d rc hmem
    refine hacc d rc ?_
    rw [hz]
    simp only [makeSide]
    split_ifs
    · exact hmem
    · exact hmem
    · exact hmem
    · exact List.mem_append_left _ hmem
  rcases Int.lt_or_le ((makeSide (streamClose a) a).write data none x).1 0 with hrc | hrc
  · obtain ⟨p, hp⟩ := hwrote.2 hrc
    have hsilent : Silent ⟨((makeSide (streamClose a) a).write data none x).2.conn, p⟩ y := by
      rw [hp]
      exact allows_silent.close (allows_silent.streamClose a) a _
    exact hwritten (z := ⟨_, p⟩) rfl (hsilent.accepted hy)
  · rw [hwrote.1 hrc] at hy
    exact hwritten rfl hy

/-- **A datagram is written** to a stream that is dialled or there. -/
theorem Fits.write (h : Fits received forwarded x.conn) (hsound : x.conn.Sound)
    (hexact : x.conn.Exact) (hheld : x.conn.held = true) (hudp : x.conn.udp = true)
    {y : Ctx} {data : Bytes} (hwrote : Connections.Wrote a (frame data) x y)
    (haccepted : y.conn.Accepted) :
    Fits (received ++ [data])
      (forwarded ++ if x.conn.Overflows data then [] else [data]) y.conn := by
  obtain ⟨hclosed, hthere⟩ := stream_of_held hsound hexact hheld hudp
  obtain ⟨hdial, hframed⟩ := h
  have haccepts : (0 : ℤ) ≤ 1 := by decide
  simp only [Connections.Wrote, write_eq _ _ hheld hclosed] at hwrote
  cases hopen : x.conn.streamOpen with
  | false =>
    rw [hopen] at hframed
    rw [if_pos (Or.inr hopen)] at hwrote
    by_cases hfull : kMaxPendingBytes < x.conn.pending.length + (frame data).length
    · rw [if_pos hfull] at hwrote
      obtain rfl : y = x := hwrote.1 haccepts
      rw [if_pos ⟨hopen, hfull⟩, List.append_nil]
      refine ⟨hdial, ?_⟩
      rw [hopen]
      exact hframed.drop hfull
    · rw [if_neg hfull] at hwrote
      rw [if_neg fun hover ↦ hfull hover.2]
      obtain rfl := hwrote.1 haccepts
      refine ⟨hdial, ?_⟩
      change Framed _ _ _ x.conn.streamOpen _ _
      rw [hopen]
      exact hframed.buffer hfull
  | true =>
    have hdialled : x.conn.connectPending = false := by
      by_contra hpending
      rw [Bool.not_eq_false] at hpending
      exact absurd ((hdial hpending).symm.trans hopen) (by decide)
    have hnot : ¬x.conn.Overflows data := fun hover ↦
      absurd (hover.1.symm.trans hopen) (by decide)
    rw [hopen] at hframed
    rw [if_neg (by rw [hthere hdialled, hopen]; decide)] at hwrote
    rw [if_neg hnot]
    by_cases hrc : a.write < 0
    · -- The refused write would be on record.
      obtain ⟨p, hy⟩ := hwrote.2 hrc
      have hsilent : Silent ⟨(x.streamWrite a (frame data)).2.conn, p⟩ y := by
        rw [hy]
        exact allows_silent.close (allows_silent.streamClose a) a _
      have hmem := hsilent.accepted haccepted (frame data) a.write
        (List.mem_append_right _ (List.mem_singleton_self _))
      exact absurd hrc (Int.not_lt.mpr hmem)
    · obtain rfl := hwrote.1 (Int.not_lt.mp hrc)
      refine ⟨hdial, ?_⟩
      change Framed _ _ _ x.conn.streamOpen _ (Holesail.written (x.conn.calls ++ [_]))
      rw [hopen, written_append, written_write]
      exact hframed.through data

/-- **The stream opens**: what was buffered is flushed. -/
theorem fits_streamOpenCb (hsound : x.conn.Sound) (hexact : x.conn.Exact)
    (hlive : x.conn.live = true) (hudp : x.conn.udp = true)
    (haccepted : (x.streamOpenCb a).conn.Accepted) :
    x.conn.Accepted ∧ (Fits received forwarded x.conn →
      Fits received forwarded (x.streamOpenCb a).conn) := by
  have hstream : x.conn.stream = true := hsound.live.symm.trans hlive
  have hheld := hexact.held_of_stream hstream
  have hdialled := hsound.connectPending_of_stream hstream
  have hguard : ¬(x.conn.held = false ∨ x.conn.stream = false ∨ x.conn.streamClosed = true) := by
    rw [hheld, hstream, hsound.stream hstream]
    decide
  -- The dial is over, so the opening is not before its time.
  have hdial : ∀ opened, x.conn.connectPending = true → opened = false := fun _ hpending ↦
    absurd (hpending.symm.trans hdialled) (by decide)
  rw [Ctx.streamOpenCb, if_neg hguard] at haccepted ⊢
  -- With nothing buffered the flush writes nothing at all.
  by_cases hempty : x.conn.pending = []
  · have heq : onStreamOpen a x = x.modify fun c ↦ { c with streamOpen := true } := by
      have hflush : flush a (x.modify fun c ↦ { c with streamOpen := true })
          = (0, x.modify fun c ↦ { c with streamOpen := true }) := if_pos hempty
      rw [onStreamOpen, hflush]
      exact (if_neg (by decide)).trans (if_pos hudp)
    rw [heq] at haccepted ⊢
    refine ⟨haccepted, fun h ↦ ⟨hdial _, ?_⟩⟩
    have hflushed := h.framed.openUp
    rw [hempty, List.append_nil] at hflushed
    change Framed _ _ _ true x.conn.pending _
    rw [hempty]
    exact hflushed
  · set y := x.modify fun c ↦ { c with
      streamOpen := true
      pending := []
      calls := c.calls ++ [.write x.conn.pending a.write] } with hy
    have hflush : flush a (x.modify fun c ↦ { c with streamOpen := true }) = (a.write, y) :=
      if_neg hempty
    have hfits : Fits received forwarded x.conn → Fits received forwarded y.conn := by
      intro h
      refine ⟨hdial _, ?_⟩
      change Framed _ _ _ true [] (Holesail.written (x.conn.calls ++ [_]))
      rw [written_append, written_write]
      exact h.framed.openUp
    have hmem : ∀ {z : Ctx}, Silent y z → z.conn.Accepted → x.conn.Accepted ∧ 0 ≤ a.write := by
      intro z hsilent hz
      have hall := hsilent.accepted hz
      exact ⟨fun d rc hd ↦ hall d rc (List.mem_append_left _ hd),
        hall x.conn.pending a.write (List.mem_append_right _ (List.mem_singleton_self _))⟩
    have hopened : onStreamOpen a x =
        if a.write < 0 then shutdownConn (streamClose a) a y else y := by
      rw [onStreamOpen, hflush]
      exact ite_congr rfl (fun _ ↦ rfl) fun _ ↦ if_pos hudp
    have hsound' : y.conn.Sound :=
      ⟨hsound.connecting, hsound.live, hsound.stream, hsound.dialling, hsound.noPipe, hsound.tcp,
        hsound.pipe⟩
    rw [hopened] at haccepted ⊢
    -- A refused flush tears the connection down, but then not all writes were accepted.
    split_ifs at haccepted ⊢ with hrc
    · have hsilent := allows_silent.shutdownConn (allows_silent.streamClose a) a y
      obtain ⟨-, hnot⟩ := hmem hsilent haccepted
      exact absurd hrc (Int.not_lt.mpr hnot)
    · exact ⟨(hmem (silent_refl y) haccepted).1, hfits⟩

/-- **Every event of the connection** but the opening writes nothing. -/
theorem fits_step (hsound : x.conn.Sound) (hexact : x.conn.Exact) (hudp : x.conn.udp = true)
    {e : Event} (henabled : x.conn.Enabled e) (haccepted : (Conn.step x e).conn.Accepted) :
    x.conn.Accepted ∧ (Fits received forwarded x.conn →
      Fits received forwarded (Conn.step x e).conn) := by
  have hpipe := (hsound.bare hudp).2
  -- A source of datagrams has no pipe.
  obtain ⟨hlive, ⟨a, rfl⟩ | ⟨data, a, rfl⟩ | rfl⟩ := hsound.event_of_noPipe hpipe henabled
  · exact fits_streamOpenCb hsound hexact hlive hudp haccepted
  · have hsame : Conn.step x (.streamData data a) = x := by
      rw [Conn.step, streamDataCb, hpipe]
      exact (ite_congr rfl (fun _ ↦ rfl) fun _ ↦ if_neg (by simp)).trans (ite_self _)
    rw [hsame] at haccepted ⊢
    exact ⟨haccepted, id⟩
  · have hsilent := allows_silent.streamCloseCb x
    exact ⟨hsilent.accepted haccepted, fun h ↦ h.silent hsilent⟩

end Callbacks

end Ctx

end Conn

namespace Connections

open Run Conn

/-- The datagrams that an event hands to the stream of connection `i`. -/
def received (i : ℕ) (w : Connections) : Event → List Bytes
  | .recv addr (.datagram data) a =>
    if (UdpProxy.clientFor (proxyHost a) addr w).1.map UdpProxy.Client.stream = some i then [data]
    else []
  | _ => []

/-- Those that are not dropped: the stream is open, or `pending` has room for them. -/
def forwarded (i : ℕ) (w : Connections) (e : Event) : List Bytes :=
  (w.received i e).filter fun data ↦ ¬(w.conns i).Overflows data

/-- If `i` is a source of datagrams, or not made yet, and hyperdht accepted its writes, then they
agree with a gate of frames. -/
def Carried (i : ℕ) (received forwarded : List Bytes) (w : Connections) : Prop :=
  ((w.conns i).udp = true ∨ w.nextId ≤ i) → (w.conns i).Accepted →
    Ctx.Fits received forwarded (w.conns i)

section Step

variable {w w' : Connections} {i j : ℕ} {r f : List Bytes}

theorem Carried.of_eq (h : Carried i r f w) (hconn : w'.conns i = w.conns i)
    (hnext : w.nextId ≤ w'.nextId) : Carried i r f w' := by
  intro hguard haccepted
  rw [hconn] at hguard haccepted ⊢
  exact h (hguard.imp_right hnext.trans) haccepted

theorem Carried.put_of_ne (h : Carried i r f w) (hne : i ≠ j) (y : Ctx) :
    Carried i r f (w.put j y) := h.of_eq (conns_put_of_ne w hne y) (Nat.le_refl _)

theorem Carried.put_self (h : Carried i r f w) {y : Ctx} {r' f' : List Bytes}
    (hudp : y.conn.udp = true → (w.conns i).udp = true)
    (hy : (w.conns i).udp = true ∨ w.nextId ≤ i → y.conn.Accepted → (w.conns i).Accepted ∧
      (Ctx.Fits r f (w.conns i) → Ctx.Fits r' f' y.conn)) :
    Carried i r' f' (w.put i y) := by
  intro hguard haccepted
  rw [conns_put_self] at hguard haccepted ⊢
  have hguard' : (w.conns i).udp = true ∨ w.nextId ≤ i := hguard.imp_left hudp
  obtain ⟨hold, hfits⟩ := hy hguard' haccepted
  exact hfits (h hguard' hold)

theorem Carried.silent (h : Carried i r f w) {p : UdpProxy} {y : Ctx}
    (hself : w'.conns i = y.conn) (hnext : w'.nextId = w.nextId) (hborn : i < w.nextId)
    (hudp : y.conn.udp = (w.conns i).udp)
    (hsilent : Ctx.Silent ⟨w.conns i, p⟩ y) : Carried i r f w' := by
  intro hguard haccepted
  rw [hself] at haccepted ⊢
  have hold : (w.conns i).udp = true := by
    rcases hguard with hguard | hle
    · rw [hself, hudp] at hguard
      exact hguard
    · rw [hnext] at hle
      exact absurd hborn (Nat.not_lt.mpr hle)
  exact Ctx.Fits.silent (x := ⟨w.conns i, p⟩) (h (Or.inl hold) (hsilent.accepted haccepted))
    hsilent

theorem Carried.born (hentered : Entered w) (h : Carried i r f w) (hborn : Born w w')
    (clientId : Bytes) (proxy : UdpProxy) {y : Ctx} (hself : w'.conns w.nextId = y.conn)
    (hsilent : Ctx.Silent ⟨{ udp := true, clientId := clientId }, proxy⟩ y) :
    Carried i r f w' := by
  rcases eq_or_ne i w.nextId with rfl | hne
  · intro _ _
    have hold := h (Or.inr (Nat.le_refl _))
    rw [hentered.unborn _ (Nat.le_refl _)] at hold
    obtain ⟨-, hframed⟩ := hold fun data rc hmem ↦ absurd hmem List.not_mem_nil
    rw [hself]
    exact Ctx.Fits.silent (x := ⟨{ udp := true, clientId := clientId }, proxy⟩)
      ⟨fun _ ↦ rfl, hframed⟩ hsilent
  · exact h.of_eq (hborn.conns i hne) (hborn.nextId ▸ Nat.le_succ _)

theorem Carried.clientFor (hentered : Entered w) (h : Carried i r f w) (addr : SockAddr)
    (a : Answers) : Carried i r f (UdpProxy.clientFor (proxyHost a) addr w).2 := by
  rcases clientFor_cases w addr a with ⟨c, -, heq⟩ | heq |
    ⟨-, hdestroyed, ⟨-, heq⟩ | ⟨hconnect, heq⟩⟩
  · rw [heq]
    exact h
  · rw [heq]
    exact h
  · rw [heq]
    exact h.born hentered (born_dial hdestroyed _ a) (clientKey addr) w.proxy
      (congrArg Ctx.conn (ctx_dial _ a)) (Ctx.allows_silent.beginDhtConnect a _)
  · obtain ⟨hborn, hself, -⟩ :=
      born_enrol hdestroyed (clientKey addr) hconnect { stream := w.nextId, addr := addr }
    rw [heq]
    exact h.born hentered hborn (clientKey addr) w.proxy
      (y := ⟨{ udp := true, clientId := clientKey addr, connecting := true }, w.proxy⟩) hself
      (Ctx.silent_of_calls rfl rfl id rfl)

/-- What an event hands to a stream, if it is a datagram whose client is found. -/
theorem received_of_found {addr : SockAddr} {data : Bytes} {a : Answers} {c : UdpProxy.Client}
    (hfound : (UdpProxy.clientFor (proxyHost a) addr w).1 = some c) :
    w.received i (.recv addr (.datagram data) a) = if c.stream = i then [data] else [] := by
  rw [received, hfound, Option.map_some]
  simp only [Option.some.injEq]

/-- The buffer of a client's connection is the one it had, or a new one. -/
theorem overflows_of_found (hentered : Entered w) {addr : SockAddr} {a : Answers}
    {c : UdpProxy.Client} (hfound : (UdpProxy.clientFor (proxyHost a) addr w).1 = some c)
    (data : Bytes) :
    ((UdpProxy.clientFor (proxyHost a) addr w).2.conns c.stream).Overflows data ↔
      (w.conns c.stream).Overflows data := by
  rcases clientFor_cases w addr a with ⟨c, -, heq⟩ | heq |
    ⟨-, hdestroyed, ⟨-, heq⟩ | ⟨hconnect, heq⟩⟩
  · rw [heq]
  · rw [heq] at hfound
    exact absurd hfound.symm (Option.some_ne_none c)
  · rw [heq] at hfound
    exact absurd hfound.symm (Option.some_ne_none c)
  · obtain ⟨-, hself, -⟩ :=
      born_enrol hdestroyed (clientKey addr) hconnect { stream := w.nextId, addr := addr }
    rw [heq] at hfound ⊢
    obtain rfl := Option.some.inj hfound
    rw [hself, hentered.unborn _ (Nat.le_refl _)]
    exact Iff.rfl

theorem Carried.recv {n : ℕ → ℕ} {k : ℕ} (hs : Settled n k w) (hentered : Entered w)
    (h : Carried i r f w) (addr : SockAddr) (data : Bytes) (a : Answers) :
    Carried i (r ++ w.received i (.recv addr (.datagram data) a))
      (f ++ w.forwarded i (.recv addr (.datagram data) a))
      (w.step (.recv addr (.datagram data) a)) := by
  have hfor := h.clientFor hentered addr a
  have hs' : Settled n k (UdpProxy.clientFor (proxyHost a) addr w).2 :=
    (keeps_settled a n k).clientFor addr hs
  obtain ⟨hentered', -⟩ := hentered.clientFor addr a
  rw [forwarded]
  -- No stream to be had for the address, or one, which may or may not be the one watched.
  rcases hentered.recvCb_cases hs addr data a with ⟨hnone, heq⟩ | ⟨c, y, hc, hentry, heq, -, hwrote⟩
  · have hnothing : w.received i (.recv addr (.datagram data) a) = [] := by
      rw [received, hnone]
      exact if_neg (Option.some_ne_none i).symm
    rw [hnothing, heq, List.filter_nil, List.append_nil, List.append_nil]
    exact hfor
  · rw [received_of_found hc, heq]
    rcases eq_or_ne c.stream i with rfl | hne
    · obtain ⟨-, hcarries, -⟩ := hentered'.entry _ c hentry
      have hkept : [data].filter (fun d ↦ ¬(w.conns c.stream).Overflows d)
          = if ((UdpProxy.clientFor (proxyHost a) addr w).2.conns c.stream).Overflows data then []
            else [data] := by
        simp only [overflows_of_found hentered hc]
        by_cases hover : (w.conns c.stream).Overflows data <;> simp [hover]
      rw [if_pos rfl, hkept]
      refine hfor.put_self (fun _ ↦ hcarries.udp) fun _ haccepted ↦ ?_
      exact ⟨Ctx.accepted_of_wrote hwrote haccepted, fun hfits ↦
        Ctx.Fits.write (x := Connections.ctx _ c.stream) hfits (hs'.sound _) (hs'.exact _)
          hcarries.held hcarries.udp hwrote haccepted⟩
    · rw [if_neg hne, List.filter_nil, List.append_nil, List.append_nil]
      exact hfor.put_of_ne hne.symm y

/-- Bytes arrive on the stream of a source of datagrams; the client may be given up for them. -/
theorem Carried.onStreamData (hentered : Entered w)
    (h : Carried i r f w) (key : Bytes) (source : ℕ) (data : Bytes) (a : Answers) :
    Carried i r f (UdpProxy.onStreamData (proxyHost a) key source data w) := by
  rcases onStreamData_cases key source data a w with heq |
    ⟨c, hc, c', p, hstream, -, hp, heq | heq⟩
  · rw [heq]
    exact h
  · rw [heq]
    exact h.of_eq rfl (Nat.le_refl _)
  · obtain ⟨-, hcarries, -⟩ := hentered.entry key c hc
    rw [heq]
    rcases eq_or_ne i c.stream with rfl | hne
    · refine h.silent (p := p.erase key) (conns_put_self _ _ _) rfl
        (hentered.lt_nextId hcarries.held) ?_
        (Ctx.allows_silent.close (Ctx.allows_silent.streamClose a) a _)
      exact (Ctx.allows_frame.close (Ctx.allows_frame.streamClose a) a _).udp
    · exact h.put_of_ne hne _

theorem Carried.destroy (h : Carried i r f w) (answers : ℕ → Answers) :
    Carried i r f (w.destroy answers) := by
  cases hdestroyed : w.destroyed with
  | true =>
    rw [Connections.destroy, if_pos hdestroyed]
    exact h
  | false =>
    obtain ⟨hnext, -, -, hconns⟩ := shut_destroy hdestroyed answers
    rcases hconns i with ⟨-, hsame⟩ | ⟨hlive, p, hshut⟩
    · exact h.of_eq hsame (Nat.le_of_eq hnext.symm)
    · refine h.silent (p := p) hshut hnext (mem_live.mp hlive).1 ?_
        (Ctx.allows_silent.shutdownConn (Ctx.allows_silent.streamClose _) _ _)
      exact (Ctx.allows_frame.shutdownConn (Ctx.allows_frame.streamClose _) _ ⟨w.conns i, p⟩).udp

/-- **Every event** leaves each source of datagrams agreeing with its gate. -/
theorem Carried.step {n : ℕ → ℕ} {k : ℕ} (hs : Settled n k w) (hentered : Entered w)
    (h : Carried i r f w) {e : Event} (henabled : w.Enabled e) :
    Carried i (r ++ w.received i e) (f ++ w.forwarded i e) (w.step e) := by
  have hquiet : ∀ {e}, w.received i e = [] → Carried i r f (w.step e) →
      Carried i (r ++ w.received i e) (f ++ w.forwarded i e) (w.step e) := by
    intro e hnone hstep
    rw [forwarded, hnone, List.filter_nil, List.append_nil, List.append_nil]
    exact hstep
  cases e with
  | accept a =>
    refine hquiet rfl ?_
    rcases onLocalConnection_cases w a with heq | ⟨hdestroyed, heq⟩
    · rw [heq]
      exact h.of_eq rfl (Nat.le_refl _)
    · obtain ⟨hnext, -, hconns⟩ := born_dial (w := { w with accepted := w.accepted + 1 })
        hdestroyed { tcp := some { id := w.accepted } } a
      obtain ⟨htcp, -⟩ := dial_tcp (w := { w with accepted := w.accepted + 1 })
        { id := w.accepted } a
      rw [heq]
      -- The number of the connection just made, or of another. An accepted socket is no source.
      rcases eq_or_ne i w.nextId with rfl | hne
      · rintro (hudp | hle) -
        · exact absurd (hudp.symm.trans htcp) (by decide)
        · rw [hnext] at hle
          exact absurd hle (Nat.not_succ_le_self _)
      · exact h.of_eq (hconns i hne) (hnext ▸ Nat.le_succ _)
  | recv addr arrived a =>
    cases arrived with
    | datagram data => exact h.recv hs hentered addr data a
    | _ => exact hquiet rfl h
  | connected j error found a =>
    refine hquiet rfl ?_
    obtain ⟨hheld, hmoves⟩ := moves_connectCb hs henabled
    -- The connection watched moves, or another, which leaves it alone.
    rcases eq_or_ne i j with rfl | hne
    · exact h.silent (p := w.proxy) (conns_put_self _ _ _) rfl (hentered.lt_nextId hheld)
        hmoves.frame.udp
        (Ctx.allows_silent.connectCb w.destroyed error found a (w.ctx i))
    · exact h.put_of_ne hne _
  | conn j e =>
    refine hquiet rfl ?_
    obtain ⟨hheld, hmoves⟩ := moves_step hs henabled
    have hact : Carried i r f (w.act j (Conn.step · e)) := by
      rcases eq_or_ne i j with rfl | hne
      · refine h.put_self (fun hudp ↦ hmoves.frame.udp.symm.trans hudp) fun hguard haccepted ↦ ?_
        have hudp := hguard.resolve_right (Nat.not_le.mpr (hentered.lt_nextId hheld))
        exact Ctx.fits_step (x := w.ctx i) (hs.sound i) (hs.exact i) hudp henabled haccepted
      · exact h.put_of_ne hne _
    cases e with
    | streamData data a =>
      change Carried i r f (w.streamDataCb j data a)
      unfold streamDataCb
      split_ifs
      · exact h.onStreamData hentered _ j data a
      · exact hact
    | _ => exact hact
  | destroy answers => exact hquiet rfl (h.destroy answers)

theorem carried_listening (dht : Bool) (i : ℕ) : Carried i [] [] (listening dht) :=
  fun _ _ ↦ ⟨fun _ ↦ rfl, framed_start _⟩

/-- **What crosses a stream to the server**: of a source of datagrams whose writes hyperdht
accepted, what it was handed, but for what overflowed its buffer, in whole frames. -/
theorem carried_run (dht : Bool) {es : List Event}
    (henabled : Along step Enabled (listening dht) es) (i : ℕ) :
    Carried i (trace step (received i) (listening dht) es)
      (trace step (forwarded i) (listening dht) es) (run step (listening dht) es) := by
  refine (history_of_along (G := Enabled) (P := fun es w ↦ (∃ k, Settled (once k) k w) ∧
    Entered w ∧ Carried i (trace step (received i) (listening dht) es)
      (trace step (forwarded i) (listening dht) es) w) ?_ ?_ henabled).2.2
  · exact ⟨⟨0, settled_listening dht⟩, entered_listening dht, carried_listening dht i⟩
  · rintro es e ⟨⟨k, hs⟩, hentered, h⟩ henabled
    rw [trace_concat, trace_concat]
    obtain ⟨k', hs'⟩ := hs.step henabled
    exact ⟨⟨k', hs'⟩, hentered.step hs henabled, h.step hs hentered henabled⟩

/-! ## Where the datagrams come from -/

/-- The datagrams that arrive from an address. -/
def datagrams (addr : SockAddr) : Event → List Bytes
  | .recv addr' (.datagram data) _ => if addr' = addr then [data] else []
  | _ => []

/-- **What is handed to a stream** comes from the address that the stream was opened for. -/
theorem received_cases {n : ℕ → ℕ} {k : ℕ} (hs : Settled n k w) (h : Entered w) (e : Event) :
    w.received i e = [] ∨ ∃ addr, w.received i e = datagrams addr e ∧ i < (w.step e).nextId ∧
      ((w.step e).conns i).clientId = clientKey addr := by
  cases e with
  | recv addr r a =>
    cases r with
    | datagram data =>
      obtain ⟨hentered, -⟩ := h.clientFor addr a
      rcases h.recvCb_cases hs addr data a with ⟨hnone, -⟩ | ⟨c, y, hc, hentry, heq, hmoves, -⟩
      · left
        rw [received, hnone]
        exact if_neg (Option.some_ne_none i).symm
      · rw [received_of_found hc]
        by_cases hi : c.stream = i
        · obtain rfl := hi
          obtain ⟨-, hcarries, -⟩ := hentered.entry _ c hentry
          refine Or.inr ⟨addr, ?_, ?_, ?_⟩
          · rw [datagrams, if_pos rfl, if_pos rfl]
          · rw [heq]
            exact hentered.lt_nextId hcarries.held
          · rw [heq, conns_put_self, hmoves.frame.clientId]
            exact hcarries.clientId
        · exact Or.inl (if_neg hi)
    | _ => exact Or.inl rfl
  | _ => exact Or.inl rfl

theorem received_sublist (dht : Bool) {es : List Event}
    (henabled : Along step Enabled (listening dht) es) (i : ℕ) {addr : SockAddr}
    (haddr : ((run step (listening dht) es).conns i).clientId = clientKey addr) :
    (trace step (received i) (listening dht) es).Sublist (es.flatMap (datagrams addr)) := by
  -- Until it is made, the stream is handed nothing.
  let P : List Event → Connections → Prop := fun es w ↦ (∃ k, Settled (once k) k w) ∧ Entered w ∧
    (w.nextId ≤ i → trace step (received i) (listening dht) es = []) ∧
      ((w.conns i).clientId = clientKey addr →
        (trace step (received i) (listening dht) es).Sublist (es.flatMap (datagrams addr)))
  have hstart : P [] (listening dht) :=
    ⟨⟨0, settled_listening dht⟩, entered_listening dht, fun _ ↦ rfl, fun _ ↦ List.nil_sublist _⟩
  have hrun : P es (run step (listening dht) es) := by
    refine history_of_along (G := Enabled) hstart ?_ henabled
    rintro es e ⟨⟨k, hs⟩, hentered, hunborn, hsublist⟩ he
    have hgrows := grows_step hentered hs he
    have hcases := received_cases (i := i) hs hentered e
    refine ⟨hs.step he, hentered.step hs he, fun hle ↦ ?_, fun hid ↦ ?_⟩
    · rcases hcases with hnone | ⟨addr, -, hborn, -⟩
      · rw [trace_concat, hunborn (hgrows.nextId.trans hle), hnone]
        rfl
      · exact absurd hborn (Nat.not_lt.mpr hle)
    · rw [trace_concat, List.flatMap_append, List.flatMap_singleton]
      refine List.Sublist.append ?_ ?_
      · rcases Nat.lt_or_ge i (run step (listening dht) es).nextId with hlt | hge
        · exact hsublist ((hgrows.conn i hlt).2.symm.trans hid)
        · rw [hunborn hge]
          exact List.nil_sublist _
      · rcases hcases with hnone | ⟨addr', hsome, -, hid'⟩
        · rw [hnone]
          exact List.nil_sublist _
        · rw [hsome, clientKey_injective (hid'.symm.trans hid)]
  exact hrun.2.2.2 haddr

end Step

end Connections

end HolesailClient

end Holesail
