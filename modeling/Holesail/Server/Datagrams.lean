import Holesail.Server.Callbacks
import Holesail.Tunnel.Framing

/-!
# Datagrams on the server's side

A UDP connection of the server as a gate of frames: `recv_cb` writes each datagram the local service
sends, as one frame, to the side of the stream, which buffers, drops or passes it on, and
`stream_open_cb` flushes what was buffered. Nothing else that happens to the connection buffers or
writes anything.
-/

namespace Holesail

namespace HolesailServer

namespace Conn

open Run

/-- Before the stream opens, `data` would take `pending` past its limit. -/
def Overflows (c : Conn) (data : Bytes) : Prop :=
  c.streamOpen = false ∧ kMaxPendingBytes < c.pending.length + (frame data).length

instance (c : Conn) (data : Bytes) : Decidable (c.Overflows data) :=
  inferInstanceAs (Decidable (_ ∧ _))

/-- hyperdht accepted every write on the stream. -/
def Accepted (c : Conn) : Prop := ∀ data rc, StreamCall.write data rc ∈ c.calls → 0 ≤ rc

instance (c : Conn) : Decidable c.Accepted :=
  inferInstanceAs (Decidable (∀ data rc, StreamCall.write data rc ∈ c.calls → 0 ≤ rc))

/-! ## A connection whose pipe is a UDP pipe -/

/-- The pipe is destroyed, and its socket is not read any more. -/
def Ended (c : Conn) : Prop :=
  ∃ p, c.udp = some p ∧ p.destroyed = true ∧ ∀ s ∈ p.sock, s.receiving = false

/-- Only a UDP pipe serves the connection, and until it has ended the stream is there. -/
structure Sourced (c : Conn) : Prop where
  noTcp : c.tcp = none
  noDrains : c.drains = [] ∧ c.pendingDrains = []
  pipe : Ended c ∨ c.stream = true ∧ ∃ p, c.udp = some p ∧ p.destroyed = false
  boxed : c.stream = true → c.boxed = true

/-- `c'` is `c` with another pipe, and other calls that write nothing. -/
structure Silent (c c' : Conn) : Prop where
  same : c'.tcp = c.tcp ∧ c'.drains = c.drains ∧ c'.pendingDrains = c.pendingDrains
  streamOpen : c'.streamOpen = c.streamOpen
  pending : c'.pending = c.pending
  calls : ∃ l, c'.calls = c.calls ++ l ∧ written l = []

theorem silent_of_calls {c c' : Conn}
    (hsame : c'.tcp = c.tcp ∧ c'.drains = c.drains ∧ c'.pendingDrains = c.pendingDrains)
    (hopen : c'.streamOpen = c.streamOpen) (hpending : c'.pending = c.pending)
    (hcalls : c'.calls = c.calls) : Silent c c' :=
  ⟨hsame, hopen, hpending, [], by rw [hcalls, List.append_nil], rfl⟩

theorem silent_refl (c : Conn) : Silent c c := silent_of_calls ⟨rfl, rfl, rfl⟩ rfl rfl rfl

theorem Silent.trans {c c' c'' : Conn} (h : Silent c c') (h' : Silent c' c'') : Silent c c'' := by
  obtain ⟨l, hl, hnone⟩ := h.calls
  obtain ⟨l', hl', hnone'⟩ := h'.calls
  refine ⟨⟨h'.same.1.trans h.same.1, h'.same.2.1.trans h.same.2.1,
    h'.same.2.2.trans h.same.2.2⟩, h'.streamOpen.trans h.streamOpen,
    h'.pending.trans h.pending, l ++ l', ?_, ?_⟩
  · rw [hl', hl, List.append_assoc]
  · rw [written_append, hnone, hnone', List.append_nil]

theorem Silent.accepted {c c' : Conn} (h : Silent c c') (hc' : c'.Accepted) : c.Accepted := by
  obtain ⟨l, hl, -⟩ := h.calls
  intro data rc hmem
  apply hc' data rc
  rw [hl]
  exact List.mem_append_left l hmem

theorem Silent.written {c c' : Conn} (h : Silent c c') : written c'.calls = written c.calls := by
  obtain ⟨l, hl, hnone⟩ := h.calls
  rw [hl, written_append, hnone, List.append_nil]

/-- `c'` is silent, and its stream is there if that of `c` is. -/
structure Still (c c' : Conn) : Prop where
  silent : Silent c c'
  stream : c'.stream = c.stream
  boxed : c'.boxed = c.boxed

theorem still_refl (c : Conn) : Still c c := ⟨silent_refl c, rfl, rfl⟩

theorem Still.trans {c c' c'' : Conn} (h : Still c c') (h' : Still c' c'') : Still c c'' :=
  ⟨h.silent.trans h'.silent, h'.stream.trans h.stream, h'.boxed.trans h.boxed⟩

theorem still_close (c : Conn) : Still c (c.streamCall .close) := by
  unfold streamCall
  split_ifs
  · exact ⟨⟨⟨rfl, rfl, rfl⟩, rfl, rfl, [.close], rfl, rfl⟩, rfl, rfl⟩
  · exact still_refl c

theorem still_setPipe (a : Answers) (p : UdpPipe) (c : Conn) :
    Still c ((udpHost a).setPipe p c) := ⟨silent_of_calls ⟨rfl, rfl, rfl⟩ rfl rfl rfl, rfl, rfl⟩

/-- But for the writes, a UDP pipe leaves the stream as it is until it closes it. -/
theorem within_still (a : Answers) : (udpHost a).Within Still where
  refl := still_refl
  trans := Still.trans
  setPipe := fun _ ↦ still_setPipe a _ _
  close := still_close
  uvClose := fun _ ↦ ⟨silent_of_calls ⟨rfl, rfl, rfl⟩ rfl rfl rfl, rfl, rfl⟩
  onDestroy := fun _ ↦ ⟨silent_of_calls ⟨rfl, rfl, rfl⟩ rfl rfl rfl, rfl, rfl⟩

section Pipe

variable {a : Answers} {c : Conn}

theorem Ended.fireOnDestroy (h : Ended c) : Ended (UdpPipe.fireOnDestroy (udpHost a) c) := by
  unfold UdpPipe.fireOnDestroy
  split_ifs
  · obtain ⟨p, hudp, hdestroyed, hsock⟩ := h
    rw [UdpPipe.Host.modify, pipe_of_udp hudp]
    exact ⟨_, rfl, hdestroyed, hsock⟩
  · exact h

/-- `c'` has the stream of `c`, and a pipe that has ended. -/
structure Ends (c c' : Conn) : Prop extends Still c c' where
  ended : Ended c'

theorem ends_destroy {p : UdpPipe} (hudp : c.udp = some p) (hlive : p.destroyed = false) :
    Ends c (UdpPipe.destroy (udpHost a) c) := by
  have hpipe := pipe_of_udp (a := a) hudp
  refine ⟨(within_still a).destroy c, ?_⟩
  set c₁ := (udpHost a).modify (fun p ↦
    { p with destroyed := true, sock := p.sock.map fun s ↦ { s with receiving := false } }) c
    with hc₁
  have hudp₁ : c₁.udp = some
      { p with destroyed := true, sock := p.sock.map fun s ↦ { s with receiving := false } } := by
    rw [hc₁, UdpPipe.Host.modify, hpipe]
    rfl
  -- The socket is told to stop before anything else; nothing is received behind that.
  have hstopped : ∀ s ∈ p.sock.map fun s ↦ { s with receiving := false }, s.receiving = false := by
    rintro s hs
    obtain ⟨s', -, rfl⟩ := Option.map_eq_some_iff.mp (Option.mem_def.mp hs)
    rfl
  have hended : Ended (c₁.streamCall .close) :=
    ⟨_, (udp_streamCall .close c₁).trans hudp₁, rfl, hstopped⟩
  have hnot : ¬((udpHost a).pipe c).destroyed = true := by
    rw [hpipe, hlive]
    exact Bool.false_ne_true
  rw [UdpPipe.destroy, if_neg hnot]
  dsimp only
  -- With a socket left, `on_destroy` waits for its close callback; without one it fires at once.
  split
  · rename_i s hs
    split_ifs
    · exact hended.fireOnDestroy
    · obtain ⟨p', hudp', hdestroyed', hsock'⟩ := hended
      have hpipe' : (udpHost a).pipe (c₁.streamCall .close) = p' := pipe_of_udp hudp'
      have hs' : p'.sock = some s := hpipe' ▸ hs
      refine ⟨_, rfl, (congrArg UdpPipe.destroyed hpipe').trans hdestroyed', ?_⟩
      rintro t ht
      obtain rfl := Option.mem_some.mp ht
      exact hsock' s hs'
  · exact hended.fireOnDestroy

/-- `c'` is `c` but for its pipe, which has not come any nearer to its end. -/
structure Keeps (c c' : Conn) : Prop extends Still c c' where
  pipe : ∀ p, c.udp = some p → ∃ p', c'.udp = some p' ∧ p'.destroyed = p.destroyed ∧
    (p'.sock = p.sock ∨ p'.sock = none)

theorem Sourced.keeps {c' : Conn} (h : Sourced c) (hkeeps : Keeps c c') : Sourced c' := by
  obtain ⟨⟨hsilent, hstream, hboxed⟩, hpipe⟩ := hkeeps
  refine ⟨hsilent.same.1.trans h.noTcp, ⟨hsilent.same.2.1.trans h.noDrains.1,
    hsilent.same.2.2.trans h.noDrains.2⟩, ?_, ?_⟩
  · rcases h.pipe with ⟨p, hudp, hdestroyed, hsock⟩ | ⟨hthere, p, hudp, hlive⟩
    · obtain ⟨p', hudp', hdestroyed', hsock'⟩ := hpipe p hudp
      refine Or.inl ⟨p', hudp', hdestroyed'.trans hdestroyed, fun s hs ↦ ?_⟩
      rcases hsock' with hsame | hnone
      · rw [hsame] at hs
        exact hsock s hs
      · rw [hnone] at hs
        exact absurd hs (Option.not_mem_none s)
    · obtain ⟨p', hudp', hdestroyed', -⟩ := hpipe p hudp
      exact Or.inr ⟨hstream.trans hthere, p', hudp', hdestroyed'.trans hlive⟩
  · rw [hstream, hboxed]
    exact h.boxed

theorem Sourced.ends {c' : Conn} (h : Sourced c) (hends : Ends c c') : Sourced c' := by
  obtain ⟨⟨hsilent, hstream, hboxed⟩, hended⟩ := hends
  refine ⟨hsilent.same.1.trans h.noTcp, ⟨hsilent.same.2.1.trans h.noDrains.1,
    hsilent.same.2.2.trans h.noDrains.2⟩, Or.inl hended, ?_⟩
  rw [hstream, hboxed]
  exact h.boxed

theorem keeps_closedCb {p : UdpPipe} (hudp : c.udp = some p) :
    Keeps c (UdpPipe.closedCb (udpHost a) c) := by
  have hpipe := pipe_of_udp (a := a) hudp
  refine ⟨(within_still a).closedCb c, fun q hq ↦ ?_⟩
  obtain rfl := Option.some.inj (hudp.symm.trans hq)
  simp only [UdpPipe.closedCb, UdpPipe.fireOnDestroy, UdpPipe.Host.modify, hpipe]
  split_ifs <;> exact ⟨_, rfl, rfl, Or.inr rfl⟩

/-- The datagrams that the frames on the stream hold are sent to the local service. -/
theorem foldl_send (frames : List Bytes) (c : Conn) :
    frames.foldl (fun w d ↦ (udpHost a).send d w) c = { c with sent := c.sent ++ frames } := by
  induction frames generalizing c with
  | nil => rw [List.append_nil, List.foldl_nil]
  | cons d frames ih =>
    rw [List.foldl_cons, ih]
    simp only [udpHost, List.append_assoc, List.singleton_append]

theorem onStreamData_cases {p : UdpPipe} (hudp : c.udp = some p) (data : Bytes) :
    Keeps c (UdpPipe.onStreamData (udpHost a) data c) ∨
      Ends c (UdpPipe.onStreamData (udpHost a) data c) := by
  have hpipe := pipe_of_udp (a := a) hudp
  have hrefl : Keeps c c := ⟨still_refl c, fun q hq ↦ ⟨q, hq, rfl, Or.inl rfl⟩⟩
  simp only [UdpPipe.onStreamData, UdpPipe.Host.modify, hpipe, foldl_send]
  set c₁ : Conn := { (udpHost a).setPipe { p with decoder := (p.decoder.push data).decoder } c with
    sent := c.sent ++ (p.decoder.push data).frames }
  have hsent : Still c c₁ := ⟨silent_of_calls ⟨rfl, rfl, rfl⟩ rfl rfl rfl, rfl, rfl⟩
  split_ifs with hguard hok
  · exact Or.inl hrefl
  · refine Or.inl ⟨hsent, fun q hq ↦ ?_⟩
    obtain rfl := Option.some.inj (hudp.symm.trans hq)
    exact ⟨_, rfl, rfl, Or.inl rfl⟩
  · have hlive : p.destroyed = false := by
      rw [not_or, Bool.not_eq_true] at hguard
      exact hguard.1
    have hend : Ends c₁ (UdpPipe.destroy (udpHost a) c₁) :=
      ends_destroy (p := { p with decoder := (p.decoder.push data).decoder }) rfl hlive
    exact Or.inr ⟨hsent.trans hend.toStill, hend.ended⟩

end Pipe

/-! ## The connection as a gate of frames -/

/-- The datagrams that an event hands to the stream. -/
def received : Event → List Bytes
  | .recv (.datagram data) _ => [data]
  | _ => []

/-- Those that are not dropped: the stream is open, or `pending` has room for them. -/
def forwarded (c : Conn) (e : Event) : List Bytes :=
  (received e).filter fun data ↦ ¬c.Overflows data

/-- The connection serves a source of datagrams, and what was buffered and written agrees with a
gate of frames as long as hyperdht accepted the writes. -/
structure Carried (r f : List Bytes) (c : Conn) : Prop where
  sourced : Sourced c
  framed : c.Accepted → Framed kMaxPendingBytes r f c.streamOpen c.pending (written c.calls)

section Step

variable {a : Answers} {c c' : Conn} {r f : List Bytes}

theorem Carried.silent (h : Carried r f c) (hsourced : Sourced c') (hsilent : Silent c c') :
    Carried r f c' := by
  refine ⟨hsourced, fun haccepted ↦ ?_⟩
  rw [hsilent.streamOpen, hsilent.pending, hsilent.written]
  exact h.framed (hsilent.accepted haccepted)

theorem Carried.keeps (h : Carried r f c) (hkeeps : Keeps c c') : Carried r f c' :=
  h.silent (h.sourced.keeps hkeeps) hkeeps.silent

theorem Carried.ends (h : Carried r f c) (hends : Ends c c') : Carried r f c' :=
  h.silent (h.sourced.ends hends) hends.silent

theorem Carried.destroy (h : Carried r f c) : Carried r f (UdpPipe.destroy (udpHost a) c) := by
  rcases h.sourced.pipe with ⟨p, hudp, hdestroyed, -⟩ | ⟨-, p, hudp, hlive⟩
  · have hsame : UdpPipe.destroy (udpHost a) c = c := by
      rw [UdpPipe.destroy, pipe_of_udp hudp, if_pos hdestroyed]
    rw [hsame]
    exact h
  · exact h.ends (ends_destroy hudp hlive)

theorem write_none_of_unopened (hopen : c.streamOpen = false) (data : Bytes) :
    (makeSide a).write data none c =
      if kMaxPendingBytes < c.pending.length + data.length then (1, c)
      else (1, { c with pending := c.pending ++ data }) := by
  simp only [makeSide, if_pos hopen, accept, Option.toList_none, List.append_nil]

theorem write_none_of_opened (hopen : c.streamOpen = true) (hstream : c.stream = true)
    (data : Bytes) :
    (makeSide a).write data none c
      = (a.write, { c with calls := c.calls ++ [.write data a.write] }) := by
  have hnot : ¬c.streamOpen = false := by
    rw [hopen]
    decide
  simp only [makeSide, if_neg hnot, streamWrite, if_pos hstream]

theorem Carried.recv (h : Carried r f c) {p : UdpPipe} (hudp : c.udp = some p)
    (hlive : p.destroyed = false) (data : Bytes) :
    Carried (r ++ [data]) (f ++ if c.Overflows data then [] else [data])
      (UdpPipe.recvCb (udpHost a) (.datagram data) c) := by
  -- Only a live pipe receives, and the stream of a live pipe is there.
  have hstream : c.stream = true := by
    rcases h.sourced.pipe with ⟨p', hudp', hdestroyed, -⟩ | ⟨hthere, -⟩
    · obtain rfl := Option.some.inj (hudp.symm.trans hudp')
      exact absurd (hlive.symm.trans hdestroyed) (by decide)
    · exact hthere
  have hrecv : UdpPipe.recvCb (udpHost a) (.datagram data) c =
      if ((makeSide a).write (frame data) none c).1 < 0 then
        UdpPipe.destroy (udpHost a) ((makeSide a).write (frame data) none c).2
      else ((makeSide a).write (frame data) none c).2 := by
    rw [UdpPipe.recvCb, pipe_of_udp hudp, hlive]
    rfl
  have haccepts : ¬(1 : ℤ) < 0 := by decide
  rw [hrecv]
  -- Before the opening the frame is buffered or dropped, behind it it is written.
  cases hopen : c.streamOpen with
  | false =>
    rw [write_none_of_unopened hopen]
    by_cases hfull : kMaxPendingBytes < c.pending.length + (frame data).length
    · rw [if_pos hfull, if_neg haccepts, if_pos ⟨hopen, hfull⟩, List.append_nil]
      refine ⟨h.sourced, fun haccepted ↦ ?_⟩
      have hframed := h.framed haccepted
      rw [hopen] at hframed ⊢
      exact hframed.drop hfull
    · rw [if_neg hfull, if_neg haccepts, if_neg fun hover ↦ hfull hover.2]
      refine ⟨⟨h.sourced.noTcp, h.sourced.noDrains, h.sourced.pipe, h.sourced.boxed⟩,
        fun haccepted ↦ ?_⟩
      have hframed := h.framed haccepted
      change Framed _ _ _ c.streamOpen _ _
      rw [hopen] at hframed ⊢
      exact hframed.buffer hfull
  | true =>
    have hnot : ¬c.Overflows data := fun hover ↦ absurd (hover.1.symm.trans hopen) (by decide)
    set y : Conn := { c with calls := c.calls ++ [.write (frame data) a.write] } with hy
    have hthrough : Carried (r ++ [data]) (f ++ [data]) y := by
      refine ⟨⟨h.sourced.noTcp, h.sourced.noDrains, h.sourced.pipe, h.sourced.boxed⟩,
        fun haccepted ↦ ?_⟩
      have hframed := h.framed fun d rc hmem ↦ haccepted d rc (List.mem_append_left _ hmem)
      change Framed _ _ _ c.streamOpen _ (Holesail.written (c.calls ++ [_]))
      rw [hopen] at hframed ⊢
      rw [written_append, written_write]
      exact hframed.through data
    rw [write_none_of_opened hopen hstream, if_neg hnot]
    -- A refused write destroys the pipe, but the frame was handed over.
    split_ifs
    · exact hthrough.destroy
    · exact hthrough

/-- **The stream opens**: what was buffered is flushed. -/
theorem Carried.streamOpenCb (h : Carried r f c) (hstream : c.stream = true) (a : Answers) :
    Carried r f (c.streamOpenCb a) := by
  have hboxed : ¬c.boxed = false := by
    rw [h.sourced.boxed hstream]
    decide
  have hsourced : ∀ calls pending, Sourced { c with
      streamOpen := true, pending := pending, calls := calls } := fun _ _ ↦
    ⟨h.sourced.noTcp, h.sourced.noDrains, h.sourced.pipe, h.sourced.boxed⟩
  have hnone : ∀ {c' : Conn}, c'.pendingDrains = [] → { c' with pendingDrains := [] } = c' := by
    rintro c' hc'
    rw [← hc']
  have hrelease : ∀ {c' : Conn}, c'.pendingDrains = [] → c'.releaseDrains a.uv = c' := by
    intro c' hc'
    rw [releaseDrains, hc', List.foldl_nil, hnone hc']
  -- A source of datagrams passes no `on_drain`, so there are none to release.
  have hopened : c.streamOpenCb a =
      ({ c with streamOpen := true }.flush a).2 := by
    have hpending : ({ c with streamOpen := true }.flush a).2.pendingDrains = [] := by
      unfold flush streamWrite
      split_ifs <;> exact h.sourced.noDrains.2
    simp only [Conn.streamOpenCb, if_neg hboxed]
    split_ifs
    · exact hnone hpending
    · exact hrelease hpending
  rw [hopened, flush]
  by_cases hempty : c.pending = []
  · rw [if_pos hempty]
    refine ⟨hsourced _ _, fun haccepted ↦ ?_⟩
    have hflushed := (h.framed haccepted).openUp
    rw [hempty, List.append_nil] at hflushed
    change Framed _ _ _ true c.pending _
    rw [hempty]
    exact hflushed
  · rw [if_neg hempty, streamWrite, if_pos hstream]
    refine ⟨hsourced _ _, fun haccepted ↦ ?_⟩
    have hflushed := (h.framed fun d rc hmem ↦
      haccepted d rc (List.mem_append_left _ hmem)).openUp
    change Framed _ _ _ true [] (Holesail.written (c.calls ++ [_]))
    rw [written_append, written_write]
    exact hflushed

theorem Carried.streamCloseCb (h : Carried r f c) : Carried r f c.streamCloseCb := by
  have hgone : ∀ {c' : Conn}, Silent c c' → Ended c' → c'.stream = false →
      Carried r f { c' with boxed := false } := by
    intro c' hsilent hended hstream
    have hsilent' : Silent c { c' with boxed := false } :=
      hsilent.trans (silent_of_calls ⟨rfl, rfl, rfl⟩ rfl rfl rfl)
    refine h.silent ⟨hsilent.same.1.trans h.sourced.noTcp,
      ⟨hsilent.same.2.1.trans h.sourced.noDrains.1, hsilent.same.2.2.trans h.sourced.noDrains.2⟩,
      Or.inl hended, ?_⟩ hsilent'
    intro hthere
    exact absurd (hthere.symm.trans hstream) (by decide)
  have hclosed : Silent c { c with stream := false } := silent_of_calls ⟨rfl, rfl, rfl⟩ rfl rfl rfl
  by_cases hboxed : c.boxed = false
  · rw [Conn.streamCloseCb, if_pos hboxed]
    exact h
  · rw [Conn.streamCloseCb, if_neg hboxed]
    dsimp only
    split
    · rename_i p htcp
      exact absurd (htcp.symm.trans h.sourced.noTcp) (Option.some_ne_none p)
    · rename_i p _ hudp
      have hpipe := pipe_of_udp (a := {}) (c := { c with stream := false }) hudp
      rw [UdpPipe.onStreamClose, hpipe]
      -- The pipe may have been destroyed by an error or by the owner before the stream closes.
      rcases h.sourced.pipe with ⟨p', hudp', hdestroyed, hsock⟩ | ⟨-, p', hudp', hlive⟩
      · obtain rfl := Option.some.inj (hudp.symm.trans hudp')
        rw [if_pos hdestroyed]
        exact hgone hclosed ⟨p, hudp, hdestroyed, hsock⟩ rfl
      · obtain rfl := Option.some.inj (hudp.symm.trans hudp')
        have hends := ends_destroy (a := {}) (c := { c with stream := false }) hudp hlive
        rw [if_neg (by rw [hlive]; decide)]
        exact hgone (hclosed.trans hends.silent) hends.ended hends.stream
    · rename_i hnone
      rcases h.sourced.pipe with ⟨p, hudp, -⟩ | ⟨-, p, hudp, -⟩
      · exact absurd (hudp.symm.trans hnone) (Option.some_ne_none p)
      · exact absurd (hudp.symm.trans hnone) (Option.some_ne_none p)

theorem Carried.step (h : Carried r f c) {e : Event} (henabled : c.Enabled e) :
    Carried (r ++ received e) (f ++ c.forwarded e) (c.step e) := by
  have hquiet : ∀ {e}, received e = [] → Carried r f (c.step e) →
      Carried (r ++ received e) (f ++ c.forwarded e) (c.step e) := by
    intro e hnone hstep
    rw [forwarded, hnone, List.filter_nil, List.append_nil, List.append_nil]
    exact hstep
  -- The events of a TCP handle do not happen here.
  have hother := ofTcp_of_noTcp h.sourced.noTcp henabled
  obtain ⟨p, hudp⟩ : ∃ p, c.udp = some p := by
    rcases h.sourced.pipe with ⟨p, hudp, -⟩ | ⟨-, p, hudp, -⟩
    · exact ⟨p, hudp⟩
    · exact ⟨p, hudp⟩
  cases e with
  | connected _ _ | read _ _ | written _ => exact Bool.noConfusion hother
  | closed =>
    refine hquiet rfl ?_
    have hstep : c.step .closed = UdpPipe.closedCb (udpHost {}) c := by
      simp only [Conn.step, h.sourced.noTcp]
    rw [hstep]
    exact h.keeps (keeps_closedCb hudp)
  | recv arrived a =>
    -- A socket that still receives belongs to a pipe that is not destroyed.
    have hlive : p.destroyed = false := by
      obtain ⟨s, hs, hreceiving, -⟩ := henabled
      rw [hudp, Option.bind_some] at hs
      rcases h.sourced.pipe with ⟨p', hudp', -, hsock⟩ | ⟨-, p', hudp', hlive⟩
      · obtain rfl := Option.some.inj (hudp.symm.trans hudp')
        exact absurd ((hsock s hs).symm.trans hreceiving) (by decide)
      · obtain rfl := Option.some.inj (hudp.symm.trans hudp')
        exact hlive
    have hrecv : c.step (.recv arrived a) = UdpPipe.recvCb (udpHost a) arrived c := rfl
    cases arrived with
    | datagram data =>
      have hkept : c.forwarded (.recv (.datagram data) a)
          = if c.Overflows data then [] else [data] := by
        by_cases hover : c.Overflows data <;> simp [forwarded, received, hover]
      rw [hkept]
      exact h.recv hudp hlive data
    | error =>
      refine hquiet rfl ?_
      rw [hrecv, UdpPipe.recvCb, pipe_of_udp hudp, hlive, if_neg (by decide)]
      exact h.destroy
    | _ =>
      refine hquiet rfl ?_
      rw [hrecv, UdpPipe.recvCb, pipe_of_udp hudp, hlive, if_neg (by decide)]
      exact h
  | streamOpen a => exact hquiet rfl (h.streamOpenCb henabled.1 a)
  | streamData data a =>
    refine hquiet rfl ?_
    have hboxed : ¬c.boxed = false := by
      rw [h.sourced.boxed henabled.1]
      decide
    have hstep : c.step (.streamData data a) = UdpPipe.onStreamData (udpHost a) data c := by
      rw [Conn.step, streamDataCb, if_neg hboxed]
      simp only [h.sourced.noTcp, hudp]
    rw [hstep]
    rcases onStreamData_cases hudp data with hkeeps | hends
    · exact h.keeps hkeeps
    · exact h.ends hends
  | streamClose => exact hquiet rfl h.streamCloseCb
  | drained drain uv =>
    have hmem := henabled.2
    rw [h.sourced.noDrains.1] at hmem
    exact absurd hmem List.not_mem_nil
  | destroy =>
    refine hquiet rfl ?_
    have hstep : c.step .destroy = UdpPipe.destroy (udpHost {}) c := by
      simp only [Conn.step, Conn.destroy, h.sourced.noTcp, hudp]
    rw [hstep]
    exact h.destroy

/-- A connection is accepted, whether or not its socket could be started. -/
theorem carried_connectionCb (uv : Uv) : Carried [] [] (connectionCb true uv) := by
  have hstart : ∀ p : UdpPipe, p.destroyed = false → Carried [] []
      { stream := true, boxed := true, keep := true, udp := some p } := by
    intro p hlive
    exact ⟨⟨rfl, ⟨rfl, rfl⟩, Or.inr ⟨rfl, p, rfl, hlive⟩, fun _ ↦ rfl⟩, fun _ ↦ framed_start _⟩
  have hinit := hstart { onDestroy := true } rfl
  have hsocket := hstart { onDestroy := true, sock := some {} } rfl
  change Carried [] [] (UdpPipe.start (udpHost {}) uv _).2
  simp only [UdpPipe.start]
  split_ifs
  · exact hinit
  · exact hinit
  · exact hinit
  · exact hsocket.destroy
  · exact hsocket.destroy
  · exact hstart { onDestroy := true, sock := some { receiving := true } } rfl

end Step

/-- **What crosses a stream to the client.** -/
theorem carried_run (uv : Uv) {es : List Event}
    (henabled : Along step Enabled (connectionCb true uv) es) :
    Carried (es.flatMap received) (trace step forwarded (connectionCb true uv) es)
      (run step (connectionCb true uv) es) := by
  refine history_of_along (G := Enabled) (P := fun es c ↦ Carried (es.flatMap received)
    (trace step forwarded (connectionCb true uv) es) c) (carried_connectionCb uv) ?_ henabled
  intro es e h henabled
  rw [trace_concat, List.flatMap_append, List.flatMap_singleton]
  exact h.step henabled

end Conn

end HolesailServer

end Holesail
