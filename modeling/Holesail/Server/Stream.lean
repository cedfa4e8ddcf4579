import Holesail.Pipe.Queue
import Holesail.Server.Failures
import Holesail.Server.Lossless
import Holesail.Theory.Conduit

/-!
# What becomes of the bytes of a server's connection

A TCP connection of the server is a gateway between the stream and the local service. What comes
over the stream waits in libuv's queue and is written in order. What the service says goes to the
stream, or into the buffer until the stream opens.

The way from the stream to the service is a conduit in every run. The way back is one in the runs
that drop nothing: no read overflows the buffer, and the flush of the buffer is not refused while
there is a pipe to read on. In any other run it leaks, which still puts nothing in another order.

## Main results

`carries_received`, `carries_reads` and `leaks_reads`.
-/

namespace Holesail

namespace HolesailServer

namespace Conn

open Run

variable {a : Answers} {b : Bool} {c c' c'' : Conn} {e : Event}

/-! ## The gateway -/

def Event.received : Event → Bytes
  | .streamData data _ => data
  | _ => []

/-- The bytes whose write an event completes. -/
def completes (c : Conn) : Event → Bytes
  | .written status =>
    if status = 0 then (((TcpPipe.handle c.tcp).map UvTcp.writes).getD []).headD [] else []
  | _ => []

/-- The bytes that the stream takes in an event. -/
def sends (c : Conn) (e : Event) : Bytes := taken ((c.step e).calls.drop c.calls.length)

/-- `uv_close` cancels the writes in flight. -/
def Cancels (c : Conn) : Event → Prop
  | .written status => ∀ t ∈ TcpPipe.handle c.tcp, t.Cancels status
  | _ => True

instance (c : Conn) : (e : Event) → Decidable (c.Cancels e)
  | .written _ => inferInstanceAs (Decidable (∀ t ∈ TcpPipe.handle c.tcp, _))
  | .connected _ _ | .read _ _ | .closed | .recv _ _ | .streamOpen _ | .streamData _ _
  | .streamClose | .drained _ _ | .destroy => inferInstanceAs (Decidable True)

/-- The event may happen, and does not undo what `uv_close` did. -/
def Orderly (c : Conn) (e : Event) : Prop := c.Enabled e ∧ c.Cancels e

instance (c : Conn) (e : Event) : Decidable (c.Orderly e) := inferInstanceAs (Decidable (_ ∧ _))

/-- A connection of the server, between the stream and the local service. -/
def gateway : Conduit.Gateway Conn Event UInt8 where
  step := step
  reads := fun _ ↦ Event.readBytes
  sends := sends
  receives := fun _ ↦ Event.received
  writes := completes

/-- The bytes on their way to the local service. -/
def underway (c : Conn) : Bytes := (c.tcp.getD {}).queue.flatten

/-- The local handle is open. -/
def Standing (c : Conn) : Prop := (c.tcp.getD {}).Open

instance (c : Conn) : Decidable c.Standing := inferInstanceAs (Decidable (TcpPipe.Open _))

/-- The invariant: a TCP connection somewhere in its life. -/
def Living (c : Conn) : Prop := ∃ b, TcpAt b b (TcpLife b) c

theorem living_connectionCb (uv : Uv) : Living (connectionCb false uv) :=
  ⟨true, tcpAt_connectionCb uv⟩

theorem Living.step (h : Living c) (he : c.Enabled e) : Living (c.step e) := by
  obtain ⟨b, h⟩ := h
  by_cases hclose : e = .streamClose
  · subst hclose
    obtain rfl : b = true := h.stream.symm.trans he
    exact ⟨false, h.streamCloseCb⟩
  by_cases hclosed : e = .closed
  · subst hclosed
    obtain ⟨p, htcp, -⟩ := h.pipe
    rcases he with ⟨t, ht, hclosing, -⟩ | ⟨sock, hsock, -⟩
    · rw [Conn.step, htcp]
      exact ⟨b, (h.closedCb ht hclosing).imp fun p hp ↦ hp.life⟩
    · rw [h.udp] at hsock
      exact absurd hsock (Option.not_mem_none sock)
  · exact ⟨b, survives_life.step h he hclosed hclose⟩

/-! ## The queue toward the local service -/

/-- The server's connection is a world that does not come back to its pipe. -/
theorem plain_tcpHost (a : Answers) : (tcpHost a).Plain where
  pipe_setPipe _ _ := rfl
  pipe_write data onDrain c := by
    cases onDrain <;> simp only [tcpHost, makeSide, streamWrite] <;> split_ifs <;> rfl
  pipe_pause c := congrArg (·.getD {}) (tcp_streamCall .pause c)
  pipe_resume c := congrArg (·.getD {}) (tcp_streamCall .resume c)
  pipe_close c := congrArg (·.getD {}) (tcp_streamCall .close c)
  pipe_uvClose _ _ := rfl
  pipe_onReady _ _ := rfl
  pipe_onDestroy _ := rfl

theorem underway_connectionCb (uv : Uv) : underway (connectionCb false uv) = [] :=
  congrArg List.flatten ((plain_tcpHost {}).queue_connect uv 0 false
    (w := { stream := true, boxed := true, keep := true, tcp := some { onDestroy := true } }) rfl)

def Rests (c c' : Conn) : Prop := (c.tcp.getD {}).Rests (c'.tcp.getD {})

theorem rests_of_tcp (h : c'.tcp = c.tcp) : Rests c c' := by
  rw [Rests, h]
  exact .refl _

theorem Rests.trans (h : Rests c c') (h' : Rests c' c'') : Rests c c'' :=
  TcpPipe.Rests.trans h h'

theorem rests_streamOpenCb (a : Answers) (c : Conn) : Rests c (c.streamOpenCb a) :=
  streamOpenCb_induction (P := Rests c) (rests_of_tcp rfl) (fun _ _ _ _ ↦ rests_of_tcp rfl)
    fun {c'} drain h ↦ h.trans ((plain_tcpHost { uv := a.uv }).rests_onDrain a.uv drain.len
      { c' with fired := c'.fired ++ [drain] })

/-- The events that queue a chunk or take one off the queue. -/
def Event.movesQueue : Event → Bool
  | .streamData _ _ | .written _ | .closed => true
  | _ => false

/-- **Every other event leaves the queue at rest.** -/
theorem rests_step (h : Living c) (he : c.Enabled e) (hmoves : e.movesQueue = false) :
    Rests c (c.step e) := by
  obtain ⟨b, h⟩ := h
  obtain ⟨p, htcp, -⟩ := h.pipe
  cases e with
  | connected status uv => exact (plain_tcpHost {}).rests_connectCb uv status c
  | read nread a =>
    have hmarked : Rests c ((tcpHost a).modify (TcpPipe.markEnded nread) c) :=
      (plain_tcpHost a).rests_modify (TcpPipe.turned_markEnded _ nread).rests
    have hread : Rests ((tcpHost a).modify (TcpPipe.markEnded nread) c) (c.step (.read nread a)) :=
      (plain_tcpHost a).rests_readCb nread ((tcpHost a).modify (TcpPipe.markEnded nread) c)
    exact hmarked.trans hread
  | written _ | closed | streamData _ _ => exact Bool.noConfusion hmoves
  | recv r a =>
    obtain ⟨sock, hsock, -⟩ := he
    rw [h.udp] at hsock
    exact absurd hsock (Option.not_mem_none sock)
  | streamOpen a => exact rests_streamOpenCb a c
  | streamClose =>
    have hend : Rests { c with stream := false }
        (TcpPipe.onStreamClose (tcpHost {}) { c with stream := false }) :=
      (plain_tcpHost {}).rests_onStreamClose { c with stream := false }
    rw [Conn.step, streamCloseCb]
    split_ifs
    · exact rests_of_tcp rfl
    · simp only [htcp] at hend ⊢
      exact Rests.trans (rests_of_tcp htcp.symm) (hend.trans (rests_of_tcp rfl))
  | drained drain uv =>
    exact (plain_tcpHost { uv := uv }).rests_onDrain uv drain.len { c with
      drains := c.drains.erase drain
      freed := c.freed ++ [drain]
      fired := c.fired ++ [drain] }
  | destroy =>
    have hend := (plain_tcpHost {}).rests_destroy c
    have hudp : (TcpPipe.destroy (tcpHost {}) c).udp = none := (h.destroy (a := {})).udp
    simp only [Conn.step, destroy, htcp, hudp]
    exact hend

/-! ## From the stream to the local service -/

theorem Living.attached (h : Living c) (hstands : Standing c) : ∃ p t, c.tcp = some p ∧
    p.tcp = some t ∧ t.closing = false ∧ p.destroyed = false ∧ p.closing = false := by
  obtain ⟨b, h⟩ := h
  obtain ⟨p, htcp, hlife, -⟩ := h.pipe
  rw [Standing, htcp, Option.getD_some] at hstands
  obtain ⟨t, ht, hopen⟩ := hstands
  refine ⟨p, t, htcp, ht, hopen, ?_⟩
  generalize c.keep = keep at hlife
  cases hlife with
  | bare _ _ _ hnone => exact absurd (ht.symm.trans hnone) (Option.some_ne_none t)
  | attached h => exact ⟨h.1, h.2.1⟩
  | detaching h =>
    obtain ⟨-, -, -, id, hbond⟩ := h
    rw [TcpPipe.bond, ht, Option.map_some, hopen] at hbond
    exact absurd (congrArg Prod.snd (Option.some.inj hbond)) Bool.false_ne_true
  | gone _ _ hnone => exact absurd (ht.symm.trans hnone) (Option.some_ne_none t)

theorem Living.sameLife (h : Living c) (hstands : Standing c) :
    TcpPipe.SameLife ((tcpHost a).pipe c) {} := by
  obtain ⟨p, t, htcp, -, -, hdestroyed, hclosing⟩ := h.attached hstands
  rw [pipe_of_tcp htcp]
  exact ⟨hdestroyed.symm, hclosing.symm⟩

theorem not_standing_of_closing {t : UvTcp} (ht : t ∈ TcpPipe.handle c.tcp)
    (hclosing : t.closing = true) :
    ¬Standing c := by
  rw [TcpPipe.handle, Option.mem_def, Option.bind_eq_some_iff] at ht
  obtain ⟨p, htcp, hp⟩ := ht
  rw [Standing, htcp, Option.getD_some]
  rintro ⟨u, hu, hopen⟩
  obtain rfl := Option.some.inj (hp.symm.trans hu)
  exact absurd (hclosing.symm.trans hopen) (by decide)

theorem not_standing_closed (h : Living c) (he : c.Enabled .closed) :
    ¬Standing c ∧ ¬Standing (c.step .closed) := by
  obtain ⟨b, h⟩ := h
  obtain ⟨p, htcp, -⟩ := h.pipe
  rcases he with ⟨t, ht, hclosing, -⟩ | ⟨sock, hsock, -⟩
  · refine ⟨not_standing_of_closing ht hclosing, ?_⟩
    rw [Conn.step, htcp]
    obtain ⟨p', htcp', ⟨-, -, -, hnone⟩, -⟩ := (h.closedCb (a := {}) ht hclosing).pipe
    rw [Standing, htcp', Option.getD_some]
    rintro ⟨u, hu, -⟩
    exact absurd (hu.symm.trans hnone) (Option.some_ne_none u)
  · rw [h.udp] at hsock
    exact absurd hsock (Option.not_mem_none sock)

theorem exists_queue {t : UvTcp} (ht : t ∈ TcpPipe.handle c.tcp) :
    ((tcpHost a).pipe c).queue = t.writes ∧
      ((TcpPipe.handle c.tcp).map UvTcp.writes).getD [] = t.writes := by
  rw [TcpPipe.handle, Option.mem_def, Option.bind_eq_some_iff] at ht
  obtain ⟨p, htcp, hp⟩ := ht
  rw [pipe_of_tcp htcp, TcpPipe.queue, hp, TcpPipe.handle, htcp, Option.bind_some, hp]
  exact ⟨rfl, rfl⟩

/-- **No event opens a handle.** -/
theorem standing_of_step (h : Living c) (he : c.Enabled e) (hstands : Standing (c.step e)) :
    Standing c := by
  cases hmoves : e.movesQueue with
  | false => exact (rests_step h he hmoves).opened hstands
  | true =>
    cases e with
    | streamData data a =>
      obtain ⟨b, h⟩ := h
      obtain ⟨p, htcp, -⟩ := h.pipe
      rw [Conn.step, streamDataCb, htcp] at hstands
      split_ifs at hstands
      · exact hstands
      · exact (plain_tcpHost a).opened_onStreamData a.uv data c hstands
    | written status =>
      obtain ⟨t, ht, hsome⟩ := he
      obtain ⟨d, q, hwrites⟩ := List.exists_cons_of_ne_nil hsome
      have hqueue := (exists_queue (a := {}) ht).1.trans hwrites
      exact ((plain_tcpHost {}).writeCb_queue status hqueue).2.1 hstands
    | closed => exact absurd hstands (not_standing_closed h he).2
    | _ => exact Bool.noConfusion hmoves

theorem underway_streamData {data : Bytes} (h : Living c) (he : c.Enabled (.streamData data a))
    (hstands : Standing c) (hstill : Standing (c.step (.streamData data a))) :
    underway (c.step (.streamData data a)) = underway c ++ data := by
  have hlive := h.sameLife (a := a) hstands
  obtain ⟨p, t, htcp, ht, -, hdestroyed, hclosing⟩ := h.attached hstands
  obtain ⟨b, h⟩ := h
  have hboxed : ¬c.boxed = false := by
    rw [h.boxed, ← h.stream, he.1]
    decide
  have hstep : c.step (.streamData data a) = TcpPipe.onStreamData (tcpHost a) a.uv data c := by
    rw [Conn.step, streamDataCb, if_neg hboxed, htcp]
  rw [hstep] at hstill ⊢
  rcases (plain_tcpHost a).onStreamData_cases a.uv data c with hqueued | ⟨hsame, hwhy⟩ | hend
  · exact (congrArg List.flatten hqueued).trans List.flatten_concat
  · rw [pipe_of_tcp htcp, ht, hdestroyed, hclosing] at hwhy
    have hempty : data = [] := by simpa using hwhy
    rw [hsame, hempty, List.append_nil]
  · rw [hend] at hstill
    exact absurd hstill ((plain_tcpHost a).not_open_destroy hlive)

/-- The oldest write leaves the queue, and a handle that stays open has written it. -/
theorem underway_written {status : ℤ} (h : Living c) (he : c.Enabled (.written status))
    (hstands : Standing c) : completes c (.written status) <+: underway c ∧
      (Standing (c.step (.written status)) →
        underway c = completes c (.written status) ++ underway (c.step (.written status))) := by
  obtain ⟨t, ht, hsome⟩ := he
  obtain ⟨d, q, hwrites⟩ := List.exists_cons_of_ne_nil hsome
  obtain ⟨hqueue, hhandle⟩ := exists_queue (a := {}) ht
  obtain ⟨hnext, -, hfails⟩ :=
    (plain_tcpHost {}).writeCb_queue status (hqueue.trans hwrites)
  have hunderway : underway c = d ++ q.flatten := congrArg List.flatten (hqueue.trans hwrites)
  have hcompletes : completes c (.written status) = if status = 0 then d else [] := by
    rw [completes, hhandle, hwrites]
    rfl
  have hleft : underway (c.step (.written status)) = q.flatten := congrArg List.flatten hnext
  rw [hcompletes, hunderway, hleft]
  constructor
  · split_ifs
    · exact List.prefix_append d _
    · exact List.nil_prefix
  · intro hstill
    have hstatus : status = 0 := by
      by_contra hstatus
      exact hfails (h.sameLife hstands) hstatus hstill
    rw [if_pos hstatus]

theorem completes_of_fallen (he : c.Orderly e) (hfallen : ¬Standing c) :
    completes c e = [] := by
  cases e with
  | written status =>
    obtain ⟨⟨t, ht, -⟩, hcancels⟩ := he
    refine if_neg (hcancels t ht ?_)
    by_contra hopen
    refine hfallen ?_
    rw [TcpPipe.handle, Option.mem_def, Option.bind_eq_some_iff] at ht
    obtain ⟨p, htcp, hp⟩ := ht
    rw [Standing, htcp]
    exact ⟨t, hp, Bool.of_not_eq_true hopen⟩
  | _ => rfl

/-- **From the stream to the local service.** -/
theorem carries_received : Conduit.Carries gateway.step Orderly Living
    gateway.receives gateway.writes underway Standing where
  keeps h he := h.step he.1
  stands {c e} h he hstands hstill := by
    obtain ⟨he, -⟩ := he
    cases hmoves : e.movesQueue with
    | false =>
      have hsame : underway (c.step e) = underway c :=
        congrArg List.flatten (rests_step h he hmoves).queue
      have hnothing : e.received = [] ∧ completes c e = [] := by
        cases e <;> first | exact ⟨rfl, rfl⟩ | exact Bool.noConfusion hmoves
      change underway c ++ e.received = completes c e ++ underway (c.step e)
      rw [hsame, hnothing.1, hnothing.2, List.append_nil, List.nil_append]
    | true =>
      cases e with
      | streamData data a => exact (underway_streamData h he hstands hstill).symm
      | written status =>
        exact (List.append_nil _).trans ((underway_written h he hstands).2 hstill)
      | closed => exact absurd hstands (not_standing_closed h he).1
      | _ => exact Bool.noConfusion hmoves
  falls {c e} h he hstands _ := by
    cases e with
    | written status =>
      exact (underway_written h he.1 hstands).1.trans (List.prefix_append _ _)
    | _ => exact List.nil_prefix
  fallen {c e} h he hfallen :=
    ⟨mt (standing_of_step h he.1) hfallen, completes_of_fallen he hfallen⟩

/-! ## From the local service to the stream -/

/-- The stream takes nothing meanwhile, and what is withheld stays withheld. -/
structure Hushed (c c' : Conn) : Prop where
  streamOpen : c'.streamOpen = c.streamOpen
  pending : c'.pending = c.pending
  calls : ∃ l, c'.calls = c.calls ++ l ∧ taken l = []

theorem hushed_of_calls (hopen : c'.streamOpen = c.streamOpen) (hpending : c'.pending = c.pending)
    (hcalls : c'.calls = c.calls) : Hushed c c' :=
  ⟨hopen, hpending, [], by rw [hcalls, List.append_nil], rfl⟩

theorem Hushed.trans (h : Hushed c c') (h' : Hushed c' c'') : Hushed c c'' := by
  obtain ⟨l, hl, hnone⟩ := h.calls
  obtain ⟨l', hl', hnone'⟩ := h'.calls
  refine ⟨h'.streamOpen.trans h.streamOpen, h'.pending.trans h.pending, l ++ l', ?_, ?_⟩
  · rw [hl', hl, List.append_assoc]
  · rw [taken_append, hnone, hnone']
    rfl

theorem sends_of_append {l : List StreamCall} (h : (c.step e).calls = c.calls ++ l) :
    sends c e = taken l := by
  rw [sends, h, List.drop_left]

theorem Hushed.sends (h : Hushed c (c.step e)) : sends c e = [] := by
  obtain ⟨l, hl, hnone⟩ := h.calls
  rw [sends_of_append hl, hnone]

theorem hushed_streamCall {call : StreamCall} (hcall : taken [call] = []) (c : Conn) :
    Hushed c (c.streamCall call) := by
  unfold streamCall
  split_ifs
  · exact ⟨rfl, rfl, [call], rfl, hcall⟩
  · exact hushed_of_calls rfl rfl rfl

/-- But for the writes and the opening, no callback hands anything to the stream. -/
theorem allows_hushed : Allows Hushed where
  refl := fun _ ↦ hushed_of_calls rfl rfl rfl
  trans := Hushed.trans
  own := fun _ _ _ _ _ _ _ _ _ ↦ hushed_of_calls rfl rfl rfl
  pause := hushed_streamCall rfl
  resume := hushed_streamCall rfl
  close := hushed_streamCall rfl

/-- **Only a read of some bytes and the opening hand anything to the stream.** -/
theorem hushed_step (h : Living c) (he : c.Enabled e) (hread : e.readBytes = [])
    (hopen : e.isOpen = false) : Hushed c (c.step e) := by
  obtain ⟨b, h⟩ := h
  obtain ⟨p, htcp, -⟩ := h.pipe
  refine allows_hushed.step htcp h.udp he ?_ ?_
  · rintro a rfl
    exact Bool.noConfusion hopen
  rintro nread a rfl
  have hmarked : Hushed c ((tcpHost a).modify (TcpPipe.markEnded nread) c) :=
    hushed_of_calls rfl rfl rfl
  refine hmarked.trans ?_
  cases nread with
  | eof => exact (allows_hushed.within a).readCb .eof _
  | error => exact (allows_hushed.within a).readCb .error _
  | data bytes =>
    obtain rfl : bytes = [] := hread
    rw [Conn.step, TcpPipe.readCb.eq_def]
    split_ifs <;> exact hushed_of_calls rfl rfl rfl

/-- **The opening** flushes, and releases the `on_drain`s. -/
theorem hushed_flushed (hstream : c.stream = true) (hboxed : c.boxed = true) (a : Answers) :
    Hushed (c.flushed a) (c.streamOpenCb a) := by
  by_cases hpending : c.pending = []
  · simp only [streamOpenCb, flush, releaseDrains, hboxed, Bool.true_eq_false, if_false,
      if_pos hpending, flushed, List.append_nil, lt_irrefl]
    rw [hpending]
    exact allows_hushed.foldl_fireDrain a.uv _ _
  · by_cases hrc : a.write < 0
    · simp only [streamOpenCb, flush, streamWrite, hboxed, Bool.true_eq_false, if_false, hstream,
        if_true, if_neg hpending, if_pos hrc, flushed]
      exact hushed_of_calls rfl rfl rfl
    · simp only [streamOpenCb, flush, releaseDrains, streamWrite, hboxed, Bool.true_eq_false,
        if_false, hstream, if_true, if_neg hpending, if_neg hrc, flushed]
      exact allows_hushed.foldl_fireDrain a.uv _ _

/-- A read finds room. -/
def Fitting (c : Conn) : Event → Prop
  | .read (.data bytes) _ =>
    c.streamOpen = true ∨ c.pending.length + bytes.length ≤ kMaxPendingBytes
  | _ => True

instance (c : Conn) : (e : Event) → Decidable (c.Fitting e)
  | .read (.data _) _ => inferInstanceAs (Decidable (_ ∨ _))
  | .read .eof _ | .read .error _ | .connected _ _ | .written _ | .closed | .recv _ _
  | .streamOpen _ | .streamData _ _ | .streamClose | .drained _ _ | .destroy =>
    inferInstanceAs (Decidable True)

/-- What an event does to what is on its way to the stream. -/
inductive Course (c : Conn) (e : Event) : Prop
  | hushed (hread : e.readBytes = []) (hopen : (c.step e).streamOpen = c.streamOpen)
      (hpending : (c.step e).pending = c.pending) (hsends : sends c e = [])
  | flushed (hread : e.readBytes = []) (hclosed : c.streamOpen = false)
      (hpending : (c.step e).pending = []) (hsends : sends c e = c.pending)
  /-- The flush is refused. -/
  | spilled (hread : e.readBytes = []) (hclosed : c.streamOpen = false) (hfails : c.FlushFails e)
      (hopens : (c.step e).streamOpen = true) (hpending : (c.step e).pending = [])
      (hsends : sends c e = [])
  | withheld (hclosed : c.streamOpen = false) (hstays : (c.step e).streamOpen = false)
      (hpending : (c.step e).pending = c.pending ++ e.readBytes) (hsends : sends c e = [])
  /-- There is no room. -/
  | dropped (hclosed : c.streamOpen = false) (hfull : ¬c.Fitting e)
      (hstays : (c.step e).streamOpen = false) (hpending : (c.step e).pending = c.pending)
      (hsends : sends c e = [])
  | handed (hopen : c.streamOpen = true) (hlives : ¬c.PipeDestroyed)
      (hpending : (c.step e).pending = c.pending) (hsends : sends c e = e.readBytes)
  /-- The stream refuses what was read. -/
  | refused (hopen : c.streamOpen = true) (hlives : ¬c.PipeDestroyed)
      (hstays : (c.step e).streamOpen = true) (hdestroyed : (c.step e).PipeDestroyed)
      (hpending : (c.step e).pending = c.pending) (hsends : sends c e = [])

theorem write_fails (data : Bytes) (drain : Drain) (hopen : c.streamOpen = true)
    (hfails : ¬(c.stream = true ∧ 0 ≤ a.write)) :
    ∃ rc c₂, (makeSide a).write data (some drain) c = (rc, c₂) ∧ rc < 0 ∧ Hushed c c₂ := by
  by_cases hstream : c.stream = true
  · have hrc : a.write < 0 := not_le.mp fun hrc ↦ hfails ⟨hstream, hrc⟩
    refine ⟨_, _, write_refused hopen hstream hrc, hrc, rfl, rfl, _, rfl, ?_⟩
    exact taken_write_of_refused hrc data
  · have hwrite : (makeSide a).write data (some drain) c = (uvEINVAL, { c with
        drains := (c.drains ++ [drain]).erase drain
        allocated := c.allocated ++ [drain]
        freed := c.freed ++ [drain] }) := by
      simp only [makeSide, streamWrite, hopen, Bool.true_eq_false, if_false, hstream]
      rfl
    exact ⟨uvEINVAL, _, hwrite, by decide, hushed_of_calls rfl rfl rfl⟩

/-- The pipe that hands what it read to the stream. -/
def reading (p : TcpPipe) (bytes : Bytes) : TcpPipe :=
  { p with
    streamPendingBytes := p.streamPendingBytes + bytes.length
    drains := p.drains + 1 }

theorem after_write {rc : ℤ} {c₂ : Conn} {p : TcpPipe} {bytes : Bytes}
    (htcp : c.tcp = some p) (hopen : p.destroyed = false) (hne : bytes ≠ [])
    (hwrite : (makeSide a).write bytes (some ⟨p.drains, bytes.length⟩)
      { c with tcp := some (reading p bytes) } = (rc, c₂)) (hrc : 0 ≤ rc) :
    (TcpPipe.readCb (tcpHost a) (.data bytes) c).streamOpen = c₂.streamOpen ∧
      (TcpPipe.readCb (tcpHost a) (.data bytes) c).pending = c₂.pending ∧
      (TcpPipe.readCb (tcpHost a) (.data bytes) c).calls = c₂.calls := by
  rw [readCb_data_eq htcp hopen hne hwrite, if_neg (not_lt.mpr hrc)]
  split_ifs <;> exact ⟨rfl, rfl, rfl⟩

theorem course_read (h : Living c) {bytes : Bytes} (he : c.Enabled (.read (.data bytes) a))
    (hne : bytes ≠ []) : Course c (.read (.data bytes) a) := by
  have hnext := h.step he
  obtain ⟨t, ht, -, hhandle, -⟩ := he
  have hstands : Standing c := by
    rw [TcpPipe.handle, Option.mem_def, Option.bind_eq_some_iff] at ht
    obtain ⟨p, htcp, hp⟩ := ht
    rw [Standing, htcp]
    exact ⟨t, hp, hhandle⟩
  obtain ⟨p, -, htcp, -, -, hdestroyed, hclosing⟩ := h.attached hstands
  have hstep := step_read_data ⟨p, htcp, hdestroyed, hclosing⟩ bytes a
  have hlives : ¬c.PipeDestroyed := fun hend ↦
    absurd (hdestroyed.symm.trans (hend.1 p htcp)) Bool.false_ne_true
  cases hopen : c.streamOpen with
  | false =>
    by_cases hfull : kMaxPendingBytes < c.pending.length + bytes.length
    · obtain ⟨hstays, hpending, hcalls⟩ := after_write htcp hdestroyed hne
        (write_dropped (a := a) (c := { c with tcp := some (reading p bytes) }) hopen hfull)
        (by decide)
      rw [← hstep] at hstays hpending hcalls
      have hhushed : Hushed c (c.step (.read (.data bytes) a)) :=
        hushed_of_calls hstays hpending hcalls
      refine .dropped hopen ?_ (hstays.trans hopen) hpending hhushed.sends
      rintro (hopened | hfits)
      · exact absurd (hopen.symm.trans hopened) Bool.false_ne_true
      · exact absurd hfull (not_lt.mpr hfits)
    · obtain ⟨hstays, hpending, hcalls⟩ := after_write htcp hdestroyed hne
        (write_buffered (a := a) (c := { c with tcp := some (reading p bytes) }) hopen hfull)
        (by decide)
      rw [← hstep] at hstays hpending hcalls
      exact .withheld hopen (hstays.trans hopen) hpending
        (sends_of_append (hcalls.trans (List.append_nil _).symm))
  | true =>
    by_cases htaken : c.stream = true ∧ 0 ≤ a.write
    · obtain ⟨-, hpending, hcalls⟩ := after_write htcp hdestroyed hne
        (write_through (c := { c with tcp := some (reading p bytes) }) hopen htaken.1 htaken.2)
        htaken.2
      rw [← hstep] at hpending hcalls
      exact .handed hopen hlives hpending
        ((sends_of_append hcalls).trans (taken_write_of_accepted htaken.2 bytes))
    · obtain ⟨rc, c₂, hwrite, hrc, hwritten⟩ := write_fails bytes
        ⟨p.drains, bytes.length⟩ (c := { c with tcp := some (reading p bytes) })
        hopen htaken
      have hend := readCb_data_eq htcp hdestroyed hne hwrite
      rw [if_pos hrc, ← hstep] at hend
      have hhushed : Hushed c (c.step (.read (.data bytes) a)) := by
        have hbegun : Hushed c { c with tcp := some (reading p bytes) } :=
          hushed_of_calls rfl rfl rfl
        have hacked : Hushed c₂ ((tcpHost a).modify (fun p ↦ p.ack bytes.length) c₂) :=
          hushed_of_calls rfl rfl rfl
        rw [hend]
        exact hbegun.trans (hwritten.trans (hacked.trans ((allows_hushed.within a).destroy _)))
      refine .refused hopen hlives (hhushed.streamOpen.trans hopen) ?_ hhushed.pending hhushed.sends
      obtain ⟨b, hnext⟩ := hnext
      obtain ⟨p', htcp', -⟩ := hnext.pipe
      refine ⟨fun q hq ↦ ?_, fun q hq ↦ ?_⟩
      · have hpipe := (plain_tcpHost a).destroyed_destroy
          ((tcpHost a).modify (fun p ↦ p.ack bytes.length) c₂)
        rw [← hend, pipe_of_tcp hq] at hpipe
        exact hpipe
      · rw [hnext.udp] at hq
        exact absurd hq (Option.not_mem_none q)

theorem course_streamOpen (h : Living c) (he : c.Enabled (.streamOpen a)) :
    Course c (.streamOpen a) := by
  obtain ⟨b, h⟩ := h
  obtain ⟨hstream, hclosed⟩ := he
  have hboxed : c.boxed = true := h.boxed.trans (h.stream.symm.trans hstream)
  have hafter : Hushed (c.flushed a) (c.step (.streamOpen a)) := hushed_flushed hstream hboxed a
  obtain ⟨l, hl, hnone⟩ := hafter.calls
  by_cases hpending : c.pending = []
  · refine .flushed rfl hclosed hafter.pending ?_
    rw [flushed, if_pos hpending, List.append_nil] at hl
    rw [sends_of_append hl, hnone, hpending]
  · rw [flushed, if_neg hpending, List.append_assoc] at hl
    have hsends : sends c (.streamOpen a) = taken [.write c.pending a.write] := by
      rw [sends_of_append hl, taken_append, hnone, List.append_nil]
    by_cases hrc : a.write < 0
    · exact .spilled rfl hclosed ⟨hpending, hrc⟩ hafter.streamOpen hafter.pending
        (hsends.trans (taken_write_of_refused hrc c.pending))
    · exact .flushed rfl hclosed hafter.pending
        (hsends.trans (taken_write_of_accepted (not_lt.mp hrc) c.pending))

theorem course (h : Living c) (he : c.Enabled e) : Course c e := by
  by_cases hread : e.readBytes = []
  · cases hopen : e.isOpen with
    | false =>
      have hhushed := hushed_step h he hread hopen
      exact .hushed hread hhushed.streamOpen hhushed.pending hhushed.sends
    | true =>
      cases e with
      | streamOpen a => exact course_streamOpen h he
      | _ => exact Bool.noConfusion hopen
  · cases e with
    | read nread a =>
      cases nread with
      | data bytes => exact course_read h he hread
      | _ => exact absurd rfl hread
    | _ => exact absurd rfl hread

/-- The invariant: besides, nothing is withheld from a stream that has opened. -/
structure Settled (c : Conn) : Prop where
  living : Living c
  released : c.streamOpen = true → c.pending = []

theorem pending_connectionCb (uv : Uv) : (connectionCb false uv).pending = [] :=
  ((allows_hushed.within {}).connect uv 0 false _).pending

theorem settled_connectionCb (uv : Uv) : Settled (connectionCb false uv) :=
  ⟨living_connectionCb uv, fun _ ↦ pending_connectionCb uv⟩

theorem Settled.step (h : Settled c) (he : c.Enabled e) : Settled (c.step e) := by
  refine ⟨h.living.step he, fun hopen ↦ ?_⟩
  cases course h.living he with
  | hushed _ hsame hpending => exact hpending.trans (h.released (hsame.symm.trans hopen))
  | flushed _ _ hpending => exact hpending
  | spilled _ _ _ _ hpending => exact hpending
  | withheld _ hstays => exact absurd (hstays.symm.trans hopen) Bool.false_ne_true
  | dropped _ _ hstays => exact absurd (hstays.symm.trans hopen) Bool.false_ne_true
  | handed hopen _ hpending => exact hpending.trans (h.released hopen)
  | refused hopen _ _ _ hpending => exact hpending.trans (h.released hopen)

/-- The stream has yet to open, or there is a pipe to read on. -/
def Passing (c : Conn) : Prop := c.streamOpen = false ∨ ¬c.PipeDestroyed

instance (c : Conn) : Decidable c.Passing := inferInstanceAs (Decidable (_ ∨ _))

/-- An event at which nothing is dropped. -/
def Spares (c : Conn) (e : Event) : Prop := c.Orderly e ∧ c.Fitting e ∧ c.Unharmed e

instance (c : Conn) (e : Event) : Decidable (c.Spares e) := inferInstanceAs (Decidable (_ ∧ _))

theorem Living.step_pipeDestroyed (h : Living c) (he : c.Enabled e) (hdestroyed : c.PipeDestroyed) :
    (c.step e).PipeDestroyed := by
  obtain ⟨b, h⟩ := h
  exact Life.step_pipeDestroyed (Or.inl h) hdestroyed he

/-- **From the local service to the stream**, when nothing is dropped. -/
theorem carries_reads : Conduit.Carries gateway.step Spares Settled
    gateway.reads gateway.sends pending Passing where
  keeps h he := h.step he.1.1
  stands {c e} h he _ hstill := by
    change c.pending ++ e.readBytes = sends c e ++ (c.step e).pending
    cases course h.living he.1.1 with
    | hushed hread _ hpending hsends => rw [hread, hpending, hsends, List.append_nil]; rfl
    | flushed hread _ hpending hsends => rw [hread, hpending, hsends]
    | spilled _ _ hfails hopens =>
      have hdestroyed := h.living.step_pipeDestroyed he.1.1 (he.2.2 hfails)
      rcases hstill with hclosed | hlives
      · exact absurd (hclosed.symm.trans hopens) Bool.false_ne_true
      · exact absurd hdestroyed hlives
    | withheld _ _ hpending hsends => rw [hpending, hsends]; rfl
    | dropped _ hfull => exact absurd he.2.1 hfull
    | handed hopen _ hpending hsends =>
      rw [hpending, hsends, h.released hopen, List.append_nil]
      rfl
    | refused _ _ hstays hdestroyed =>
      rcases hstill with hclosed | hlives
      · exact absurd (hclosed.symm.trans hstays) Bool.false_ne_true
      · exact absurd hdestroyed hlives
  falls {c e} h he _ _ := by
    change sends c e <+: c.pending ++ e.readBytes
    cases course h.living he.1.1 with
    | flushed _ _ _ hsends => rw [hsends]; exact List.prefix_append _ _
    | handed hopen _ _ hsends => rw [hsends, h.released hopen]; exact List.prefix_rfl
    | hushed _ _ _ hsends => rw [hsends]; exact List.nil_prefix
    | spilled _ _ _ _ _ hsends => rw [hsends]; exact List.nil_prefix
    | withheld _ _ _ hsends => rw [hsends]; exact List.nil_prefix
    | dropped _ _ _ _ hsends => rw [hsends]; exact List.nil_prefix
    | refused _ _ _ _ _ hsends => rw [hsends]; exact List.nil_prefix
  fallen {c e} h he hfallen := by
    obtain ⟨hopened, hdestroyed⟩ := not_or.mp hfallen
    rw [not_not] at hdestroyed
    have hend := h.living.step_pipeDestroyed he.1.1 hdestroyed
    have hnever : ∀ {p : Prop}, c.streamOpen = false → p := fun hclosed ↦ absurd hclosed hopened
    change ¬Passing (c.step e) ∧ sends c e = []
    cases course h.living he.1.1 with
    | hushed _ hsame _ hsends =>
      refine ⟨?_, hsends⟩
      rintro (hclosed | hlives)
      · exact hopened (hsame.symm.trans hclosed)
      · exact hlives hend
    | flushed _ hclosed => exact hnever hclosed
    | spilled _ hclosed => exact hnever hclosed
    | withheld hclosed => exact hnever hclosed
    | dropped hclosed => exact hnever hclosed
    | handed _ hlives => exact absurd hdestroyed hlives
    | refused _ hlives => exact absurd hdestroyed hlives

/-- **From the local service to the stream**, in any run. -/
theorem leaks_reads : Conduit.Leaks gateway.step Orderly Settled
    gateway.reads gateway.sends pending where
  keeps h he := h.step he.1
  loses {c e} h he := by
    change (sends c e ++ (c.step e).pending).Sublist (c.pending ++ e.readBytes)
    cases course h.living he.1 with
    | hushed _ _ hpending hsends =>
      rw [hpending, hsends]
      exact List.sublist_append_left _ _
    | flushed _ _ hpending hsends =>
      rw [hpending, hsends, List.append_nil]
      exact List.sublist_append_left _ _
    | spilled _ _ _ _ hpending hsends =>
      rw [hpending, hsends]
      exact List.nil_sublist _
    | withheld _ _ hpending hsends =>
      rw [hpending, hsends]
      exact List.Sublist.refl _
    | dropped _ _ _ hpending hsends =>
      rw [hpending, hsends]
      exact List.sublist_append_left _ _
    | handed hopen _ hpending hsends =>
      rw [hpending, hsends, h.released hopen, List.append_nil]
      exact List.Sublist.refl _
    | refused _ _ _ _ hpending hsends =>
      rw [hpending, hsends]
      exact List.sublist_append_left _ _

end Conn

end HolesailServer

end Holesail
