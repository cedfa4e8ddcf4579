import Holesail.Pipe.Gauge
import Holesail.Server.Stream
import Holesail.Theory.Delivery

/-!
# What a server's connection delivers

While its stream is up and its handle open, a connection can always hand some of what is in its
queue to the local service, and receive more as soon as the queue is empty.

## Main result

`delivers`.
-/

namespace Holesail

namespace HolesailServer

namespace Conn

open Run

variable {a : Answers} {c c' : Conn} {e : Event}

/-! ## The pipe and its stream -/

/-- The pipe counts its queue right, and has not been told that a stream that is up has closed. -/
structure Attuned (c : Conn) : Prop where
  metered : (c.tcp.getD {}).Metered
  closed : c.stream = true → (c.tcp.getD {}).streamClosed = false

theorem Attuned.same (h : Attuned c) (htcp : c'.tcp = c.tcp) (hstream : c'.stream = c.stream) :
    Attuned c' := by
  refine ⟨?_, fun hup ↦ ?_⟩
  · rw [htcp]
    exact h.metered
  · rw [htcp]
    exact h.closed (hstream.symm.trans hup)

theorem Attuned.streamCall (h : Attuned c) (call : StreamCall) : Attuned (c.streamCall call) := by
  unfold Conn.streamCall
  split_ifs
  · exact h.same rfl rfl
  · exact h

theorem gauges_tcpHost (a : Answers) : (tcpHost a).Gauges Attuned where
  lawful := lawful_tcpHost a
  metered hc := hc.metered
  setPipe hc hp hclosed := ⟨hp, fun hup ↦ hclosed.trans (hc.closed hup)⟩
  write data onDrain hc := by
    cases onDrain <;> simp only [tcpHost, makeSide, streamWrite] <;> split_ifs <;>
      exact hc.same rfl rfl
  pause hc := hc.streamCall .pause
  resume hc := hc.streamCall .resume
  close hc := hc.streamCall .close
  uvClose _ hc := hc.same rfl rfl
  onReady _ hc := hc
  onDestroy hc := hc.same rfl rfl

theorem attuned_connectionCb (uv : Uv) : Attuned (connectionCb false uv) :=
  (gauges_tcpHost {}).connect uv 0 false rfl
    (w := { stream := true, boxed := true, keep := true, tcp := some { onDestroy := true } })
    ⟨fun _ ↦ ⟨rfl, rfl, fun hpaused ↦ Bool.noConfusion hpaused, nofun⟩, fun _ ↦ rfl⟩

theorem Attuned.fireDrain (h : Attuned c) (uv : Uv) (drain : Drain) :
    Attuned (fireDrain uv c drain) :=
  (gauges_tcpHost { uv := uv }).onDrain uv drain.len
    (show Attuned { c with fired := c.fired ++ [drain] } from h.same rfl rfl)

theorem Attuned.streamOpenCb (h : Attuned c) (a : Answers) : Attuned (c.streamOpenCb a) :=
  streamOpenCb_induction h (fun _ _ _ _ ↦ h.same rfl rfl) fun drain h ↦ h.fireDrain a.uv drain

theorem TcpAt.destroyed_of_closing {b s : Bool} (h : TcpAt b s (TcpLife b) c) {p : TcpPipe}
    (htcp : c.tcp = some p) {t : UvTcp} (ht : t ∈ TcpPipe.handle c.tcp)
    (hclosing : t.closing = true) :
    p.destroyed = true := by
  obtain ⟨p', htcp', hlife, -⟩ := h.pipe
  obtain rfl := Option.some.inj (htcp.symm.trans htcp')
  rw [TcpPipe.handle, htcp, Option.bind_some] at ht
  have hbond : p.bond = some (t.id, true) := by
    rw [TcpPipe.bond, ht, Option.map_some, hclosing]
  generalize c.keep = keep at hlife
  cases hlife with
  | bare _ _ _ hnone => exact absurd (ht.symm.trans hnone) (Option.some_ne_none t)
  | attached hlife =>
    obtain ⟨-, -, -, id, hid⟩ := hlife
    exact absurd (congrArg Prod.snd (Option.some.inj (hid.symm.trans hbond))) Bool.false_ne_true
  | detaching hlife => exact hlife.1
  | gone hdestroyed => exact hdestroyed

theorem Attuned.step (h : Attuned c) (hlife : Living c) (he : c.Enabled e) :
    Attuned (c.step e) := by
  have hgone := hlife.step he
  obtain ⟨b, hlife⟩ := hlife
  obtain ⟨p, htcp, -⟩ := hlife.pipe
  cases e with
  | connected status uv => exact (gauges_tcpHost {}).connectCb uv status h
  | read nread a =>
    exact (gauges_tcpHost a).readCb nread
      ((gauges_tcpHost a).turn (fun p ↦ p.turned_markEnded nread) h)
  | written status => exact (gauges_tcpHost {}).writeCb status h
  | closed =>
    rcases he with ⟨t, ht, hclosing, -⟩ | ⟨sock, hsock, -⟩
    · rw [Conn.step, htcp]
      refine (gauges_tcpHost {}).closedCb ?_ h
      rw [pipe_of_tcp htcp]
      exact hlife.destroyed_of_closing htcp ht hclosing
    · rw [hlife.udp] at hsock
      exact absurd hsock (Option.not_mem_none sock)
  | recv r a =>
    obtain ⟨sock, hsock, -⟩ := he
    rw [hlife.udp] at hsock
    exact absurd hsock (Option.not_mem_none sock)
  | streamOpen a => exact h.streamOpenCb a
  | streamData data a =>
    rw [Conn.step, streamDataCb, htcp]
    split_ifs
    · exact h
    · exact (gauges_tcpHost a).onStreamData a.uv data h
  | streamClose =>
    have hdown : Attuned { c with stream := false } :=
      ⟨h.metered, fun hup ↦ Bool.noConfusion hup⟩
    have hend := (gauges_tcpHost {}).onStreamClose hdown
      ⟨h.metered.closed, fun hup ↦ Bool.noConfusion hup⟩
    rw [Conn.step, streamCloseCb]
    split_ifs
    · exact h
    · simp only [htcp] at hend ⊢
      exact hend.same rfl rfl
  | drained drain uv =>
    have hfreed : Attuned { c with
        drains := c.drains.erase drain
        freed := c.freed ++ [drain] } := h.same rfl rfl
    exact hfreed.fireDrain uv drain
  | destroy =>
    have hend := (gauges_tcpHost {}).destroy h
    have hudp : (TcpPipe.destroy (tcpHost {}) c).udp = none := (hlife.destroy (a := {})).udp
    simp only [Conn.step, destroy, htcp, hudp]
    exact hend

/-! ## Deliveries -/

/-- The stream is up and open, and so is the handle. -/
def Flowing (c : Conn) : Prop := c.stream = true ∧ c.streamOpen = true ∧ Standing c

instance (c : Conn) : Decidable (Flowing c) := inferInstanceAs (Decidable (_ ∧ _))

/-- An event that brings bytes toward the local service, and goes well. A stream that is paused
delivers nothing. -/
def Delivers (c : Conn) : Event → Prop
  | .streamData data a => c.Orderly (.streamData data a) ∧ data ≠ [] ∧ a = {} ∧
      (c.tcp.getD {}).streamPaused = false
  | .written status => c.Orderly (.written status) ∧ status = 0
  | _ => False

instance (c : Conn) : (e : Event) → Decidable (c.Delivers e)
  | .streamData _ _ | .written _ => inferInstanceAs (Decidable (_ ∧ _))
  | .connected _ _ | .read _ _ | .closed | .recv _ _ | .streamOpen _ | .streamClose
  | .drained _ _ | .destroy => inferInstanceAs (Decidable False)

theorem Delivers.orderly (he : c.Delivers e) : c.Orderly e := by
  cases e with
  | streamData data a => exact he.1
  | written status => exact he.1
  | _ => exact he.elim

theorem Delivers.enabled (he : c.Delivers e) : c.Enabled e := he.orderly.1

/-- The invariant of a connection that delivers. -/
structure Up (c : Conn) : Prop where
  settled : Settled c
  attuned : Attuned c
  flowing : Flowing c

variable (hup : Up c)

include hup

theorem Up.gauged : (c.tcp.getD {}).Gauged := by
  obtain ⟨p, -, htcp, -, -, hdestroyed, -⟩ := hup.settled.living.attached hup.flowing.2.2
  have hmetered := hup.attuned.metered
  rw [htcp] at hmetered ⊢
  exact hmetered hdestroyed

theorem Up.standing (he : c.Delivers e) : Standing (c.step e) := by
  obtain ⟨p, -, htcp, -⟩ := hup.settled.living.attached hup.flowing.2.2
  cases e with
  | streamData data a =>
    obtain ⟨-, -, rfl, -⟩ := he
    rw [Conn.step, streamDataCb, htcp]
    split_ifs
    · exact hup.flowing.2.2
    · exact (plain_tcpHost {}).open_onStreamData rfl data hup.flowing.2.2
  | written status =>
    obtain ⟨-, rfl⟩ := he
    exact (plain_tcpHost {}).open_writeCb (hup.attuned.closed hup.flowing.1) hup.flowing.2.2
  | _ => exact he.elim

theorem Up.hushed (he : c.Delivers e) : Hushed c (c.step e) := by
  refine hushed_step hup.settled.living he.enabled ?_ ?_ <;> cases e <;>
    first | rfl | exact he.elim

theorem Up.step (he : c.Delivers e) : Up (c.step e) := by
  have henabled := he.enabled
  have hstream : (c.step e).stream = c.stream := by
    obtain ⟨b, hlife⟩ := hup.settled.living
    have hnext := survives_life.step hlife henabled (by rintro rfl; exact he)
      (by rintro rfl; exact he)
    exact hnext.stream.trans hlife.stream.symm
  refine ⟨hup.settled.step henabled, hup.attuned.step hup.settled.living henabled, ?_, ?_,
    hup.standing he⟩
  · exact hstream.trans hup.flowing.1
  · exact (hup.hushed he).streamOpen.trans hup.flowing.2.1

omit hup in
/-- **A connection that is up delivers.** -/
theorem delivers : Conduit.Delivers gateway Delivers Up underway where
  keeps hup he := hup.step he
  moves hup he := carries_received.stands hup.settled.living he.orderly hup.flowing.2.2
    (hup.standing he)
  sends hup he := (hup.hushed he).sends
  works {c e} hup he := by
    cases e with
    | streamData data a => exact Or.inl he.2.1
    | written status =>
      obtain ⟨⟨⟨t, ht, hsome⟩, -⟩, rfl⟩ := he
      obtain ⟨d, q, hwrites⟩ := List.exists_cons_of_ne_nil hsome
      obtain ⟨hqueue, hhandle⟩ := exists_queue (a := {}) ht
      right
      change completes c (.written 0) ≠ []
      rw [completes, if_pos rfl, hhandle, hwrites, List.headD_cons]
      refine hup.gauged.ne d ?_
      have hmem : d ∈ ((tcpHost {}).pipe c).queue := by
        rw [hqueue, hwrites]
        exact List.mem_cons_self
      exact hmem
    | _ => exact he.elim
  writes {c} hup hheld := by
    obtain ⟨p, t, htcp, ht, hopen, -⟩ := hup.settled.living.attached hup.flowing.2.2
    have hhandle : t ∈ TcpPipe.handle c.tcp := by
      rw [TcpPipe.handle, htcp]
      exact ht
    refine ⟨.written 0, ⟨⟨⟨t, hhandle, fun hnil ↦ hheld ?_⟩, fun u hu hclosing ↦ ?_⟩, rfl⟩, rfl⟩
    · rw [underway, htcp, Option.getD_some, TcpPipe.queue, ht, Option.map_some, hnil]
      rfl
    · obtain rfl := Option.mem_unique hu hhandle
      exact absurd (hopen.symm.trans hclosing) Bool.false_ne_true
  receives {c} hup hheld x := by
    refine ⟨.streamData [x] {}, ⟨⟨⟨hup.flowing.1, hup.flowing.2.1⟩, trivial⟩,
      List.cons_ne_nil x [], rfl, ?_⟩, rfl⟩
    refine Bool.of_not_eq_true fun hpaused ↦ hup.gauged.queue_ne_nil hpaused ?_
    refine List.eq_nil_iff_forall_not_mem.mpr fun d hd ↦ hup.gauged.ne d hd ?_
    exact List.flatten_eq_nil_iff.mp hheld d hd

end Conn

end HolesailServer

end Holesail
