import Holesail.Server.HalfClose
import Holesail.Server.Teardown

/-!
# What a failure leaves behind

Two failures of a connection that its callers do not look at. `connection_cb` drops what `connect`
and `start` return, and leaves it to the pipe to tear itself down. `stream_open_cb` leaves a refused
flush to the next write of the pipe.

## Main results

`closesOnFailure_iff_handleMade`: a local side that cannot be set up closes the connection, unless
it fails before there is a local handle. `flushTears_iff`: a refused flush tears the connection down
exactly if the pipe had been destroyed before.
-/

namespace Holesail

namespace HolesailServer

namespace Conn

open Run

variable {b : Bool} {a : Answers} {c : Conn}

/-! ## A destroyed pipe writes nothing -/

/-- Nothing is handed to the stream meanwhile, and it does not open. -/
def Mute (c c' : Conn) : Prop :=
  c'.streamOpen = c.streamOpen ∧ ∃ l, c'.calls = c.calls ++ l ∧ written l = []

theorem mute_of_calls {c' : Conn} (hopen : c'.streamOpen = c.streamOpen)
    (hcalls : c'.calls = c.calls) : Mute c c' :=
  ⟨hopen, [], by rw [hcalls, List.append_nil], rfl⟩

theorem Mute.trans {c' c'' : Conn} (h : Mute c c') (h' : Mute c' c'') : Mute c c'' := by
  obtain ⟨hopen, l, hl, hnone⟩ := h
  obtain ⟨hopen', l', hl', hnone'⟩ := h'
  refine ⟨hopen'.trans hopen, l ++ l', by rw [hl', hl, List.append_assoc], ?_⟩
  rw [written_append, hnone, hnone']
  rfl

theorem Mute.written {c' : Conn} (h : Mute c c') : written c'.calls = written c.calls := by
  obtain ⟨-, l, hl, hnone⟩ := h
  rw [hl, written_append, hnone, List.append_nil]

theorem mute_streamCall {call : StreamCall} (hcall : Holesail.written [call] = []) (c : Conn) :
    Mute c (c.streamCall call) := by
  unfold streamCall
  split_ifs
  · exact ⟨rfl, [call], rfl, hcall⟩
  · exact mute_of_calls rfl rfl

/-- But for the writes and the opening, no callback hands anything to the stream. -/
theorem allows_mute : Allows Mute where
  refl := fun _ ↦ mute_of_calls rfl rfl
  trans := Mute.trans
  own := fun _ _ _ _ _ _ _ _ _ ↦ mute_of_calls rfl rfl
  pause := mute_streamCall rfl
  resume := mute_streamCall rfl
  close := mute_streamCall rfl

theorem TcpAt.mute_step {s : Bool} (h : TcpAt b s (TcpLife b) c) (hdestroyed : c.PipeDestroyed)
    {e : Event} (he : c.Enabled e) (hopen : ∀ a, e ≠ .streamOpen a) : Mute c (c.step e) := by
  obtain ⟨p, htcp, -⟩ := h.pipe
  refine allows_mute.step htcp h.udp he hopen ?_
  rintro nread a rfl
  have hsame : ((tcpHost a).pipe
      ((tcpHost a).modify (TcpPipe.markEnded nread) c)).destroyed = true := by
    rw [modify_of_tcp htcp, pipe_of_tcp (p := TcpPipe.markEnded nread p) rfl]
    exact (p.turned_markEnded nread).life.1.trans (hdestroyed.1 p htcp)
  rw [Conn.step, TcpPipe.readCb.eq_def, if_pos hsame]
  exact mute_of_calls rfl rfl

theorem mute_fireOnDestroy (c : Conn) : Mute c (UdpPipe.fireOnDestroy (udpHost a) c) := by
  rw [UdpPipe.fireOnDestroy]
  split_ifs
  · exact mute_of_calls rfl rfl
  · exact mute_of_calls rfl rfl

theorem UdpAt.mute_step {s : Bool} (h : UdpAt b s (UdpLife b) c) (hdestroyed : c.PipeDestroyed)
    {e : Event} (he : c.Enabled e) (hopen : ∀ a, e ≠ .streamOpen a) : Mute c (c.step e) := by
  obtain ⟨p, hudp, -⟩ := h.pipe
  have hp : ∀ a, ((udpHost a).pipe c).destroyed = true := fun a ↦ by
    rw [pipe_of_udp hudp]
    exact hdestroyed.2 p hudp
  have hother := ofTcp_of_noTcp h.tcp he
  cases e with
  | connected _ _ | read _ _ | written _ => exact Bool.noConfusion hother
  | closed =>
    rw [Conn.step, h.tcp]
    exact (mute_of_calls rfl rfl).trans (mute_fireOnDestroy ((udpHost {}).modify _ c))
  | recv r a =>
    rw [Conn.step, UdpPipe.recvCb.eq_def, if_pos (hp a)]
    exact mute_of_calls rfl rfl
  | streamOpen a => exact absurd rfl (hopen a)
  | streamData data a =>
    rw [Conn.step, Conn.streamDataCb, h.tcp, hudp]
    split_ifs
    · exact mute_of_calls rfl rfl
    · rw [UdpPipe.onStreamData, if_pos (.inl (hp a))]
      exact mute_of_calls rfl rfl
  | streamClose =>
    rw [Conn.step, Conn.streamCloseCb]
    split_ifs
    · exact mute_of_calls rfl rfl
    · have hsame : UdpPipe.onStreamClose (udpHost {}) { c with stream := false }
          = { c with stream := false } := if_pos (hp {})
      simp only [h.tcp, hudp] at hsame ⊢
      rw [hsame]
      exact mute_of_calls rfl rfl
  | drained drain uv =>
    have hmem := he.2
    rw [h.quiet.1] at hmem
    exact absurd hmem List.not_mem_nil
  | destroy =>
    rw [Conn.step, Conn.destroy, h.tcp, hudp, UdpPipe.destroy, if_pos (hp {})]
    exact mute_of_calls rfl rfl

/-- **A destroyed pipe is mute.** -/
theorem Life.mute_step (h : Life b c) (hdestroyed : c.PipeDestroyed) {e : Event}
    (he : c.Enabled e) (hopen : ∀ a, e ≠ .streamOpen a) : Mute c (c.step e) := by
  rcases h with h | h
  · exact h.mute_step hdestroyed he hopen
  · exact h.mute_step hdestroyed he hopen

theorem Life.any_step (h : Life b c) {e : Event} (he : c.Enabled e) : ∃ b, Life b (c.step e) := by
  by_cases hclose : e = .streamClose
  · subst hclose
    exact ⟨false, h.streamClose he⟩
  · exact ⟨b, h.step he hclose⟩

/-- The calls of a connection with a destroyed pipe are only ever added to. -/
theorem Life.prefix_step (h : Life b c) (hdestroyed : c.PipeDestroyed) {e : Event}
    (he : c.Enabled e) : c.calls <+: (c.step e).calls := by
  by_cases hopen : ∃ a, e = .streamOpen a
  · obtain ⟨a, rfl⟩ := hopen
    exact prefix_streamOpenCb a c
  · obtain ⟨-, l, hl, -⟩ := h.mute_step hdestroyed he fun a ha ↦ hopen ⟨a, ha⟩
    exact ⟨l, hl.symm⟩

/-! ## The local side is not set up -/

/-- The call that `connection_cb` makes to set the local side up, with what it returns. -/
def setUp (udp : Bool) (uv : Uv) : ℤ × Conn :=
  let c : Conn := { stream := true, boxed := true, keep := true }
  if udp then UdpPipe.start (udpHost {}) uv { c with udp := some { onDestroy := true } }
  else TcpPipe.connect (tcpHost {}) uv 0 false { c with tcp := some { onDestroy := true } }

theorem connectionCb_eq_setUp (udp : Bool) (uv : Uv) : connectionCb udp uv = (setUp udp uv).2 := by
  cases udp <;> rfl

/-- The peer has a stream that nobody told to close, and all that arrives on it is dropped. -/
def Deaf (c : Conn) : Prop :=
  c.stream = true ∧ .close ∉ c.calls ∧ ∀ data a, c.streamDataCb a data = c

/-- If the local side is not set up, the pipe is destroyed and the stream is told to close, and so
whatever happens later, the peer is not left with a stream that is deaf. -/
def ClosesOnFailure (udp : Bool) (uv : Uv) : Prop :=
  (setUp udp uv).1 ≠ 0 →
    (connectionCb udp uv).PipeDestroyed ∧ .close ∈ (connectionCb udp uv).calls ∧
      ∀ es, Along step Enabled (connectionCb udp uv) es → ¬(run step (connectionCb udp uv) es).Deaf

/-- The steps before there is a local handle succeed. -/
def HandleMade (udp : Bool) (uv : Uv) : Prop :=
  if udp then uv.resolve = 0 ∧ uv.udpInit = 0 else uv.tcpInit = 0

instance (udp : Bool) (uv : Uv) : Decidable (HandleMade udp uv) :=
  inferInstanceAs (Decidable (if udp then _ else _))

theorem destroyed_of_handleMade {udp : Bool} {uv : Uv} (hmade : HandleMade udp uv)
    (hfailed : (setUp udp uv).1 ≠ 0) :
    (connectionCb udp uv).PipeDestroyed ∧ .close ∈ (connectionCb udp uv).calls := by
  rw [connectionCb_eq_setUp]
  cases udp with
  | false =>
    have hinit : ¬uv.tcpInit ≠ 0 := not_not.mpr hmade
    simp only [setUp, Bool.false_eq_true, if_false, TcpPipe.connect, if_neg hinit] at hfailed ⊢
    by_cases hresolve : uv.resolve ≠ 0
    · rw [if_pos hresolve]
      exact ⟨⟨by rintro p ⟨⟩; rfl, by rintro p ⟨⟩⟩, List.mem_singleton.mpr rfl⟩
    rw [if_neg hresolve] at hfailed ⊢
    by_cases hconnect : uv.tcpConnect ≠ 0
    · rw [if_pos hconnect]
      exact ⟨⟨by rintro p ⟨⟩; rfl, by rintro p ⟨⟩⟩, List.mem_singleton.mpr rfl⟩
    · rw [if_neg hconnect] at hfailed
      exact absurd hfailed hconnect
  | true =>
    have hresolve : ¬uv.resolve ≠ 0 := not_not.mpr hmade.1
    have hinit : ¬uv.udpInit ≠ 0 := not_not.mpr hmade.2
    simp only [setUp, if_true, UdpPipe.start, if_neg hresolve, if_neg hinit] at hfailed ⊢
    generalize (if uv.udpBind ≠ 0 then uv.udpBind else uv.recvStart) = status at hfailed ⊢
    by_cases hstatus : status ≠ 0
    · rw [if_pos hstatus]
      exact ⟨⟨by rintro p ⟨⟩, by rintro p ⟨⟩; rfl⟩, List.mem_singleton.mpr rfl⟩
    · rw [if_neg hstatus] at hfailed
      exact absurd rfl hfailed

theorem streamDataCb_of_bare {data : Bytes} {p : UdpPipe} (htcp : c.tcp = none)
    (hudp : c.udp = some p) (hsock : p.sock = none) : c.streamDataCb a data = c := by
  have hdropped : UdpPipe.onStreamData (udpHost a) data c = c :=
    if_pos (.inr (.inl (by rw [pipe_of_udp hudp, hsock])))
  rw [streamDataCb, htcp, hudp]
  exact (ite_eq_left_iff.mpr fun _ ↦ hdropped)

theorem deaf_of_not_handleMade {udp : Bool} {uv : Uv} (hmade : ¬HandleMade udp uv) :
    (setUp udp uv).1 ≠ 0 ∧ (connectionCb udp uv).Deaf := by
  rw [connectionCb_eq_setUp]
  cases udp with
  | false =>
    have hinit : uv.tcpInit ≠ 0 := hmade
    simp only [setUp, Bool.false_eq_true, if_false, TcpPipe.connect, if_pos hinit]
    exact ⟨hinit, rfl, List.not_mem_nil, fun _ _ ↦ rfl⟩
  | true =>
    by_cases hresolve : uv.resolve ≠ 0
    · simp only [setUp, if_true, UdpPipe.start, if_pos hresolve]
      exact ⟨hresolve, rfl, List.not_mem_nil, fun _ _ ↦ streamDataCb_of_bare rfl rfl rfl⟩
    · have hinit : uv.udpInit ≠ 0 := fun h ↦ hmade ⟨not_not.mp hresolve, h⟩
      simp only [setUp, if_true, UdpPipe.start, if_neg hresolve, if_pos hinit]
      exact ⟨hinit, rfl, List.not_mem_nil, fun _ _ ↦ streamDataCb_of_bare rfl rfl rfl⟩

theorem close_mem_run {udp : Bool} {uv : Uv} (hdestroyed : (connectionCb udp uv).PipeDestroyed)
    (hclose : .close ∈ (connectionCb udp uv).calls) {es : List Event}
    (h : Along step Enabled (connectionCb udp uv) es) :
    .close ∈ (run step (connectionCb udp uv) es).calls := by
  have hkept : (∃ b, Life b (run step (connectionCb udp uv) es)) ∧
      (run step (connectionCb udp uv) es).PipeDestroyed ∧
      .close ∈ (run step (connectionCb udp uv) es).calls := by
    refine invariant_of_along
      (P := fun c ↦ (∃ b, Life b c) ∧ c.PipeDestroyed ∧ .close ∈ c.calls) ?_
      ⟨⟨true, life_connectionCb udp uv⟩, hdestroyed, hclose⟩ h
    rintro c e ⟨⟨b, hlife⟩, hdestroyed, hclose⟩ he
    exact ⟨hlife.any_step he, hlife.step_pipeDestroyed hdestroyed he,
      (hlife.prefix_step hdestroyed he).subset hclose⟩
  exact hkept.2.2

/-- **When a failure closes the connection.** Whatever the configuration and whichever step fails:
the connection is closed if the steps before there is a local handle succeed, and only then. -/
theorem closesOnFailure_iff_handleMade (udp : Bool) (uv : Uv) :
    ClosesOnFailure udp uv ↔ HandleMade udp uv := by
  constructor
  · intro hcloses
    by_contra hmade
    obtain ⟨hfailed, hdeaf⟩ := deaf_of_not_handleMade hmade
    exact (hcloses hfailed).2.2 [] trivial hdeaf
  · intro hmade hfailed
    obtain ⟨hdestroyed, hclose⟩ := destroyed_of_handleMade hmade hfailed
    exact ⟨hdestroyed, hclose, fun es h hdeaf ↦ hdeaf.2.1 (close_mem_run hdestroyed hclose h)⟩

/-- **A deaf connection.** The local address of a UDP service does not resolve. -/
theorem not_closesOnFailure : ¬ClosesOnFailure true { resolve := uvEINVAL } :=
  fun h ↦ absurd (h (by decide)).2.1 (by decide)

/-! ## The flush is refused -/

def FlushFails (c : Conn) : Event → Prop
  | .streamOpen a => c.pending ≠ [] ∧ a.write < 0
  | _ => False

instance (c : Conn) : (e : Event) → Decidable (c.FlushFails e)
  | .streamOpen _ => inferInstanceAs (Decidable (_ ∧ _))
  | .connected _ _ | .read _ _ | .written _ | .closed | .recv _ _ | .streamData _ _ | .streamClose
  | .drained _ _ | .destroy => inferInstanceAs (Decidable False)

/-- If the flush fails the pipe is destroyed then and there, and whatever happens later, no byte is
handed to the stream behind those that were lost. -/
def FlushTears (c : Conn) (e : Event) : Prop :=
  c.FlushFails e → (c.step e).PipeDestroyed ∧
    ∀ es, Along step Enabled (c.step e) es →
      (run step (c.step e) es).PipeDestroyed ∧
        written (run step (c.step e) es).calls = written (c.step e).calls

/-- When the flush fails there is no pipe left to destroy. -/
def Unharmed (c : Conn) (e : Event) : Prop := c.FlushFails e → c.PipeDestroyed

instance (c : Conn) (e : Event) : Decidable (c.Unharmed e) :=
  inferInstanceAs (Decidable (_ → _))

/-- A refused flush opens the stream, forgets what was withheld, and leaves the pipe alone. -/
theorem streamOpenCb_of_refused (hstream : c.stream = true) (hboxed : c.boxed = true)
    (hpending : c.pending ≠ []) (hrc : a.write < 0) : c.streamOpenCb a = { c with
      streamOpen := true
      pending := []
      pendingDrains := []
      calls := c.calls ++ [.write c.pending a.write] } := by
  have hflush : ({ c with streamOpen := true } : Conn).flush a = (a.write, { c with
      streamOpen := true
      pending := []
      calls := c.calls ++ [.write c.pending a.write] }) := by
    rw [flush, if_neg hpending, streamWrite]
    exact if_pos hstream
  rw [streamOpenCb, if_neg (by rw [hboxed]; decide), hflush]
  exact if_pos hrc

/-- After the stream has opened, a destroyed pipe hands nothing to it. -/
theorem written_run (h : Life b c) (hdestroyed : c.PipeDestroyed) (hopen : c.streamOpen = true)
    {es : List Event} (hes : Along step Enabled c es) :
    (run step c es).PipeDestroyed ∧ written (run step c es).calls = written c.calls := by
  have hkept : (∃ b, Life b (run step c es)) ∧ (run step c es).streamOpen = true ∧
      (run step c es).PipeDestroyed ∧ written (run step c es).calls = written c.calls := by
    refine invariant_of_along (P := fun v ↦ (∃ b, Life b v) ∧ v.streamOpen = true ∧
      v.PipeDestroyed ∧ written v.calls = written c.calls) ?_ ⟨⟨b, h⟩, hopen, hdestroyed, rfl⟩ hes
    rintro v e ⟨⟨b', hlife⟩, hopen, hdestroyed, hwritten⟩ he
    -- The stream opens only once, and so there is no flush to come.
    have hmute : Mute v (v.step e) := by
      refine hlife.mute_step hdestroyed he ?_
      rintro a rfl
      exact absurd (hopen.symm.trans he.2) Bool.noConfusion
    exact ⟨hlife.any_step he, hmute.1.trans hopen, hlife.step_pipeDestroyed hdestroyed he,
      hmute.written.trans hwritten⟩
  exact hkept.2.2

/-- **The step lemma.** -/
theorem flushTears_iff_unharmed (h : Life b c) {e : Event} (he : c.Enabled e) :
    c.FlushTears e ↔ c.Unharmed e := by
  refine forall_congr' fun hfails ↦ ?_
  cases e with
  | streamOpen a =>
    obtain ⟨hpending, hrc⟩ := hfails
    have hboxed : c.boxed = true := h.boxed.trans (h.stream.symm.trans he.1)
    have hstep : c.step (.streamOpen a) = _ := streamOpenCb_of_refused he.1 hboxed hpending hrc
    constructor
    · intro htears
      rw [hstep] at htears
      exact htears.1
    · intro hdestroyed
      have hdestroyed' := h.step_pipeDestroyed hdestroyed he
      refine ⟨hdestroyed', fun es hes ↦ ?_⟩
      obtain ⟨b', hlife⟩ := h.any_step he
      exact written_run hlife hdestroyed' (by rw [hstep]) hes
  | _ => exact hfails.elim

/-- **When a refused flush tears the connection down.** In a run of a TCP connection, a flush that
fails destroys the pipe at once and nothing is written past the lost bytes, exactly if no flush
fails before the pipe is destroyed for another reason. -/
theorem flushTears_iff (uv : Uv) (es : List Event)
    (h : Along step Enabled (connectionCb false uv) es) :
    Along step FlushTears (connectionCb false uv) es ↔
      Along step Unharmed (connectionCb false uv) es :=
  along_congr_of_invariant (P := fun c ↦ ∃ b, Life b c)
    (fun _ _ hc he ↦ hc.elim fun _ hc ↦ flushTears_iff_unharmed hc he)
    (fun _ _ hc he _ ↦ hc.elim fun _ hc ↦ hc.any_step he) ⟨true, life_connectionCb false uv⟩ h

/-- The pipe is destroyed while the stream has not opened. -/
theorem flushTears_iff_at :
    Along step Enabled (connectionCb false {})
        [.connected 0 {}, .read (.data [1]) {}, .destroy, .streamOpen { write := -1 }] ∧
      Along step FlushTears (connectionCb false {})
        [.connected 0 {}, .read (.data [1]) {}, .destroy, .streamOpen { write := -1 }] :=
  ⟨by decide +kernel, (flushTears_iff {} _ (by decide +kernel)).mpr (by decide +kernel)⟩

/-- **The stream goes on past the lost bytes.** The flush of one byte is refused, and the pipe goes
on to hand the next one to the stream. -/
theorem not_flushTears :
    Along step Enabled (connectionCb false {})
        [.connected 0 {}, .read (.data [1]) {}, .streamOpen { write := -1 }, .read (.data [2]) {}] ∧
      (run step (connectionCb false {})
          [.connected 0 {}, .read (.data [1]) {}, .streamOpen { write := -1 },
            .read (.data [2]) {}]).calls = [.write [1] (-1), .write [2] 0] ∧
      ¬Along step FlushTears (connectionCb false {})
        [.connected 0 {}, .read (.data [1]) {}, .streamOpen { write := -1 },
          .read (.data [2]) {}] := by
  refine ⟨by decide +kernel, by decide +kernel, fun h ↦ ?_⟩
  have htears := (h.2.2.1 (by decide +kernel)).1
  exact absurd htears (by decide +kernel)

end Conn

end HolesailServer

end Holesail
