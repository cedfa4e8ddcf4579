import Holesail.Server.Buffering
import Holesail.Server.Callbacks

/-!
# Which runs are not overtaken by the half-close

When the local service ends, the pipe closes the stream at once, while what it said before may
still wait in `Conn::pending` for the stream to open, or have been dropped from it. This file says
in which runs every byte reaches the stream before the close does.
-/

namespace Holesail

namespace HolesailServer

namespace Conn

open Run

/-- The events of a run of reads: the local connect succeeds, and the local socket is read, to its
end. What the stream answers is left open. -/
def Serving (c : Conn) (e : Event) : Prop :=
  Enabled c e ∧ match e with
    | .connected status _ => status = 0
    | .read .eof _ => True
    | .read (.data _) _ => True
    | .streamOpen _ => True
    | .drained _ _ => True
    | _ => False

instance (c : Conn) : (e : Event) → Decidable (Serving c e)
  | .connected _ _ => inferInstanceAs (Decidable (_ ∧ _ = _))
  | .read .eof _ => inferInstanceAs (Decidable (_ ∧ True))
  | .read (.data _) _ => inferInstanceAs (Decidable (_ ∧ True))
  | .read .error _ => inferInstanceAs (Decidable (_ ∧ False))
  | .written _ => inferInstanceAs (Decidable (_ ∧ False))
  | .closed => inferInstanceAs (Decidable (_ ∧ False))
  | .recv _ _ => inferInstanceAs (Decidable (_ ∧ False))
  | .streamOpen _ => inferInstanceAs (Decidable (_ ∧ True))
  | .streamData _ _ => inferInstanceAs (Decidable (_ ∧ False))
  | .streamClose => inferInstanceAs (Decidable (_ ∧ False))
  | .drained _ _ => inferInstanceAs (Decidable (_ ∧ True))
  | .destroy => inferInstanceAs (Decidable (_ ∧ False))

def Event.isEof : Event → Bool
  | .read .eof _ => true
  | _ => false

/-- **The half-close overtakes nothing.** Every byte read before the local end was written to the
stream before the first close. -/
def InOrder (es : List Event) (c : Conn) : Prop :=
  ∀ pre a post, es = pre ++ .read .eof a :: post → (∀ e ∈ pre, e.isEof = false) →
    written (beforeClose c.calls) = readBytes pre

/-- By the local end the stream had opened, after no more reads than the buffer holds; or nothing
was read. -/
def EndsLate (es : List Event) : Prop :=
  ∀ pre a post, es = pre ++ .read .eof a :: post → (∀ e ∈ pre, e.isEof = false) →
    ((∃ a', .streamOpen a' ∈ pre) ∧ preOpenBytes pre ≤ kMaxPendingBytes) ∨ readBytes pre = []

/-! ## Calls are only ever added -/

theorem prefix_streamWrite (a : Answers) (data : Bytes) (c : Conn) :
    c.calls <+: (c.streamWrite a data).2.calls := by
  unfold streamWrite
  split_ifs
  · exact List.prefix_append _ _
  · exact List.prefix_rfl

theorem prefix_streamCall (call : StreamCall) (c : Conn) :
    c.calls <+: (c.streamCall call).calls := by
  unfold streamCall
  split_ifs
  · exact List.prefix_append _ _
  · exact List.prefix_rfl

theorem prefix_write (a : Answers) (data : Bytes) (onDrain : Option Drain) (c : Conn) :
    c.calls <+: ((makeSide a).write data onDrain c).2.calls := by
  simp only [makeSide]
  split_ifs
  · exact List.prefix_rfl
  · exact List.prefix_rfl
  · cases onDrain with
    | none => exact prefix_streamWrite a data c
    | some drain =>
      have hwrite := prefix_streamWrite a data
        { c with drains := c.drains ++ [drain], allocated := c.allocated ++ [drain] }
      simp only
      split_ifs <;> exact hwrite

theorem allows_calls : Allows fun c c' ↦ c.calls <+: c'.calls where
  refl := fun _ ↦ List.prefix_rfl
  trans := List.IsPrefix.trans
  own := fun _ _ _ _ _ _ _ _ _ ↦ List.prefix_rfl
  pause := prefix_streamCall .pause
  resume := prefix_streamCall .resume
  close := prefix_streamCall .close

theorem within_calls (a : Answers) : (tcpHost a).Within fun c c' ↦ c.calls <+: c'.calls :=
  { allows_calls.within a with write := prefix_write a }

theorem prefix_streamOpenCb (a : Answers) (c : Conn) : c.calls <+: (c.streamOpenCb a).calls :=
  streamOpenCb_induction (P := fun c' ↦ c.calls <+: c'.calls) List.prefix_rfl (fun _ _ _ h ↦ h)
    fun drain h ↦ h.trans (allows_calls.fireDrain a.uv _ drain)

theorem prefix_step {c : Conn} {e : Event} (h : Serving c e) : c.calls <+: (c.step e).calls := by
  cases e with
  | connected status uv => exact (within_calls {}).connectCb uv status c
  | read nread a =>
    exact ((within_calls a).modify _ c).trans ((within_calls a).readCb nread _)
  | streamOpen a => exact prefix_streamOpenCb a c
  | drained drain uv =>
    exact (within_calls { uv := uv }).onDrain uv drain.len
      { c with
        drains := c.drains.erase drain
        freed := c.freed ++ [drain]
        fired := c.fired ++ [drain] }
  | _ => exact absurd h.2 id

theorem prefix_run {c : Conn} {es : List Event} (h : Along step Serving c es) :
    c.calls <+: (run step c es).calls :=
  invariant_of_along (P := fun c' ↦ c.calls <+: c'.calls)
    (fun _ _ hprefix he ↦ hprefix.trans (prefix_step he)) List.prefix_rfl h

/-- Once there is a close, nothing that follows changes what came before it. -/
theorem beforeClose_of_prefix {calls calls' : List StreamCall} (hnone : .close ∉ calls)
    (h : calls ++ [.close] <+: calls') : beforeClose calls' = calls := by
  obtain ⟨later, rfl⟩ := h
  have hall : ∀ call ∈ calls, decide (call ≠ .close) = true := by
    intro call hcall
    exact decide_eq_true fun heq ↦ hnone (heq ▸ hcall)
  rw [beforeClose, List.append_assoc, List.takeWhile_append_of_pos hall]
  exact List.append_nil calls

/-! ## Up to the local end -/

/-- The pipe has been destroyed, and its handle is on its way out. -/
def Torn (c : Conn) : Prop :=
  ∃ p t, c.tcp = some p ∧ p.tcp = some t ∧ p.destroyed = true ∧ t.closing = true

theorem Torn.onDrain {a : Answers} {c : Conn} (h : Torn c) (uv : Uv) (len : ℕ) :
    Torn (TcpPipe.onDrain (tcpHost a) uv len c) := by
  obtain ⟨p, t, htcp, ht, hdestroyed, hclosing⟩ := h
  have hsame := TcpPipe.resumeReading_of_destroyed (p := p.ack len) hdestroyed uv
  simp only [TcpPipe.onDrain, TcpPipe.Host.modify, tcpHost, htcp, Option.getD_some, hsame]
  split_ifs
  · exact ⟨_, t, rfl, ht, hdestroyed, hclosing⟩
  · exact ⟨_, t, rfl, ht, hdestroyed, hclosing⟩

theorem Torn.streamOpenCb {a : Answers} {c : Conn} (h : Torn c) : Torn (c.streamOpenCb a) := by
  refine streamOpenCb_induction h (fun _ _ _ _ ↦ h) fun {c} drain h ↦ ?_
  have hfired : Torn { c with fired := c.fired ++ [drain] } := h
  exact hfired.onDrain a.uv drain.len

/-- Once the pipe is torn down, a run of reads has nothing more to read. -/
theorem Torn.step {c : Conn} {e : Event} (h : Torn c) (he : Serving c e) :
    Torn (c.step e) ∧ ∀ nread a, e ≠ .read nread a := by
  obtain ⟨henabled, he⟩ := he
  obtain ⟨p, t, htcp, ht, -, hclosing⟩ := id h
  have hhandle : TcpPipe.handle c.tcp = some t := by rw [TcpPipe.handle, htcp, Option.bind_some, ht]
  cases e with
  | connected status uv =>
    obtain ⟨t', ht', -, hstatus⟩ := henabled
    rw [hhandle] at ht'
    rw [← Option.some.inj ht'] at hstatus
    exact absurd he (hstatus hclosing)
  | read nread a =>
    obtain ⟨t', ht', -, hopen, -⟩ := henabled
    rw [hhandle] at ht'
    rw [← Option.some.inj ht', hclosing] at hopen
    exact absurd hopen Bool.noConfusion
  | streamOpen a => exact ⟨h.streamOpenCb, fun _ _ ↦ Event.noConfusion⟩
  | drained drain uv =>
    have hfired : Torn { c with
        drains := c.drains.erase drain
        freed := c.freed ++ [drain]
        fired := c.fired ++ [drain] } := h
    exact ⟨hfired.onDrain uv drain.len, fun _ _ ↦ Event.noConfusion⟩
  | _ => exact absurd he id

theorem tcp_streamCall (call : StreamCall) (c : Conn) : (c.streamCall call).tcp = c.tcp := by
  unfold streamCall
  split_ifs <;> rfl

theorem torn_closeHandle {a : Answers} {c : Conn} {p : TcpPipe} {t : UvTcp} (htcp : c.tcp = some p)
    (ht : p.tcp = some t) (hdestroyed : p.destroyed = true) (hclosing : p.closing = false) :
    Torn (TcpPipe.closeHandle (tcpHost a) c) := by
  have hpipe : (tcpHost a).pipe c = p := pipe_of_tcp htcp
  simp only [TcpPipe.closeHandle, hpipe, ht, hclosing, Bool.false_eq_true, if_false]
  split_ifs with hhandle
  · unfold TcpPipe.fireOnDestroy
    split_ifs
    · exact ⟨_, t, rfl, by simp only [TcpPipe.Host.modify, tcpHost, htcp, Option.getD_some, ht],
        by simp only [TcpPipe.Host.modify, tcpHost, htcp, Option.getD_some, hdestroyed], hhandle⟩
    · exact ⟨_, t, rfl, by rw [hpipe]; exact ht, by rw [hpipe]; exact hdestroyed, hhandle⟩
  · exact ⟨_, _, rfl, rfl, by
      simp only [TcpPipe.Host.modify, tcpHost, htcp, Option.getD_some, hdestroyed], rfl⟩

theorem torn_destroy {a : Answers} {c : Conn} (h : Alive c)
    (hhandle : TcpPipe.handle c.tcp ≠ none) :
    Torn (TcpPipe.destroy (tcpHost a) c) := by
  obtain ⟨p, htcp, hdestroyed, hclosing⟩ := h
  obtain ⟨t, ht⟩ : ∃ t, p.tcp = some t := by
    rw [TcpPipe.handle, htcp, Option.bind_some] at hhandle
    exact Option.ne_none_iff_exists'.mp hhandle
  have hpipe : (tcpHost a).pipe c = p := pipe_of_tcp htcp
  obtain ⟨t', ht', -⟩ := TcpPipe.exists_tcp_stopReading (p := { p with destroyed := true }) ht
  obtain ⟨hlife, hlife'⟩ := (TcpPipe.turned_stopReading { p with destroyed := true }).life
  rw [TcpPipe.destroy, hpipe, hdestroyed, if_neg Bool.false_ne_true]
  refine torn_closeHandle ?_ ht' hlife (hlife'.trans hclosing)
  refine (tcp_streamCall .close _).trans ?_
  simp only [TcpPipe.Host.modify, tcpHost, htcp, Option.getD_some]

theorem torn_readCb {a : Answers} {c : Conn} (h : Alive c) (hc : Connected c)
    (hhandle : TcpPipe.handle c.tcp ≠ none) (hopen : c.streamOpen = true) (hrc : a.write < 0)
    {bytes : Bytes}
    (hne : bytes ≠ []) : Torn (TcpPipe.readCb (tcpHost a) (.data bytes) c) := by
  obtain ⟨p, htcp, hdestroyed, hclosing⟩ := h
  rw [readCb_data_eq htcp hdestroyed hne (write_refused hopen hc.stream hrc), if_pos hrc]
  refine torn_destroy ⟨_, rfl, hdestroyed, hclosing⟩ ?_
  rw [TcpPipe.handle, htcp] at hhandle
  exact hhandle

/-- Until the local end, the connection stands where the gate does, unless it was torn down. -/
def Steady (es : List Event) (c : Conn) : Prop :=
  (Alive c ∧ Connected c ∧ Refines c (gateAfter es)) ∨ Torn c

theorem Steady.step {es : List Event} {c : Conn} (h : Steady es c) {e : Event} (he : Serving c e)
    (hend : e.isEof = false) : Steady (es ++ [e]) (c.step e) := by
  rcases h with ⟨halive, hc, hr⟩ | htorn
  · obtain ⟨henabled, he⟩ := he
    cases e with
    | connected status uv =>
      subst he
      obtain ⟨halive', hc', hr', -, -⟩ := connectCb_refines halive hc hr uv
      exact Or.inl ⟨halive', hc', by rw [gateAfter_concat]; exact hr'⟩
    | read nread a =>
      cases nread with
      | data bytes =>
        rw [step_read_data halive]
        by_cases hne : bytes = []
        · have hsame : TcpPipe.readCb (tcpHost a) (.data bytes) c = c := by
            unfold TcpPipe.readCb
            split_ifs
            · rfl
            · simp only [hne, if_true]
          rw [hsame]
          refine Or.inl ⟨halive, hc, ?_⟩
          rw [gateAfter_concat, Event.gate, if_pos hne]
          exact hr
        -- A refused write destroys the pipe; otherwise the gate takes what is read.
        · by_cases hrefused : c.streamOpen = true ∧ a.write < 0
          · obtain ⟨t, ht, -⟩ := henabled
            exact Or.inr (torn_readCb halive hc (Option.ne_none_iff_exists'.mpr ⟨t, ht⟩) hrefused.1
              hrefused.2 hne)
          · obtain ⟨halive', hc', hr', -⟩ := readCb_refines halive hc hr hne fun hopen ↦
              Int.not_lt.mp fun hrc ↦ hrefused ⟨hopen, hrc⟩
            exact Or.inl ⟨halive', hc', by rw [gateAfter_concat, gate_read hne]; exact hr'⟩
      | eof => exact absurd hend Bool.noConfusion
      | error => exact absurd he id
    | streamOpen a =>
      obtain ⟨halive', hc', hr', -⟩ := streamOpenCb_refines (a := a) halive hc hr
      exact Or.inl ⟨halive', hc', by rw [gateAfter_concat]; exact hr'⟩
    | drained drain uv =>
      obtain ⟨halive', hc', hr', -⟩ := drainCb_refines halive hc hr henabled.2 uv
      exact Or.inl ⟨halive', hc', by rw [gateAfter_concat]; exact hr'⟩
    | _ => exact absurd he id
  · exact Or.inr (htorn.step he).1

theorem steady_run {es : List Event} (h : Along step Serving dialing es)
    (hend : ∀ e ∈ es, e.isEof = false) : Steady es (run step dialing es) := by
  induction es using List.reverseRecOn with
  | nil => exact Or.inl ⟨alive_dialing, connected_dialing, refines_dialing⟩
  | append_singleton es e ih =>
    rw [along_append] at h
    rw [run_concat]
    refine (ih h.1 fun e' he' ↦ hend e' (List.mem_append_left _ he')).step h.2.1 ?_
    exact hend e (List.mem_append_right _ (List.mem_singleton.mpr rfl))

theorem calls_step_eof {c : Conn} (h : Alive c) (hc : Connected c) (a : Answers) :
    (c.step (.read .eof a)).calls = c.calls ++ [.close] := by
  obtain ⟨p, htcp, hdestroyed, -⟩ := h
  have hlive : ((tcpHost a).pipe
      ((tcpHost a).modify (TcpPipe.markEnded .eof) c)).destroyed = false := by
    simp only [TcpPipe.Host.modify, tcpHost, htcp, Option.getD_some, TcpPipe.markEnded, if_true]
    exact hdestroyed
  rw [step, TcpPipe.readCb, if_neg (by rw [hlive]; decide)]
  exact congrArg Conn.calls (if_pos hc.stream)

/-! ## Runs -/

theorem beforeClose_run {pre post : List Event} {a : Answers}
    (h : Along step Serving dialing (pre ++ .read .eof a :: post))
    (hend : ∀ e ∈ pre, e.isEof = false) :
    written (beforeClose (run step dialing (pre ++ .read .eof a :: post)).calls)
      = (gateAfter pre).wire := by
  obtain ⟨hpre, heof, hpost⟩ := along_append.mp h
  rcases steady_run hpre hend with ⟨halive, hc, hr⟩ | htorn
  · have hprefix := prefix_run hpost
    rw [calls_step_eof halive hc] at hprefix
    rw [run_append, run_cons, beforeClose_of_prefix hc.notClosed hprefix, hr.wire]
  · exact absurd rfl ((htorn.step heof).2 .eof a)

theorem wire_gateAfter_eq_iff (es : List Event) :
    (gateAfter es).wire = readBytes es ↔
      ((∃ a, .streamOpen a ∈ es) ∧ preOpenBytes es ≤ kMaxPendingBytes) ∨ readBytes es = [] := by
  have hwire := Gate.wire_run_eq_iff (k := kMaxPendingBytes) (es.flatMap Event.gate)
    (ne_nil_of_mem_reads es)
  have hnone : reads es = [] ↔ readBytes es = [] := by
    rw [← flatten_reads, List.flatten_eq_nil_iff]
    refine ⟨fun hnil item hitem ↦ absurd hitem (by rw [hnil]; exact List.not_mem_nil), ?_⟩
    exact fun hall ↦ List.eq_nil_iff_forall_not_mem.mpr fun item hitem ↦
      ne_nil_of_mem_reads es item hitem (hall item hitem)
  rw [opens_gate, preOpen_gate] at hwire
  rw [← hnone, ← flatten_reads]
  exact hwire

/-- **When the half-close overtakes nothing.** In a run of reads every byte reaches the stream
before the close exactly if, by the local end, the stream had opened after no more reads than the
buffer holds, or nothing had been read. -/
theorem inOrder_iff_endsLate {es : List Event} (h : Along step Serving dialing es) :
    InOrder es (run step dialing es) ↔ EndsLate es := by
  constructor
  · rintro horder pre a post rfl hend
    have hwritten := horder pre a post rfl hend
    rw [beforeClose_run h hend] at hwritten
    exact (wire_gateAfter_eq_iff pre).mp hwritten
  · rintro hlate pre a post rfl hend
    rw [beforeClose_run h hend]
    exact (wire_gateAfter_eq_iff pre).mpr (hlate pre a post rfl hend)

/-- The local service speaks, and ends once the stream is open. -/
theorem inOrder_iff_endsLate_at :
    InOrder [.connected 0 {}, .read (.data [1, 2]) {}, .streamOpen {}, .read .eof {}]
      (run step dialing
        [.connected 0 {}, .read (.data [1, 2]) {}, .streamOpen {}, .read .eof {}]) := by
  refine (inOrder_iff_endsLate (by decide)).mpr fun pre a post hes _ ↦ Or.inl ?_
  rcases pre with _ | ⟨e₁, _ | ⟨e₂, _ | ⟨e₃, _ | ⟨e₄, pre⟩⟩⟩⟩
  all_goals simp only [List.nil_append, List.cons_append, List.cons.injEq, reduceCtorEq, false_and,
    and_false, List.nil_eq, List.append_eq_nil_iff, Event.read.injEq] at hes
  obtain ⟨rfl, rfl, rfl, -⟩ := hes
  exact ⟨⟨{}, by simp⟩, by decide⟩

/-- **The greeting is lost.** A local service that speaks and ends before the stream opens has its
stream closed with nothing written to it. -/
theorem eof_before_opening :
    ∃ es, Along step Serving dialing es ∧ ¬InOrder es (run step dialing es) := by
  refine ⟨[.connected 0 {}, .read (.data [1]) {}, .read .eof {}, .streamOpen {}], by decide,
    fun horder ↦ ?_⟩
  have hlost := horder [.connected 0 {}, .read (.data [1]) {}] {} [.streamOpen {}] rfl (by decide)
  exact absurd hlost (by decide)

end Conn

end HolesailServer

end Holesail
