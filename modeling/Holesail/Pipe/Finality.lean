import Holesail.Pipe.Bench
import Holesail.Pipe.UdpPipe

/-!
# Teardown, once and for all

`destroy` can be reached from every callback of a pipe and from the failures of `connect` and
`start`. Here both pipes are on the bench, and what is asked of them is the same: `uv_close` at most
once, `on_destroy_` at most once and not before the handle has closed, and no work after
`destroyed_`.

## Main results

* `TcpBench.tornDown`
* `UdpBench.tornDown`
* `teardown_final`: both
-/

namespace Holesail

open Run

/-! ## What is asked of a log -/

/-- The calls of the end of a pipe. -/
def Call.isEnd : Call → Bool
  | .uvClose | .closed | .onDestroy => true
  | _ => false

/-- How a pipe came to its end. -/
def ends (log : List Call) : List Call := log.filter Call.isEnd

/-- `on_destroy_` is called, if it was set. -/
def fired (armed : Bool) : List Call := if armed then [.onDestroy] else []

/-- The handle is closed at most once, and `on_destroy_` is called at most once, and not before the
handle that is closed has closed. -/
def EndsOnce (log : List Call) : Prop :=
  log.count .uvClose ≤ 1 ∧ log.count .onDestroy ≤ 1 ∧
    ∀ pre post, log = pre ++ .onDestroy :: post → .uvClose ∈ log → .closed ∈ pre

theorem ends_append (log calls : List Call) : ends (log ++ calls) = ends log ++ ends calls :=
  List.filter_append _ _

theorem ends_append_of_nil {calls : List Call} (h : ends calls = []) (log : List Call) :
    ends (log ++ calls) = ends log := by
  rw [ends_append, h, List.append_nil]

theorem count_ends {c : Call} (hc : c.isEnd = true) (log : List Call) :
    (ends log).count c = log.count c := List.count_filter hc

theorem mem_of_mem_ends {c : Call} {log : List Call} (h : c ∈ ends log) : c ∈ log :=
  List.mem_of_mem_filter h

/-- A pipe that has a handle closes it, waits, and calls `on_destroy_`; one that has none calls it
at once. -/
inductive EndsBy (armed : Bool) : List Call → Prop
  | running : EndsBy armed []
  | closing : EndsBy armed [.uvClose]
  | closed : EndsBy armed (.uvClose :: .closed :: fired armed)
  | bare : EndsBy armed (fired armed)

theorem closed_mem_of_ends {armed : Bool} {pre post : List Call}
    (h : ends (pre ++ .onDestroy :: post) = .uvClose :: .closed :: fired armed) :
    .closed ∈ pre := by
  have hends : ends pre ++ .onDestroy :: ends post = .uvClose :: .closed :: fired armed := by
    rw [← h, ends_append]
    rfl
  rcases hpre : ends pre with _ | ⟨a, _ | ⟨b, rest⟩⟩ <;>
    simp only [hpre, List.nil_append, List.cons_append, List.cons.injEq, reduceCtorEq, false_and,
      and_false] at hends
  refine mem_of_mem_ends ?_
  rw [hpre, ← hends.2.1]
  exact List.mem_cons_of_mem _ List.mem_cons_self

theorem endsOnce_of_endsBy {armed : Bool} {log : List Call} (h : EndsBy armed (ends log)) :
    EndsOnce log := by
  refine ⟨?_, ?_, ?_⟩
  · rw [← count_ends rfl]
    generalize ends log = l at h
    cases h <;> cases armed <;> decide
  · rw [← count_ends rfl]
    generalize ends log = l at h
    cases h <;> cases armed <;> decide
  · rintro pre post rfl hclose
    have hclose' : .uvClose ∈ ends (pre ++ .onDestroy :: post) :=
      List.mem_filter.mpr ⟨hclose, rfl⟩
    generalize hl : ends (pre ++ .onDestroy :: post) = l at h hclose'
    cases h with
    | running => exact absurd hclose' List.not_mem_nil
    | closing =>
      have hmem : Call.onDestroy ∈ ends (pre ++ .onDestroy :: post) :=
        List.mem_filter.mpr ⟨List.mem_append_right _ List.mem_cons_self, rfl⟩
      rw [hl] at hmem
      exact absurd hmem (by decide)
    | closed => exact closed_mem_of_ends hl
    | bare =>
      exact absurd hclose' (by cases armed <;> decide)

/-! ## What is asked of a run -/

section Runs

variable {σ ε : Type} (step : σ → ε → σ) (answered : Uv → ε → ε) (destroyed : σ → Bool)
  (log : σ → List Call)

/-- A run tears its pipe down once and for all: it ends once, and once it is destroyed it calls
nothing that does work, whatever else happens, and asks libuv nothing. -/
def TornDown (s : σ) (es : List ε) : Prop :=
  EndsOnce (log (run step s es)) ∧
    ∀ pre post, es = pre ++ post → destroyed (run step s pre) = true →
      work (log (run step s es)) = work (log (run step s pre)) ∧
        ∀ e uv, step (run step s es) (answered uv e) = step (run step s es) e

variable {step answered destroyed log} {I : σ → Prop} {G : σ → ε → Prop}

/-- It is enough to look at one event at a time. -/
theorem tornDown_of_final {armed : Bool} {s : σ} {es : List ε}
    (hends : ∀ s, I s → EndsBy armed (ends (log s)))
    (hstep : ∀ s e, I s → G s e → I (step s e))
    (hfinal : ∀ s e, I s → G s e → destroyed s = true →
      destroyed (step s e) = true ∧ work (log (step s e)) = work (log s))
    (hasks : ∀ s e uv, destroyed s = true → step s (answered uv e) = step s e)
    (hI : I s) (h : Along step G s es) : TornDown step answered destroyed log s es := by
  refine ⟨endsOnce_of_endsBy (hends _ (invariant_of_along hstep hI h)), ?_⟩
  rintro pre post rfl hended
  rw [along_append] at h
  have hpre := invariant_of_along hstep hI h.1
  have hpost : I (run step s (pre ++ post)) ∧ destroyed (run step s (pre ++ post)) = true ∧
      work (log (run step s (pre ++ post))) = work (log (run step s pre)) := by
    rw [run_append]
    refine invariant_of_along
      (P := fun t ↦ I t ∧ destroyed t = true ∧ work (log t) = work (log (run step s pre)))
      (fun t e ht he ↦ ?_) ⟨hpre, hended, rfl⟩ h.2
    have hfin := hfinal t e ht.1 he ht.2.1
    exact ⟨hstep t e ht.1 he, hfin.1, hfin.2.trans ht.2.2⟩
  exact ⟨hpost.2.2, fun e uv ↦ hasks _ e uv hpost.2.1⟩

end Runs

namespace TcpBench

open TcpPipe

/-! ## The TCP pipe -/

/-- Where a pipe is on its way to the end, with what the log says of it. -/
inductive Stage (armed : Bool) (w : TcpBench) : Prop
  | alive (hopen : w.pipe.destroyed = false) (harmed : w.pipe.onDestroy = armed)
      (hends : ends w.log = [])
  | closing (hended : w.pipe.destroyed = true) (harmed : w.pipe.onDestroy = armed)
      (htcp : w.pipe.tcp.map UvTcp.closing = some true) (hends : ends w.log = [.uvClose])
  | closed (hended : w.pipe.destroyed = true) (hnone : w.pipe.tcp = none)
      (hends : ends w.log = .uvClose :: .closed :: fired armed)
  | bare (hended : w.pipe.destroyed = true) (hnone : w.pipe.tcp = none)
      (hends : ends w.log = fired armed)

theorem Stage.endsBy {armed : Bool} {w : TcpBench} (h : Stage armed w) :
    EndsBy armed (ends w.log) := by
  cases h with
  | alive _ _ hends => exact hends ▸ .running
  | closing _ _ _ hends => exact hends ▸ .closing
  | closed _ _ hends => exact hends ▸ .closed
  | bare _ _ hends => exact hends ▸ .bare

section Moves

variable {armed : Bool} {w w' : TcpBench}

theorem Stage.same (h : Stage armed w) (hdestroyed : w'.pipe.destroyed = w.pipe.destroyed)
    (harmed : w'.pipe.onDestroy = w.pipe.onDestroy)
    (hclosing : w'.pipe.tcp.map UvTcp.closing = w.pipe.tcp.map UvTcp.closing)
    (hends : ends w'.log = ends w.log) : Stage armed w' := by
  have hnone : w.pipe.tcp = none → w'.pipe.tcp = none := by
    intro h
    rw [h] at hclosing
    exact Option.map_eq_none_iff.mp hclosing
  cases h with
  | alive h₁ h₂ h₃ => exact .alive (hdestroyed.trans h₁) (harmed.trans h₂) (hends.trans h₃)
  | closing h₁ h₂ h₃ h₄ =>
    exact .closing (hdestroyed.trans h₁) (harmed.trans h₂) (hclosing.trans h₃) (hends.trans h₄)
  | closed h₁ h₂ h₃ => exact .closed (hdestroyed.trans h₁) (hnone h₂) (hends.trans h₃)
  | bare h₁ h₂ h₃ => exact .bare (hdestroyed.trans h₁) (hnone h₂) (hends.trans h₃)

theorem Stage.alive_of_open (h : Stage armed w) (hopen : w.pipe.destroyed = false) :
    w.pipe.onDestroy = armed ∧ ends w.log = [] := by
  cases h with
  | alive _ harmed hends => exact ⟨harmed, hends⟩
  | closing hended => exact absurd (hopen.symm.trans hended) Bool.false_ne_true
  | closed hended => exact absurd (hopen.symm.trans hended) Bool.false_ne_true
  | bare hended => exact absurd (hopen.symm.trans hended) Bool.false_ne_true

theorem ends_of_aside {calls : List Call} (h : ∀ c ∈ calls, Call.aside c) : ends calls = [] := by
  refine List.filter_eq_nil_iff.mpr fun c hc hend ↦ ?_
  have haside := h c hc
  cases c <;> first | exact haside | exact Bool.false_ne_true hend

theorem stage_ended (h : Stage armed w) (hopen : w.pipe.destroyed = false) :
    Stage armed (ended w) := by
  obtain ⟨harmed, hends⟩ := h.alive_of_open hopen
  rw [ended.eq_def]
  split
  · next hnone =>
    refine .bare rfl hnone ?_
    rw [ends_append, hends, ← harmed]
    cases w.pipe.onDestroy <;> rfl
  · refine .closing rfl harmed rfl ?_
    rw [ends_append, hends]
    rfl

theorem stage_popped (h : Stage armed w) {t : UvTcp} (htcp : w.pipe.tcp = some t) (i : ℕ)
    (data : Bytes) : Stage armed { w with pipe := popped t i data w.pipe } := by
  refine h.same rfl rfl ?_ rfl
  rw [htcp]
  rfl

theorem stage_move {g : Prop} (hs : Sound w) (h : Stage armed w) (hmove : Move g w w') :
    Stage armed w' := by
  cases hmove with
  | aside _ hcore hcalls =>
    exact h.same (destroyed_of_core hcore) (onDestroy_of_core hcore)
      (map_tcp_of_core hcore UvTcp.closing fun _ ↦ rfl)
      (ends_append_of_nil (ends_of_aside hcalls) _)
  | write _ hcore hopen =>
    exact h.same (destroyed_of_core hcore) (onDestroy_of_core hcore)
      (map_tcp_of_core hcore UvTcp.closing fun _ ↦ rfl) (ends_append_of_nil rfl _)
  | opened _ _ _ hopen =>
    obtain ⟨harmed, hends⟩ := h.alive_of_open hopen
    exact .alive hopen harmed hends
  | startReading _ _ _ hopen =>
    obtain ⟨harmed, hends⟩ := h.alive_of_open hopen
    exact .alive hopen harmed ((ends_append_of_nil rfl _).trans hends)
  | stopReading =>
    rcases stopReading_cases w.pipe with hsame | ⟨t, htcp, hstops⟩
    · rwa [hsame]
    · rw [hstops]
      refine h.same rfl rfl ?_ rfl
      rw [htcp]
      rfl
  | push _ hopen =>
    obtain ⟨harmed, hends⟩ := h.alive_of_open hopen
    rw [shut]
    split_ifs
    · refine .alive hopen harmed ?_
      rw [ends_append_of_nil rfl, ends_append_of_nil rfl, hends]
    · exact .alive hopen harmed ((ends_append_of_nil rfl _).trans hends)
  | @completed t i data htcp hi =>
    have hpopped := stage_popped h htcp i data
    rw [reopened]
    split_ifs
    · exact hpopped.same rfl rfl rfl (ends_append_of_nil rfl _)
    · exact hpopped
  | failed htcp hi hended => exact stage_popped h htcp _ _
  | broken htcp hi hopen => exact stage_ended (stage_popped h htcp _ _) hopen
  | finished => exact h.same rfl rfl rfl rfl
  | ended hopen => exact stage_ended h hopen
  | @closed t htcp hclosing hidle =>
    have hended := hs.destroyed_of_closing htcp hclosing
    cases h with
    | alive hopen => exact absurd (hopen.symm.trans hended) Bool.false_ne_true
    | closing _ harmed _ hends =>
      refine .closed hended rfl ?_
      rw [ends_append, hends, ← harmed]
      cases w.pipe.onDestroy <;> rfl
    | closed _ hnone => exact absurd (htcp.symm.trans hnone) (Option.some_ne_none t)
    | bare _ hnone => exact absurd (htcp.symm.trans hnone) (Option.some_ne_none t)

end Moves

/-- The event, with other answers of libuv. -/
def Event.answered (uv : Uv) : Event → Event
  | .connect _ id onReady => .connect uv id onReady
  | .adopt _ accepted => .adopt uv accepted
  | .connected _ status => .connected uv status
  | .drained d _ => .drained d uv
  | .written i status chunks => .written i status (chunks.map fun chunk ↦ (uv, chunk.2))
  | .streamData _ data => .streamData uv data
  | e => e

theorem deliver_of_destroyed {w : TcpBench} (hended : w.pipe.destroyed = true)
    (chunks : List (Uv × Bytes)) : chunks.foldl deliver w = w := by
  induction chunks with
  | nil => rfl
  | cons chunk chunks ih =>
    rw [List.foldl_cons, deliver, TcpPipe.onStreamData_of_destroyed (host 0) hended]
    exact ih

theorem modify_congr {r : ℤ} {w : TcpBench} {f f' : TcpPipe → TcpPipe} (h : f w.pipe = f' w.pipe) :
    (host r).modify f w = (host r).modify f' w := by
  simp only [TcpPipe.Host.modify, host, h]

theorem writeCb_of_destroyed {w : TcpBench} (hended : w.pipe.destroyed = true) {status : ℤ}
    {chunks : List (Uv × Bytes)} :
    writeCb (eagerHost chunks) status w = writeCb (eagerHost []) status w := by
  have hresume : ∀ v : TcpBench, v.pipe.destroyed = true →
      (eagerHost chunks).stream.resume v = (eagerHost []).stream.resume v := fun v hv ↦
    deliver_of_destroyed (w := v.call .resume) hv chunks
  have hpipe : ∀ l : List (Uv × Bytes), (eagerHost l).pipe w = w.pipe := fun _ ↦ rfl
  rw [writeCb.eq_def, writeCb.eq_def, hpipe, hpipe]
  split
  · rfl
  · next t htcp =>
    split
    · rfl
    · next data rest hwrites =>
      simp only
      rw [← hresume]
      · rfl
      · exact hended

theorem step_answered {w : TcpBench} (hended : w.pipe.destroyed = true) (e : Event) (uv : Uv) :
    step w (e.answered uv) = step w e := by
  have hstart : ∀ (uv uv' : Uv) (v : TcpBench), v.pipe.destroyed = true →
      (host 0).modify (fun p ↦ p.startReading uv) v
        = (host 0).modify (fun p ↦ p.startReading uv') v := fun _ _ _ hv ↦
    modify_congr ((startReading_of_destroyed hv).trans (startReading_of_destroyed hv).symm)
  cases e with
  | connect uv' id onReady =>
    have hrefused : ∀ u, connect (host 0) u id onReady w = (uvECANCELED, w) := fun _ ↦ if_pos hended
    rw [Event.answered, step, step, hrefused, hrefused]
  | adopt uv' accepted =>
    cases accepted with
    | none => rfl
    | some t =>
      have hrefused : ∀ u, adopt (host 0) u (some t) w = (uvEINVAL, w) := fun _ ↦ if_pos hended
      rw [Event.answered, step, step, hrefused, hrefused]
  | connected uv' status =>
    have hsame := hstart uv uv' ((host 0).modify (fun p ↦
      { p with tcp := p.tcp.map fun t ↦ { t with connecting := false } }) w) hended
    simp only [Event.answered, step, connectCb, hsame]
  | drained d uv' =>
    have hsame : ∀ v : TcpBench, v.pipe.destroyed = true →
        (host 0).modify (fun p ↦ p.resumeReading uv) v
          = (host 0).modify (fun p ↦ p.resumeReading uv') v := fun v hv ↦
      modify_congr
        ((resumeReading_of_destroyed hv uv).trans (resumeReading_of_destroyed hv uv').symm)
    have hacked := hsame
      ((host 0).modify (fun p ↦ p.ack d.len) { w with held := w.held.erase d }) hended
    simp only [Event.answered, step, onDrain, hacked]
  | written i status chunks =>
    let v : TcpBench := { w with pipe := promote i w.pipe }
    have hpromoted : v.pipe.destroyed = true := hended
    rw [Event.answered, step, step]
    exact (writeCb_of_destroyed hpromoted).trans (writeCb_of_destroyed hpromoted).symm
  | streamData uv' data =>
    exact (TcpPipe.onStreamData_of_destroyed (host 0) hended uv data).trans
      (TcpPipe.onStreamData_of_destroyed (host 0) hended uv' data).symm
  | _ => rfl

theorem stage_new (armed : Bool) : Stage armed (new armed) := .alive rfl rfl rfl

theorem stage_step {armed : Bool} {w : TcpBench} (hw : Sound w ∧ Stage armed w) {e : Event}
    (he : Enabled w e) : Sound (step w e) ∧ Stage armed (step w e) :=
  Moves.keep (P := fun w ↦ Sound w ∧ Stage armed w)
    (fun h hmove ↦ ⟨sound_move h.1 hmove, stage_move h.1 h.2 hmove⟩) (moves_step hw.1 he) hw

theorem tornDown (armed : Bool) {es : List Event} (h : Along step Enabled (new armed) es) :
    TornDown step Event.answered (fun w ↦ w.pipe.destroyed) log (new armed) es :=
  tornDown_of_final (I := fun w ↦ Sound w ∧ Stage armed w) (fun _ hw ↦ hw.2.endsBy)
    (fun _ _ hw he ↦ stage_step hw he) (fun _ _ hw he hended ↦ (moves_step hw.1 he).final hended)
    (fun _ e uv hended ↦ step_answered hended e uv) ⟨sound_new armed, stage_new armed⟩ h

end TcpBench

structure UdpBench where
  pipe : UdpPipe
  log : List Call := []

namespace UdpBench

open UdpPipe

/-! ## The UDP pipe -/

/-- A new pipe, with an `on_destroy_` or without. -/
def new (armed : Bool) : UdpBench := { pipe := { onDestroy := armed } }

/-- Write down a call. -/
def call (c : Call) (w : UdpBench) : UdpBench := { w with log := w.log ++ [c] }

/-- The bench, with a stream that returns `rc` from every write. -/
def host (rc : ℤ) : UdpPipe.Host UdpBench where
  pipe := pipe
  setPipe := fun p w ↦ { w with pipe := p }
  stream :=
    { write := fun data _ w ↦ (rc, w.call (.write data rc))
      pause := call .pause
      resume := call .resume
      close := call .close }
  uvClose := call .uvClose
  send := fun d ↦ call (.send d)
  onDestroy := call .onDestroy

/-- What happens to a pipe. A `uv_udp_send` that completes does not touch it. -/
inductive Event where
  | start (uv : Uv)
  | recv (r : Recv) (rc : ℤ)
  /-- The socket has closed. -/
  | closed
  | streamData (data : Bytes)
  | streamClose
  | destroy

def step (w : UdpBench) : Event → UdpBench
  | .start uv => (start (host 0) uv w).2
  | .recv r rc => recvCb (host rc) r w
  | .closed => closedCb (host 0) (w.call .closed)
  | .streamData data => onStreamData (host 0) data w
  | .streamClose => onStreamClose (host 0) w
  | .destroy => destroy (host 0) w

def Enabled (w : UdpBench) : Event → Prop
  | .start _ => w.pipe.sock = none
  | .recv _ _ => ∃ s ∈ w.pipe.sock, s.receiving = true ∧ s.closing = false
  | .closed => ∃ s ∈ w.pipe.sock, s.closing = true
  | .streamData _ => True
  | .streamClose => True
  | .destroy => True

instance (w : UdpBench) : (e : Event) → Decidable (Enabled w e)
  | .start _ => inferInstanceAs (Decidable (_ = _))
  | .recv _ _ => inferInstanceAs (Decidable (∃ s ∈ w.pipe.sock, _))
  | .closed => inferInstanceAs (Decidable (∃ s ∈ w.pipe.sock, _))
  | .streamData _ => inferInstanceAs (Decidable True)
  | .streamClose => inferInstanceAs (Decidable True)
  | .destroy => inferInstanceAs (Decidable True)

/-- The event, with other answers of libuv. -/
def Event.answered (uv : Uv) : Event → Event
  | .start _ => .start uv
  | e => e

/-- Where a pipe is on its way to the end, with what the log says of it. -/
inductive Stage (armed : Bool) (w : UdpBench) : Prop
  | alive (hopen : w.pipe.destroyed = false) (harmed : w.pipe.onDestroy = armed)
      (hsock : ∀ s ∈ w.pipe.sock, s.closing = false) (hends : ends w.log = [])
  | closing (hended : w.pipe.destroyed = true) (harmed : w.pipe.onDestroy = armed)
      (hsock : w.pipe.sock.map UvUdp.closing = some true) (hends : ends w.log = [.uvClose])
  | closed (hended : w.pipe.destroyed = true) (hnone : w.pipe.sock = none)
      (hends : ends w.log = .uvClose :: .closed :: fired armed)
  | bare (hended : w.pipe.destroyed = true) (hnone : w.pipe.sock = none)
      (hends : ends w.log = fired armed)

theorem Stage.endsBy {armed : Bool} {w : UdpBench} (h : Stage armed w) :
    EndsBy armed (ends w.log) := by
  cases h with
  | alive _ _ _ hends => exact hends ▸ .running
  | closing _ _ _ hends => exact hends ▸ .closing
  | closed _ _ hends => exact hends ▸ .closed
  | bare _ _ hends => exact hends ▸ .bare

section Callbacks

variable {armed : Bool} {rc : ℤ} {w : UdpBench}

theorem fireOnDestroy_eq : fireOnDestroy (host rc) w = { w with
    pipe := { w.pipe with onDestroy := false }
    log := w.log ++ fired w.pipe.onDestroy } := by
  rw [fireOnDestroy, fired]
  change (if w.pipe.onDestroy then _ else _) = _
  split_ifs with harmed
  · rfl
  · rw [List.append_nil, ← Bool.of_not_eq_true harmed]

theorem Stage.same {w' : UdpBench} (h : Stage armed w)
    (hdestroyed : w'.pipe.destroyed = w.pipe.destroyed)
    (harmed : w'.pipe.onDestroy = w.pipe.onDestroy) (hsock : w'.pipe.sock = w.pipe.sock)
    (hends : ends w'.log = ends w.log) : Stage armed w' := by
  cases h with
  | alive h₁ h₂ h₃ h₄ =>
    exact .alive (hdestroyed.trans h₁) (harmed.trans h₂) (hsock ▸ h₃) (hends.trans h₄)
  | closing h₁ h₂ h₃ h₄ =>
    exact .closing (hdestroyed.trans h₁) (harmed.trans h₂) (hsock ▸ h₃) (hends.trans h₄)
  | closed h₁ h₂ h₃ => exact .closed (hdestroyed.trans h₁) (hsock.trans h₂) (hends.trans h₃)
  | bare h₁ h₂ h₃ => exact .bare (hdestroyed.trans h₁) (hsock.trans h₂) (hends.trans h₃)

theorem Stage.alive_of_open (h : Stage armed w) (hopen : w.pipe.destroyed = false) :
    w.pipe.onDestroy = armed ∧ (∀ s ∈ w.pipe.sock, s.closing = false) ∧ ends w.log = [] := by
  cases h with
  | alive _ harmed hsock hends => exact ⟨harmed, hsock, hends⟩
  | closing hended => exact absurd (hopen.symm.trans hended) Bool.false_ne_true
  | closed hended => exact absurd (hopen.symm.trans hended) Bool.false_ne_true
  | bare hended => exact absurd (hopen.symm.trans hended) Bool.false_ne_true

theorem destroy_of_destroyed (hended : w.pipe.destroyed = true) : destroy (host rc) w = w :=
  if_pos hended

theorem destroy_of_none (hopen : w.pipe.destroyed = false) (hnone : w.pipe.sock = none) :
    destroy (host rc) w = { w with
      pipe := { w.pipe with destroyed := true, onDestroy := false }
      log := w.log ++ .close :: fired w.pipe.onDestroy } := by
  let v : UdpBench :=
    { w with
      pipe := { w.pipe with destroyed := true, sock := none }
      log := w.log ++ [.close] }
  have hfires : destroy (host rc) w = fireOnDestroy (host rc) v := by
    rw [destroy, if_neg (by rw [show (host rc).pipe w = w.pipe from rfl, hopen]; decide)]
    simp only [UdpPipe.Host.modify, host, call, hnone, Option.map_none, v]
  rw [hfires, fireOnDestroy_eq]
  simp only [v, ← hnone, List.append_assoc, List.singleton_append]

theorem destroy_of_some (hopen : w.pipe.destroyed = false) {s : UvUdp}
    (hsome : w.pipe.sock = some s) (hs : s.closing = false) :
    destroy (host rc) w = { w with
      pipe := { w.pipe with
        destroyed := true, sock := some { receiving := false, closing := true } }
      log := w.log ++ [.close, .uvClose] } := by
  rw [destroy, if_neg (by rw [show (host rc).pipe w = w.pipe from rfl, hopen]; decide)]
  simp only [UdpPipe.Host.modify, host, call, hsome, Option.map_some, hs, Bool.false_eq_true,
    if_false, List.append_assoc, List.cons_append, List.nil_append]

theorem stage_destroy (h : Stage armed w) : Stage armed (destroy (host rc) w) := by
  cases hended : w.pipe.destroyed with
  | true => rwa [destroy_of_destroyed hended]
  | false =>
    obtain ⟨harmed, hsock, hends⟩ := h.alive_of_open hended
    rcases Option.eq_none_or_eq_some w.pipe.sock with hnone | ⟨s, hsome⟩
    · rw [destroy_of_none hended hnone]
      refine .bare rfl hnone ?_
      rw [ends_append, hends, ← harmed]
      cases w.pipe.onDestroy <;> rfl
    · rw [destroy_of_some hended hsome (hsock s hsome)]
      refine .closing rfl harmed rfl ?_
      rw [ends_append, hends]
      rfl

theorem stage_opened (h : Stage armed w) (hopen : w.pipe.destroyed = false) (receiving : Bool) :
    Stage armed { w with pipe := { w.pipe with sock := some { receiving := receiving } } } := by
  obtain ⟨harmed, -, hends⟩ := h.alive_of_open hopen
  refine .alive hopen harmed ?_ hends
  rintro s ⟨⟩
  rfl

theorem stage_start (h : Stage armed w) (uv : Uv) : Stage armed (start (host rc) uv w).2 := by
  simp only [start]
  generalize (if uv.udpBind ≠ 0 then uv.udpBind else uv.recvStart) = status
  split_ifs with hended <;> dsimp only
  · exact h
  · exact h
  · exact h
  · exact stage_destroy (stage_opened h (Bool.of_not_eq_true hended) false)
  · exact stage_opened h (Bool.of_not_eq_true hended) true

theorem stage_recvCb (h : Stage armed w) (r : Recv) : Stage armed (recvCb (host rc) r w) := by
  rw [recvCb.eq_def]
  split_ifs with hended
  · exact h
  cases r with
  | endOfPass => exact h
  | error => exact stage_destroy h
  | noAddr => exact h
  | truncated _ => exact h
  | datagram data =>
    have hwritten : Stage armed (w.call (.write (frame data) rc)) :=
      h.same rfl rfl rfl (ends_append_of_nil rfl _)
    simp only
    split_ifs
    · exact stage_destroy hwritten
    · exact hwritten

theorem stage_sends (rc : ℤ) (h : Stage armed w) (frames : List Bytes) :
    Stage armed (frames.foldl (fun w d ↦ (host rc).send d w) w) := by
  induction frames generalizing w with
  | nil => exact h
  | cons d frames ih => exact ih (h.same rfl rfl rfl (ends_append_of_nil rfl _))

theorem stage_onStreamData (h : Stage armed w) (data : Bytes) :
    Stage armed (onStreamData (host rc) data w) := by
  rw [onStreamData]
  split_ifs
  · exact h
  · simp only
    have hsent := stage_sends rc
      (w := { w with pipe := { w.pipe with decoder := (w.pipe.decoder.push data).decoder } })
      (h.same rfl rfl rfl rfl) (w.pipe.decoder.push data).frames
    split_ifs
    · exact hsent
    · exact stage_destroy hsent

theorem stage_closedCb (h : Stage armed w) {s : UvUdp} (hsock : w.pipe.sock = some s)
    (hclosing : s.closing = true) : Stage armed (closedCb (host rc) (w.call .closed)) := by
  have hfires : closedCb (host rc) (w.call .closed) = fireOnDestroy (host rc)
      { w with pipe := { w.pipe with sock := none }, log := w.log ++ [.closed] } := rfl
  rw [hfires, fireOnDestroy_eq]
  cases h with
  | alive _ _ hattached =>
    exact absurd ((hattached s hsock).symm.trans hclosing) Bool.false_ne_true
  | closing hended harmed _ hends =>
    refine .closed hended rfl ?_
    rw [ends_append, ends_append, hends, harmed]
    cases armed <;> rfl
  | closed _ hnone => exact absurd (hsock.symm.trans hnone) (Option.some_ne_none s)
  | bare _ hnone => exact absurd (hsock.symm.trans hnone) (Option.some_ne_none s)

end Callbacks

theorem stage_new (armed : Bool) : Stage armed (new armed) :=
  .alive rfl rfl (fun _ hs ↦ absurd hs (Option.not_mem_none _)) rfl

theorem stage_step {armed : Bool} {w : UdpBench} (hw : Stage armed w) {e : Event}
    (he : Enabled w e) : Stage armed (step w e) := by
  cases e with
  | start uv => exact stage_start hw uv
  | recv r rc => exact stage_recvCb hw r
  | closed =>
    obtain ⟨s, hsock, hclosing⟩ := he
    exact stage_closedCb hw hsock hclosing
  | streamData data => exact stage_onStreamData hw data
  | streamClose =>
    rw [step, onStreamClose]
    split_ifs
    · exact hw
    · exact stage_destroy hw
  | destroy => exact stage_destroy hw

section Destroyed

variable {w : UdpBench} (hended : w.pipe.destroyed = true)

include hended

theorem step_of_destroyed {e : Event} (he : e ≠ .closed) : step w e = w := by
  cases e with
  | start uv => exact congrArg Prod.snd (if_pos hended : start (host 0) uv w = (uvECANCELED, w))
  | recv r rc => exact if_pos hended
  | closed => exact absurd rfl he
  | streamData data => exact if_pos (.inl hended)
  | streamClose => exact if_pos hended
  | destroy => exact if_pos hended

theorem final_step (e : Event) :
    (step w e).pipe.destroyed = true ∧ work (step w e).log = work w.log := by
  by_cases he : e = .closed
  · rw [he, step, closedCb, fireOnDestroy_eq]
    refine ⟨hended, ?_⟩
    have hquiet := work_append_of_nil (work_onDestroy (c := .closed) rfl w.pipe.onDestroy) w.log
    rwa [List.append_cons] at hquiet
  · rw [step_of_destroyed hended he]
    exact ⟨hended, rfl⟩

theorem step_answered (e : Event) (uv : Uv) : step w (e.answered uv) = step w e := by
  cases e with
  | start uv' =>
    rw [Event.answered, step_of_destroyed hended (by simp), step_of_destroyed hended (by simp)]
  | _ => rfl

end Destroyed

theorem tornDown (armed : Bool) {es : List Event} (h : Along step Enabled (new armed) es) :
    TornDown step Event.answered (fun w ↦ w.pipe.destroyed) log (new armed) es :=
  tornDown_of_final (I := Stage armed) (fun _ hw ↦ hw.endsBy) (fun _ _ hw he ↦ stage_step hw he)
    (fun _ e _ _ hended ↦ final_step hended e) (fun _ e uv hended ↦ step_answered hended e uv)
    (stage_new armed) h

end UdpBench

/-- **Teardown happens once and is final.** In any run of a pipe of either kind, whether it has an
`on_destroy_` or not: at most one `uv_close`; at most one `on_destroy_`, after the close callback
where there is one to wait for; and no work once the pipe is destroyed. -/
theorem teardown_final (armed : Bool) :
    (∀ es, Along TcpBench.step TcpBench.Enabled (TcpBench.new armed) es →
      TornDown TcpBench.step TcpBench.Event.answered (fun w ↦ w.pipe.destroyed) TcpBench.log
        (TcpBench.new armed) es) ∧
      ∀ es, Along UdpBench.step UdpBench.Enabled (UdpBench.new armed) es →
        TornDown UdpBench.step UdpBench.Event.answered (fun w ↦ w.pipe.destroyed) UdpBench.log
          (UdpBench.new armed) es :=
  ⟨fun _ ↦ TcpBench.tornDown armed, fun _ ↦ UdpBench.tornDown armed⟩

/-- A TCP pipe whose write is cancelled, and a UDP pipe whose socket is bound in vain. -/
theorem teardown_final_at :
    ∃ tcp udp,
      (run TcpBench.step (TcpBench.new true) tcp).log
        = [.readStart, .uvWrite [1], .close, .uvClose, .closed, .onDestroy] ∧
      (run UdpBench.step (UdpBench.new true) udp).log = [.close, .uvClose, .closed, .onDestroy] ∧
      TornDown TcpBench.step TcpBench.Event.answered (fun w ↦ w.pipe.destroyed) TcpBench.log
        (TcpBench.new true) tcp ∧
      TornDown UdpBench.step UdpBench.Event.answered (fun w ↦ w.pipe.destroyed) UdpBench.log
        (UdpBench.new true) udp :=
  ⟨[.connect {} 0 false, .connected {} 0, .streamData {} [1], .destroy, .written 0 uvECANCELED [],
      .streamClose, .closed, .destroy],
    [.start { udpBind := -1 }, .streamData [1], .closed, .destroy],
    by decide, by decide, (teardown_final true).1 _ (by decide),
    (teardown_final true).2 _ (by decide)⟩

end Holesail
