import Holesail.Pipe.Queue
import Holesail.Theory.Run
import Mathlib.Logic.Relation

/-!
# A TCP pipe on the bench

A `TcpPipe` by itself. Its owner, libuv and its stream do whatever they can, in any order and with
any answers, and every call that the pipe makes is written down.

Two things are left open here that libuv decides: the writes in flight complete in any order, and
with any status, also on a handle that is closing. And while `resume` runs, the stream may already
deliver chunks.

## Moves

All that an event can do to the pipe is a sequence of a few moves, each with the guard under which
the pipe makes it. What is true of a pipe on the bench only has to be checked for the moves.
-/

namespace Holesail

/-- What a pipe calls, and the one thing that it waits for. -/
inductive Call where
  /-- `uv_read_start`, and libuv agreed. -/
  | readStart
  /-- `uv_write`, and libuv agreed. -/
  | uvWrite (data : Bytes)
  | uvClose
  /-- The close callback of the handle runs. -/
  | closed
  | write (data : Bytes) (rc : ℤ)
  | pause
  | resume
  | close
  | onReady (status : ℤ)
  | onDestroy
  /-- `uv_udp_send`. -/
  | send (data : Bytes)
deriving DecidableEq

/-- Calls that can be made at any time. -/
def Call.aside : Call → Prop
  | .close | .onReady _ => True
  | _ => False

/-- The calls that a destroyed pipe has no business making. -/
def Call.works : Call → Bool
  | .readStart | .uvWrite _ | .write _ _ | .send _ => true
  | _ => false

/-- The calls of a log that do something. -/
def work (log : List Call) : List Call := log.filter Call.works

theorem work_append_of_nil {calls : List Call} (h : work calls = []) (log : List Call) :
    work (log ++ calls) = work log := by
  rw [work, List.filter_append, ← work, ← work, h, List.append_nil]

theorem work_of_aside {calls : List Call} (h : ∀ c ∈ calls, Call.aside c) : work calls = [] := by
  refine List.filter_eq_nil_iff.mpr fun c hc hworks ↦ ?_
  have haside := h c hc
  cases c <;> first | exact haside | exact Bool.false_ne_true hworks

theorem work_onDestroy {c : Call} (hc : c.works = false) (b : Bool) :
    work (c :: if b then [.onDestroy] else []) = [] := by
  rw [work, List.filter_cons_of_neg (by rw [hc]; decide)]
  split_ifs <;> rfl

structure TcpBench where
  pipe : TcpPipe
  /-- The `on_drain`s of the accepted writes that were not called yet. -/
  held : List Drain := []
  /-- The local end of file was read. -/
  eof : Bool := false
  log : List Call := []
deriving DecidableEq

namespace TcpBench

open Run TcpPipe

/-- A new pipe, with an `on_destroy_` or without. -/
def new (armed : Bool) : TcpBench := { pipe := { onDestroy := armed } }

/-- Write down a call. -/
def call (c : Call) (w : TcpBench) : TcpBench := { w with log := w.log ++ [c] }

/-- What libuv was told when `p` became `p'`. -/
def told (p p' : TcpPipe) : List Call :=
  (if p.reading = false ∧ p'.reading = true then [.readStart] else []) ++
    (p'.queue.drop p.queue.length).map .uvWrite

/-- The bench, with a stream that returns `rc` from every write. -/
def host (rc : ℤ) : TcpPipe.Host TcpBench where
  pipe := pipe
  setPipe := fun p w ↦ { w with pipe := p, log := w.log ++ told w.pipe p }
  stream :=
    { write := fun data onDrain w ↦
        let w := w.call (.write data rc)
        (rc, if rc < 0 then w else { w with held := w.held ++ onDrain.toList })
      pause := call .pause
      resume := call .resume
      close := call .close }
  uvClose := fun _ ↦ call .uvClose
  onReady := fun status ↦ call (.onReady status)
  onDestroy := call .onDestroy

def deliver (w : TcpBench) (chunk : Uv × Bytes) : TcpBench :=
  onStreamData (host 0) chunk.1 chunk.2 w

/-- The bench, with a stream that delivers chunks as soon as it is resumed. -/
def eagerHost (chunks : List (Uv × Bytes)) : TcpPipe.Host TcpBench :=
  { host 0 with
    stream := { (host 0).stream with resume := fun w ↦ chunks.foldl deliver (w.call .resume) } }

/-! ## The machine -/

inductive Event where
  | connect (uv : Uv) (id : ℕ) (onReady : Bool)
  | adopt (uv : Uv) (accepted : Option UvTcp)
  /-- The local connect completes. -/
  | connected (uv : Uv) (status : ℤ)
  | read (nread : Read) (rc : ℤ)
  /-- The stream calls an `on_drain`. -/
  | drained (d : Drain) (uv : Uv)
  /-- One of the local writes completes. If the stream is resumed, it delivers the chunks. -/
  | written (i : ℕ) (status : ℤ) (chunks : List (Uv × Bytes))
  /-- The local handle has closed. -/
  | closed
  | streamData (uv : Uv) (data : Bytes)
  | streamClose
  | destroy

/-- The write that completes goes first. -/
def promote (i : ℕ) (p : TcpPipe) : TcpPipe :=
  { p with tcp := p.tcp.map fun t ↦
      { t with writes := t.writes[i]?.toList ++ t.writes.eraseIdx i } }

def step (w : TcpBench) : Event → TcpBench
  | .connect uv id onReady => (connect (host 0) uv id onReady w).2
  | .adopt uv accepted => (adopt (host 0) uv accepted w).2
  | .connected uv status => connectCb (host 0) uv status w
  | .read nread rc => readCb (host rc) nread { w with eof := w.eof || decide (nread = .eof) }
  | .drained d uv => onDrain (host 0) uv d.len { w with held := w.held.erase d }
  | .written i status chunks =>
    writeCb (eagerHost chunks) status { w with pipe := promote i w.pipe }
  | .closed => closedCb (host 0) (w.call .closed)
  | .streamData uv data => onStreamData (host 0) uv data w
  | .streamClose => onStreamClose (host 0) w
  | .destroy => destroy (host 0) w

/-- A handle that was just made or accepted. -/
def Fresh (t : UvTcp) : Prop :=
  t.reading = false ∧ t.closing = false ∧ t.connecting = false ∧ t.writes = []

def Enabled (w : TcpBench) : Event → Prop
  | .connect _ _ _ => w.pipe.tcp = none
  | .adopt _ accepted => w.pipe.tcp = none ∧ ∀ t ∈ accepted, Fresh t
  | .connected _ _ => ∃ t ∈ w.pipe.tcp, t.connecting = true
  | .read _ _ => ∃ t ∈ w.pipe.tcp, t.reading = true ∧ t.closing = false
  | .drained d _ => d ∈ w.held
  | .written i _ _ => ∃ t ∈ w.pipe.tcp, i < t.writes.length
  | .closed => ∃ t ∈ w.pipe.tcp, t.closing = true ∧ t.writes = [] ∧ t.connecting = false
  | .streamData _ _ => True
  | .streamClose => True
  | .destroy => True

instance (t : UvTcp) : Decidable (Fresh t) := inferInstanceAs (Decidable (_ ∧ _ ∧ _ ∧ _))

instance (w : TcpBench) : (e : Event) → Decidable (Enabled w e)
  | .connect _ _ _ => inferInstanceAs (Decidable (_ = _))
  | .adopt _ accepted => inferInstanceAs (Decidable (_ ∧ ∀ t ∈ accepted, Fresh t))
  | .connected _ _ => inferInstanceAs (Decidable (∃ t ∈ w.pipe.tcp, _))
  | .read _ _ => inferInstanceAs (Decidable (∃ t ∈ w.pipe.tcp, _))
  | .drained _ _ => inferInstanceAs (Decidable (_ ∈ _))
  | .written _ _ _ => inferInstanceAs (Decidable (∃ t ∈ w.pipe.tcp, _))
  | .closed => inferInstanceAs (Decidable (∃ t ∈ w.pipe.tcp, _))
  | .streamData _ _ => inferInstanceAs (Decidable True)
  | .streamClose => inferInstanceAs (Decidable True)
  | .destroy => inferInstanceAs (Decidable True)

/-! ## Moves -/

/-- What of a pipe the moves are about. -/
def core (p : TcpPipe) : TcpPipe :=
  { p with
    onReady := false
    streamPendingBytes := 0
    streamClosed := false
    drains := 0
    tcp := p.tcp.map fun t ↦ { t with id := 0, connecting := false, ended := false } }

/-- `destroy`, where there is something to destroy. -/
def ended (w : TcpBench) : TcpBench :=
  match w.pipe.tcp with
  | none =>
    { w with
      pipe := { w.pipe with destroyed := true, onDestroy := false }
      log := w.log ++ .close :: if w.pipe.onDestroy then [.onDestroy] else [] }
  | some t =>
    { w with
      pipe := { w.pipe with
        destroyed := true
        reading := false
        closing := true
        tcp := some { t with reading := false, closing := true } }
      log := w.log ++ [.close, .uvClose] }

/-- The stream is paused, if it is not and there is too much underway. -/
def shut (w : TcpBench) : TcpBench :=
  if w.pipe.streamPaused = false ∧ kHighWaterMark ≤ w.pipe.pendingBytes then
    { w with pipe := { w.pipe with streamPaused := true }, log := w.log ++ [.pause] }
  else w

/-- The write at `i` has completed. -/
def popped (t : UvTcp) (i : ℕ) (data : Bytes) (p : TcpPipe) : TcpPipe :=
  p.unqueued t data (t.writes.eraseIdx i)

/-- The stream is resumed, if it is paused and there is room. -/
def reopened (w : TcpBench) : TcpBench :=
  if w.pipe.streamPaused = true ∧ w.pipe.pendingBytes < kHighWaterMark then
    { w with pipe := { w.pipe with streamPaused := false }, log := w.log ++ [.resume] }
  else w

/-- The moves. Those of the direction toward the stream are only there if it `goesOut`. -/
inductive Move (goesOut : Prop) : TcpBench → TcpBench → Prop
  | aside {w p held eof calls} (hout : goesOut) (hcore : core p = core w.pipe)
      (hcalls : ∀ c ∈ calls, Call.aside c) :
      Move goesOut w { pipe := p, held := held, eof := eof, log := w.log ++ calls }
  | write {w p held data rc} (hout : goesOut) (hcore : core p = core w.pipe)
      (hopen : w.pipe.destroyed = false) :
      Move goesOut w { w with pipe := p, held := held, log := w.log ++ [.write data rc] }
  | opened {w t} (hout : goesOut) (ht : Fresh t) (hnone : w.pipe.tcp = none)
      (hopen : w.pipe.destroyed = false) :
      Move goesOut w { w with pipe := { w.pipe with tcp := some t } }
  | startReading {w t} (hout : goesOut) (htcp : w.pipe.tcp = some t)
      (hstopped : w.pipe.reading = false) (hopen : w.pipe.destroyed = false) :
      Move goesOut w { w with
        pipe := { w.pipe with tcp := some { t with reading := true }, reading := true }
        log := w.log ++ [.readStart] }
  | stopReading {w} (hout : goesOut) : Move goesOut w { w with pipe := w.pipe.stopReading }
  | push {w t data} (htcp : w.pipe.tcp = some t) (hopen : w.pipe.destroyed = false) :
      Move goesOut w
        (shut { w with pipe := w.pipe.queued t data, log := w.log ++ [.uvWrite data] })
  /-- A write has completed. -/
  | completed {w t i data} (htcp : w.pipe.tcp = some t) (hi : t.writes[i]? = some data) :
      Move goesOut w (reopened { w with pipe := popped t i data w.pipe })
  /-- A write has failed. -/
  | failed {w t i data} (htcp : w.pipe.tcp = some t) (hi : t.writes[i]? = some data)
      (hended : w.pipe.destroyed = true) :
      Move goesOut w { w with pipe := popped t i data w.pipe }
  | broken {w t i data} (htcp : w.pipe.tcp = some t) (hi : t.writes[i]? = some data)
      (hopen : w.pipe.destroyed = false) :
      Move goesOut w (ended { w with pipe := popped t i data w.pipe })
  /-- The stream has closed. -/
  | finished {w} : Move goesOut w { w with pipe := { w.pipe with streamClosed := true } }
  | ended {w} (hopen : w.pipe.destroyed = false) : Move goesOut w (ended w)
  | closed {w t} (htcp : w.pipe.tcp = some t) (hclosing : t.closing = true)
      (hidle : t.writes = []) :
      Move goesOut w { w with
        pipe := { w.pipe with tcp := none, onDestroy := false }
        log := w.log ++ .closed :: if w.pipe.onDestroy then [.onDestroy] else [] }

abbrev Moves (goesOut : Prop) : TcpBench → TcpBench → Prop := Relation.ReflTransGen (Move goesOut)

/-- The events of the direction toward the stream, and those that open the pipe. -/
def Event.goesOut : Event → Prop
  | .connect _ _ _ | .adopt _ _ | .connected _ _ | .read _ _ | .drained _ _ => True
  | _ => False

/-! ## What every move keeps -/

/-- The flags of the pipe and those of its handle agree. -/
structure Sound (w : TcpBench) : Prop where
  synced : w.pipe.reading = (w.pipe.tcp.map UvTcp.reading).getD false
  /-- Only a destroyed pipe closes its handle. -/
  attached : w.pipe.destroyed = false →
    w.pipe.closing = false ∧ ∀ t ∈ w.pipe.tcp, t.closing = false
  stopped : w.pipe.destroyed = true → w.pipe.reading = false

theorem told_eq_nil {p p' : TcpPipe} (hreading : p.reading = false → p'.reading = false)
    (hwrites : p'.queue.length ≤ p.queue.length) : told p p' = [] := by
  rw [told, List.drop_eq_nil_of_le hwrites, List.map_nil, List.append_nil]
  refine if_neg fun hboth ↦ ?_
  exact Bool.false_ne_true ((hreading hboth.1).symm.trans hboth.2)

theorem told_stopReading (p : TcpPipe) : told p p.stopReading = [] := by
  refine told_eq_nil (fun h ↦ ?_) (Nat.le_of_eq (congrArg List.length p.turned_stopReading.queue))
  rcases stopReading_cases p with hsame | ⟨t, htcp, hstops⟩
  · rwa [hsame]
  · rw [hstops]

section Core

variable {p p' : TcpPipe} (h : core p' = core p)

include h

theorem map_tcp_of_core {β : Type} (f : UvTcp → β)
    (hf : ∀ t : UvTcp, f { t with id := 0, connecting := false, ended := false } = f t) :
    p'.tcp.map f = p.tcp.map f := by
  have htcp := congrArg (Option.map f) (congrArg TcpPipe.tcp h)
  simp only [core, Option.map_map] at htcp
  rwa [show f ∘ (fun t : UvTcp ↦ { t with id := 0, connecting := false, ended := false }) = f from
    funext hf] at htcp

theorem reading_of_core : p'.reading = p.reading := (congrArg TcpPipe.reading h :)

theorem destroyed_of_core : p'.destroyed = p.destroyed :=
  (congrArg TcpPipe.destroyed h :)

theorem closing_of_core : p'.closing = p.closing := (congrArg TcpPipe.closing h :)

theorem onDestroy_of_core : p'.onDestroy = p.onDestroy :=
  (congrArg TcpPipe.onDestroy h :)

theorem queue_of_core : p'.queue = p.queue :=
  congrArg (Option.getD · []) (map_tcp_of_core h UvTcp.writes fun _ ↦ rfl)

theorem told_of_core : told p p' = [] :=
  told_eq_nil (reading_of_core h).trans (Nat.le_of_eq (congrArg List.length (queue_of_core h)))

end Core

theorem Sound.of_core {w w' : TcpBench} (hw : Sound w) (h : core w'.pipe = core w.pipe) :
    Sound w' where
  synced := by
    rw [reading_of_core h, map_tcp_of_core h UvTcp.reading fun _ ↦ rfl]
    exact hw.synced
  attached hopen := by
    have hw' := hw.attached ((destroyed_of_core h).symm.trans hopen)
    refine ⟨(closing_of_core h).trans hw'.1, fun t ht ↦ ?_⟩
    have hclosing := map_tcp_of_core h UvTcp.closing fun _ ↦ rfl
    rw [show w'.pipe.tcp = some t from ht] at hclosing
    obtain ⟨t₀, ht₀, hsame⟩ := Option.map_eq_some_iff.mp hclosing.symm
    exact hsame.symm.trans (hw'.2 t₀ ht₀)
  stopped hended := by
    rw [reading_of_core h]
    exact hw.stopped ((destroyed_of_core h).symm.trans hended)

/-- A move that changes neither `reading` nor `closing` at the handle, nor the flags. -/
theorem Sound.of_handle {w w' : TcpBench} (hw : Sound w) {t t' : UvTcp}
    (htcp : w.pipe.tcp = some t) (htcp' : w'.pipe.tcp = some t') (hreading : t'.reading = t.reading)
    (hclosing : t'.closing = t.closing) (hreads : w'.pipe.reading = w.pipe.reading)
    (hdestroyed : w'.pipe.destroyed = w.pipe.destroyed)
    (hcloses : w'.pipe.closing = w.pipe.closing) : Sound w' where
  synced := by
    rw [hreads, hw.synced, htcp, htcp', Option.map_some, Option.map_some, hreading]
  attached hopen := by
    have hw' := hw.attached (hdestroyed.symm.trans hopen)
    refine ⟨hcloses.trans hw'.1, fun s hs ↦ ?_⟩
    rw [← Option.some.inj (htcp'.symm.trans hs)]
    exact hclosing.trans (hw'.2 t htcp)
  stopped hended := hreads.trans (hw.stopped (hdestroyed.symm.trans hended))

theorem Sound.reading_of_none {w : TcpBench} (hw : Sound w) (hnone : w.pipe.tcp = none) :
    w.pipe.reading = false := by
  rw [hw.synced, hnone]
  rfl

theorem Sound.destroyed_of_closing {w : TcpBench} (hw : Sound w) {t : UvTcp}
    (htcp : w.pipe.tcp = some t) (hclosing : t.closing = true) : w.pipe.destroyed = true := by
  by_contra hopen
  have := (hw.attached (Bool.of_not_eq_true hopen)).2 t htcp
  exact Bool.false_ne_true (this.symm.trans hclosing)

theorem sound_ended {w : TcpBench} (hw : Sound w) : Sound (ended w) := by
  rw [ended]
  split
  · next hnone =>
    exact ⟨hw.synced, fun h ↦ absurd h Bool.noConfusion, fun _ ↦ hw.reading_of_none hnone⟩
  · exact ⟨rfl, fun h ↦ absurd h Bool.noConfusion, fun _ ↦ rfl⟩

theorem sound_popped {w : TcpBench} (hw : Sound w) {t : UvTcp} (htcp : w.pipe.tcp = some t)
    (i : ℕ) (data : Bytes) : Sound { w with pipe := popped t i data w.pipe } :=
  hw.of_handle htcp rfl rfl rfl rfl rfl rfl

theorem sound_move {g : Prop} {w w' : TcpBench} (hw : Sound w) (h : Move g w w') : Sound w' := by
  cases h with
  | aside _ hcore => exact hw.of_core hcore
  | write _ hcore => exact hw.of_core hcore
  | @opened t _ ht hnone hopen =>
    refine ⟨(hw.reading_of_none hnone).trans ht.1.symm, fun h ↦ ⟨(hw.attached h).1, ?_⟩, hw.stopped⟩
    rintro t ⟨⟩
    exact ht.2.1
  | @startReading t _ htcp hstopped hopen =>
    refine ⟨rfl, fun h ↦ ⟨(hw.attached h).1, ?_⟩, fun h ↦ ?_⟩
    · rintro t' ⟨⟩
      exact (hw.attached hopen).2 t htcp
    · exact absurd (hopen.symm.trans h) Bool.false_ne_true
  | stopReading =>
    rcases stopReading_cases w.pipe with hsame | ⟨t, htcp, hstops⟩
    · rwa [hsame]
    · rw [hstops]
      refine ⟨rfl, fun h ↦ ⟨(hw.attached h).1, ?_⟩, fun _ ↦ rfl⟩
      rintro t' ⟨⟩
      exact (hw.attached h).2 t htcp
  | push htcp hopen =>
    rw [shut]
    split_ifs
    · exact hw.of_handle htcp rfl rfl rfl rfl rfl rfl
    · exact hw.of_handle htcp rfl rfl rfl rfl rfl rfl
  | completed htcp hi =>
    rw [reopened]
    split_ifs
    · exact hw.of_handle htcp rfl rfl rfl rfl rfl rfl
    · exact sound_popped hw htcp _ _
  | failed htcp hi hended => exact sound_popped hw htcp _ _
  | broken htcp hi hopen => exact sound_ended (sound_popped hw htcp _ _)
  | finished => exact ⟨hw.synced, hw.attached, hw.stopped⟩
  | ended hopen => exact sound_ended hw
  | closed htcp hclosing hidle =>
    have hended := hw.destroyed_of_closing htcp hclosing
    have hstopped := hw.stopped hended
    exact ⟨hstopped, fun h ↦ absurd (h.symm.trans hended) Bool.false_ne_true, fun _ ↦ hstopped⟩

theorem Moves.keep {g : Prop} {P : TcpBench → Prop} (hP : ∀ {w w'}, P w → Move g w w' → P w')
    {w w' : TcpBench} (h : Moves g w w') (hw : P w) : P w' := by
  induction h with
  | refl => exact hw
  | tail _ hmove ih => exact hP ih hmove

theorem Moves.sound {g : Prop} {w w' : TcpBench} (h : Moves g w w') (hw : Sound w) : Sound w' :=
  h.keep sound_move hw

/-! ## Being destroyed is final -/

theorem final_move {g : Prop} {w w' : TcpBench} (h : Move g w w')
    (hended : w.pipe.destroyed = true) :
    w'.pipe.destroyed = true ∧ work w'.log = work w.log := by
  have habsurd : w.pipe.destroyed ≠ false := fun h ↦ Bool.false_ne_true (h.symm.trans hended)
  cases h with
  | aside _ hcore hcalls =>
    refine ⟨(destroyed_of_core hcore).trans hended, ?_⟩
    exact work_append_of_nil (work_of_aside hcalls) _
  | write _ _ hopen => exact absurd hopen habsurd
  | opened _ _ _ hopen => exact absurd hopen habsurd
  | startReading _ _ _ hopen => exact absurd hopen habsurd
  | stopReading => exact ⟨(turned_stopReading _).life.1.trans hended, rfl⟩
  | push _ hopen => exact absurd hopen habsurd
  | completed htcp hi =>
    rw [reopened]
    split_ifs
    · exact ⟨hended, work_append_of_nil rfl _⟩
    · exact ⟨hended, rfl⟩
  | failed htcp hi _ => exact ⟨hended, rfl⟩
  | broken _ _ hopen => exact absurd hopen habsurd
  | finished => exact ⟨hended, rfl⟩
  | ended hopen => exact absurd hopen habsurd
  | closed _ _ _ => exact ⟨hended, work_append_of_nil (work_onDestroy rfl _) _⟩

theorem Moves.final {g : Prop} {w w' : TcpBench} (h : Moves g w w')
    (hended : w.pipe.destroyed = true) :
    w'.pipe.destroyed = true ∧ work w'.log = work w.log :=
  h.keep (P := fun v ↦ v.pipe.destroyed = true ∧ work v.log = work w.log)
    (fun hv hmove ↦ by
      have hfinal := final_move hmove hv.1
      exact ⟨hfinal.1, hfinal.2.trans hv.2⟩) ⟨hended, rfl⟩

/-! ## Every callback is made of moves -/

section Callbacks

variable {r : ℤ} {g : Prop} {w : TcpBench}

theorem modify_of_told {f : TcpPipe → TcpPipe} (h : told w.pipe (f w.pipe) = []) :
    (host r).modify f w = { w with pipe := f w.pipe } := by
  change { w with pipe := f w.pipe, log := w.log ++ told w.pipe (f w.pipe) } = _
  rw [h, List.append_nil]

theorem moves_modify {f : TcpPipe → TcpPipe} (hcore : core (f w.pipe) = core w.pipe) :
    Moves True w ((host r).modify f w) := by
  rw [modify_of_told (told_of_core hcore)]
  have hquiet : Move True w { w with pipe := f w.pipe, log := w.log ++ [] } :=
    .aside trivial hcore fun _ hc ↦ absurd hc List.not_mem_nil
  rw [List.append_nil] at hquiet
  exact .single hquiet

theorem moves_aside (w : TcpBench) (held : List Drain) (eof : Bool) :
    Moves True w { w with held := held, eof := eof } := by
  have hquiet : Move True w { w with held := held, eof := eof, log := w.log ++ [] } :=
    .aside trivial rfl fun _ hc ↦ absurd hc List.not_mem_nil
  rw [List.append_nil] at hquiet
  exact .single hquiet

theorem moves_call {c : Call} (hc : Call.aside c) : Moves True w (w.call c) := by
  refine .single (.aside trivial rfl fun c' hc' ↦ ?_)
  rwa [List.mem_singleton.mp hc']

theorem told_start {p : TcpPipe} {t : UvTcp} (htcp : p.tcp = some t)
    (hstopped : p.reading = false) :
    told p { p with tcp := some { t with reading := true }, reading := true } = [.readStart] := by
  rw [told, (turned_of_tcp htcp true).queue, List.drop_length, if_pos ⟨hstopped, rfl⟩]
  rfl

theorem modify_of_starts {f : TcpPipe → TcpPipe} {t : UvTcp}
    (hstarts : f w.pipe
      = { w.pipe with tcp := some { t with reading := true }, reading := true })
    (htcp : w.pipe.tcp = some t) (hstopped : w.pipe.reading = false) :
    (host r).modify f w = { w with
      pipe := { w.pipe with tcp := some { t with reading := true }, reading := true }
      log := w.log ++ [.readStart] } := by
  change { w with pipe := f w.pipe, log := w.log ++ told w.pipe (f w.pipe) } = _
  rw [hstarts, told_start htcp hstopped]

theorem moves_startReading (uv : Uv) :
    Moves True w ((host r).modify (fun p ↦ p.startReading uv) w) := by
  rcases startReading_cases w.pipe uv with hsame | ⟨t, htcp, hstopped, hopen, hstarts⟩
  · exact moves_modify (congrArg core hsame)
  · rw [modify_of_starts hstarts htcp hstopped]
    exact .single (.startReading trivial htcp hstopped hopen)

theorem moves_resumeReading (uv : Uv) :
    Moves True w ((host r).modify (fun p ↦ p.resumeReading uv) w) := by
  by_cases hended : w.pipe.destroyed = true
  · exact moves_modify (congrArg core (resumeReading_of_destroyed hended uv))
  · have hstarts : w.pipe.resumeReading uv = w.pipe.startReading uv := if_neg hended
    simp only [TcpPipe.Host.modify, host, hstarts]
    exact moves_startReading (r := r) uv

theorem moves_stopReading : Moves True w ((host r).modify stopReading w) := by
  rw [modify_of_told (told_stopReading _)]
  exact .single (.stopReading trivial)

theorem stopReading_of_none {p : TcpPipe} (hnone : p.tcp = none) : p.stopReading = p := by
  rw [stopReading]
  simp only [hnone]

theorem stopReading_of_synced {p : TcpPipe} {t : UvTcp} (htcp : p.tcp = some t)
    (hsynced : p.reading = t.reading) :
    p.stopReading = { p with tcp := some { t with reading := false }, reading := false } := by
  rw [stopReading, htcp]
  simp only
  split_ifs with hreading
  · rfl
  · have hp : p.reading = false := Bool.of_not_eq_true hreading
    have ht : { t with reading := false } = t := by rw [← hsynced.symm.trans hp]
    rw [ht, ← htcp, ← hp]

theorem fireOnDestroy_eq : fireOnDestroy (host r) w = { w with
    pipe := { w.pipe with onDestroy := false }
    log := w.log ++ if w.pipe.onDestroy then [.onDestroy] else [] } := by
  have hfired : (host r).modify (fun p ↦ { p with onDestroy := false }) w
      = { w with pipe := { w.pipe with onDestroy := false } } :=
    modify_of_told (told_eq_nil id (Nat.le_refl _))
  rw [fireOnDestroy, show (host r).pipe w = w.pipe from rfl, hfired]
  split_ifs with harmed
  · rfl
  · rw [List.append_nil, ← Bool.of_not_eq_true harmed]

theorem closeHandle_eq {t : UvTcp} (htcp : w.pipe.tcp = some t) (hcloses : w.pipe.closing = false)
    (hhandle : t.closing = false) : closeHandle (host r) w = { w with
      pipe := { w.pipe with
        closing := true
        tcp := some { t with closing := true, reading := false } }
      log := w.log ++ [.uvClose] } := by
  have hmarked : (host r).modify (fun p ↦ { p with closing := true }) w
      = { w with pipe := { w.pipe with closing := true } } :=
    modify_of_told (told_eq_nil id (Nat.le_refl _))
  have hdetached : ∀ v : TcpBench, v.pipe.tcp = some t →
      (host r).modify
          (fun p ↦ { p with tcp := some { t with closing := true, reading := false } }) v
        = { v with pipe := { v.pipe with
              tcp := some { t with closing := true, reading := false } } } := by
    intro v hv
    refine modify_of_told (told_eq_nil id (Nat.le_of_eq ?_))
    rw [queue_of_tcp hv, queue_of_tcp rfl]
  rw [closeHandle.eq_def, show (host r).pipe w = w.pipe from rfl, htcp]
  simp only [hcloses, hhandle, Bool.false_eq_true, if_false, hmarked]
  rw [hdetached { w with pipe := { w.pipe with closing := true } } htcp]
  rfl

theorem destroy_eq_ended (hw : Sound w) (hopen : w.pipe.destroyed = false) :
    destroy (host r) w = ended w := by
  obtain ⟨hcloses, hhandle⟩ := hw.attached hopen
  have hmarked : (host r).modify (fun p ↦ { p with destroyed := true }) w
      = { w with pipe := { w.pipe with destroyed := true } } :=
    modify_of_told (told_eq_nil id (Nat.le_refl _))
  have hsynced := hw.synced
  rw [destroy, if_neg (by rw [show (host r).pipe w = w.pipe from rfl, hopen]; decide)]
  simp only [hmarked, modify_of_told (told_stopReading _)]
  rcases Option.eq_none_or_eq_some w.pipe.tcp with hnone | ⟨t, htcp⟩
  · let v : TcpBench :=
      { w with pipe := { w.pipe with destroyed := true }, log := w.log ++ [.close] }
    rw [stopReading_of_none (p := { w.pipe with destroyed := true }) hnone]
    change closeHandle (host r) v = ended w
    rw [closeHandle_of_none (host r) (w := v) hnone, fireOnDestroy_eq, ended.eq_def, hnone]
    simp only [v, List.append_assoc, List.singleton_append]
  · let v : TcpBench :=
      { w with
        pipe := { w.pipe with
          destroyed := true, tcp := some { t with reading := false }, reading := false }
        log := w.log ++ [.close] }
    rw [htcp, Option.map_some, Option.getD_some] at hsynced
    rw [stopReading_of_synced (p := { w.pipe with destroyed := true }) htcp hsynced]
    change closeHandle (host r) v = ended w
    rw [closeHandle_eq (w := v) rfl hcloses (hhandle t htcp), ended.eq_def, htcp]
    simp only [v, List.append_assoc, List.singleton_append]

theorem moves_destroy (hw : Sound w) : Moves g w (destroy (host r) w) := by
  by_cases hended : w.pipe.destroyed = true
  · rw [destroy_of_destroyed (host r) hended]
  · have hopen := Bool.of_not_eq_true hended
    rw [destroy_eq_ended hw hopen]
    exact .single (.ended hopen)

theorem moves_flushFinished (hw : Sound w) : Moves g w (flushFinished (host r) w) := by
  rw [flushFinished]
  split_ifs
  · rfl
  · exact moves_destroy hw

namespace Moves

variable {v : TcpBench}

theorem modify (h : Moves True w v) {f : TcpPipe → TcpPipe}
    (hcore : core (f v.pipe) = core v.pipe) :
    Moves True w ((host r).modify f v) := h.trans (moves_modify hcore)

theorem destroy (h : Moves g w v) (hw : Sound w) : Moves g w (TcpPipe.destroy (host r) v) :=
  h.trans (moves_destroy (h.sound hw))

theorem flushFinished (h : Moves g w v) (hw : Sound w) :
    Moves g w (TcpPipe.flushFinished (host r) v) :=
  h.trans (moves_flushFinished (h.sound hw))

theorem call (h : Moves True w v) {c : Call} (hc : Call.aside c) : Moves True w (v.call c) :=
  h.trans (moves_call hc)

theorem startReading (h : Moves True w v) (uv : Uv) :
    Moves True w ((host r).modify (fun p ↦ p.startReading uv) v) :=
  h.trans (moves_startReading uv)

theorem stopReading (h : Moves True w v) :
    Moves True w ((host r).modify TcpPipe.stopReading v) :=
  h.trans moves_stopReading

end Moves

/-! ### Opening -/

theorem moves_opened {t : UvTcp} (ht : Fresh t) (hnone : w.pipe.tcp = none)
    (hopen : w.pipe.destroyed = false) :
    Moves True w ((host r).modify (fun p ↦ { p with tcp := some t }) w) := by
  rw [modify_of_told (told_eq_nil id ?_)]
  · exact .single (.opened trivial ht hnone hopen)
  · refine Nat.le_of_eq ?_
    rw [queue_of_none hnone, queue_of_tcp rfl, ht.2.2.2]

theorem moves_connect (hw : Sound w) (uv : Uv) (id : ℕ) (onReady : Bool)
    (hnone : w.pipe.tcp = none) : Moves True w (connect (host r) uv id onReady w).2 := by
  have hopened := moves_opened (r := r) (t := { id := id }) ⟨rfl, rfl, rfl, rfl⟩ hnone
  simp only [connect]
  split_ifs with hended <;> dsimp only
  · rfl
  · rfl
  all_goals replace hopened := hopened (Bool.of_not_eq_true hended)
  · exact hopened.destroy hw
  all_goals have hready := hopened.modify (r := r) (f := fun p ↦ { p with onReady := onReady }) rfl
  · exact hready.destroy hw
  · exact hready.modify rfl

theorem moves_adopt (hw : Sound w) (uv : Uv) (accepted : Option UvTcp) (hnone : w.pipe.tcp = none)
    (hfresh : ∀ t ∈ accepted, Fresh t) : Moves True w (adopt (host r) uv accepted w).2 := by
  rw [adopt.eq_def]
  split
  · rfl
  · next t =>
    split_ifs with hended
    · rfl
    have hopen := Bool.of_not_eq_true hended
    have ht := hfresh t rfl
    have hopened := moves_opened (r := r) ht hnone hopen
    have hstopped := hw.reading_of_none hnone
    have hquiet : told w.pipe { w.pipe with tcp := some t } = [] :=
      told_eq_nil id (Nat.le_of_eq (by rw [queue_of_none hnone, queue_of_tcp rfl, ht.2.2.2]))
    have hmodify : (host r).modify (fun p ↦ { p with tcp := some t }.startReading uv) w
        = (host r).modify (fun p ↦ p.startReading uv)
          ((host r).modify (fun p ↦ { p with tcp := some t }) w) := by
      rw [modify_of_told (f := fun p ↦ { p with tcp := some t }) hquiet]
      have htold : ∀ p, told w.pipe p = told { w.pipe with tcp := some t } p := by
        intro p
        rw [told, told, queue_of_none hnone,
          queue_of_tcp (p := { w.pipe with tcp := some t }) rfl, ht.2.2.2]
      simp only [TcpPipe.Host.modify, host, htold]
    rw [hmodify]
    exact hopened.trans (moves_startReading uv)

theorem moves_connectCb (hw : Sound w) (uv : Uv) (status : ℤ) :
    Moves True w (connectCb (host r) uv status w) := by
  have hsettled : Moves True w ((host r).modify (fun p ↦
      { p with tcp := p.tcp.map fun t ↦ { t with connecting := false } }) w) := by
    refine moves_modify ?_
    simp only [core, Option.map_map]
    rfl
  simp only [connectCb]
  split_ifs
  · exact (hsettled.call (c := .onReady status) trivial).destroy hw
  · exact hsettled.destroy hw
  · exact (hsettled.startReading uv).call (c := .onReady 0) trivial
  · exact hsettled.startReading uv

/-! ### Reading -/

theorem moves_onDrain (uv : Uv) (len : ℕ) : Moves True w (onDrain (host r) uv len w) := by
  have hacked := moves_modify (r := r) (w := w) (f := fun p ↦ p.ack len) rfl
  simp only [onDrain]
  split_ifs
  · exact hacked.trans (moves_resumeReading uv)
  · exact hacked

theorem moves_readCb (hw : Sound w) (nread : Read) : Moves True w (readCb (host r) nread w) := by
  rw [readCb.eq_def]
  split_ifs with hended
  · rfl
  have hopen := Bool.of_not_eq_true hended
  cases nread with
  | eof => exact moves_stopReading.trans (moves_call trivial)
  | error => exact moves_destroy hw
  | data bytes =>
    have hwritten : Moves True w ((host r).stream.write bytes (some ⟨w.pipe.drains, bytes.length⟩)
        ((host r).modify (fun p ↦
          { p with
            streamPendingBytes := p.streamPendingBytes + bytes.length
            drains := p.drains + 1 }) w)).2 := by
      refine (moves_modify (r := r) (f := fun p ↦
        { p with
          streamPendingBytes := p.streamPendingBytes + bytes.length
          drains := p.drains + 1 }) rfl).trans (.single ?_)
      simp only [host]
      split_ifs
      · exact .write trivial rfl hopen
      · exact .write trivial rfl hopen
    simp only
    split_ifs
    · rfl
    · exact (hwritten.modify (f := fun p ↦ p.ack bytes.length) rfl).destroy hw
    · exact hwritten.stopReading
    · exact hwritten

/-! ### The other direction -/

theorem told_queued {p : TcpPipe} {t : UvTcp} (htcp : p.tcp = some t) (data : Bytes) :
    told p (p.queued t data) = [.uvWrite data] := by
  have hreading : ¬(p.reading = false ∧ (p.queued t data).reading = true) := fun h ↦
    Bool.false_ne_true (h.1.symm.trans h.2)
  rw [told, if_neg hreading]
  rw [queue_queued htcp, List.drop_left]
  rfl

theorem shut_eq (v : TcpBench) :
    (if ((host r).pipe v).streamPaused = false ∧
        kHighWaterMark ≤ ((host r).pipe v).pendingBytes then
      (host r).stream.pause ((host r).modify (fun p ↦ { p with streamPaused := true }) v)
    else v) = shut v := by
  have hmarked : (host r).modify (fun p ↦ { p with streamPaused := true }) v
      = { v with pipe := { v.pipe with streamPaused := true } } :=
    modify_of_told (told_eq_nil id (Nat.le_refl _))
  rw [hmarked]
  rfl

theorem moves_onStreamData (hw : Sound w) (uv : Uv) (data : Bytes) :
    Moves g w (onStreamData (host r) uv data w) := by
  rw [onStreamData.eq_def]
  split
  · rfl
  · next t htcp =>
    split_ifs with hended
    · rfl
    · rfl
    · exact moves_destroy hw
    · have htcp' : w.pipe.tcp = some t := htcp
      have hopen : w.pipe.destroyed = false := Bool.of_not_eq_true (not_or.mp hended).1
      have hqueued : (host r).modify (fun p ↦ p.queued t data) w
          = { w with pipe := w.pipe.queued t data, log := w.log ++ [.uvWrite data] } := by
        simp only [TcpPipe.Host.modify, host, told_queued htcp']
      have hmoved : Moves g w (shut ((host r).modify (fun p ↦ p.queued t data) w)) := by
        rw [hqueued]
        exact .single (.push htcp' hopen)
      rw [← shut_eq (r := r)] at hmoved
      exact hmoved

theorem moves_deliver (hw : Sound w) (chunks : List (Uv × Bytes)) :
    Moves g w (chunks.foldl deliver w) := by
  induction chunks generalizing w with
  | nil => rfl
  | cons chunk chunks ih =>
    have hmoved : Moves g w (deliver w chunk) := moves_onStreamData hw chunk.1 chunk.2
    exact hmoved.trans (ih (hmoved.sound hw))

/-- Once the stream is resumed, it may deliver chunks before `resume` returns. -/
theorem moves_resume (chunks : List (Uv × Bytes)) (hw : Sound (reopened w)) :
    Moves g (reopened w)
      (if w.pipe.streamPaused = true ∧ w.pipe.pendingBytes < kHighWaterMark then
        (eagerHost chunks).stream.resume
          ((eagerHost chunks).modify (fun p ↦ { p with streamPaused := false }) w)
      else w) := by
  have hmarked : (eagerHost chunks).modify (fun p ↦ { p with streamPaused := false }) w
      = { w with pipe := { w.pipe with streamPaused := false } } :=
    modify_of_told (r := 0) (f := fun p ↦ { p with streamPaused := false })
      (told_eq_nil id (Nat.le_refl _))
  rw [hmarked]
  rw [reopened] at hw ⊢
  split_ifs at hw ⊢
  · exact moves_deliver hw chunks
  · rfl

theorem moves_writeCb (hw : Sound w) {t : UvTcp} {i : ℕ} {data : Bytes}
    (htcp : w.pipe.tcp = some t) (hi : t.writes[i]? = some data) (status : ℤ)
    (chunks : List (Uv × Bytes)) :
    Moves g w (writeCb (eagerHost chunks) status { w with pipe := promote i w.pipe }) := by
  have hpromoted :
      (promote i w.pipe).tcp = some { t with writes := data :: t.writes.eraseIdx i } := by
    simp only [promote, htcp, Option.map_some, hi, Option.toList_some, List.singleton_append]
  have hpopped : (eagerHost chunks).modify (fun p ↦
      { p with
        tcp := some { t with writes := t.writes.eraseIdx i }
        inflightWrites := p.inflightWrites - 1
        pendingBytes := p.pendingBytes -
          (if data.length < p.pendingBytes then data.length else p.pendingBytes) })
      { w with pipe := promote i w.pipe } = { w with pipe := popped t i data w.pipe } := by
    have hquiet : told (promote i w.pipe) (popped t i data w.pipe) = [] := by
      refine told_eq_nil id ?_
      rw [queue_of_tcp hpromoted, queue_of_tcp rfl, List.length_cons]
      exact Nat.le_succ _
    change { w with
      pipe := popped t i data w.pipe
      log := w.log ++ told (promote i w.pipe) (popped t i data w.pipe) } = _
    rw [hquiet, List.append_nil]
  rw [writeCb.eq_def]
  simp only [show (eagerHost chunks).pipe { w with pipe := promote i w.pipe } = promote i w.pipe
    from rfl, hpromoted]
  rw [hpopped]
  have hsound := sound_popped hw htcp i data
  by_cases hstatus : status ≠ 0
  · rw [if_pos hstatus]
    -- A write that failed destroys the pipe, if it is not destroyed yet.
    change Moves g w (destroy (host 0) { w with pipe := popped t i data w.pipe })
    by_cases hended : w.pipe.destroyed = true
    · rw [destroy_of_destroyed (host 0) (w := { w with pipe := popped t i data w.pipe }) hended]
      exact .single (.failed htcp hi hended)
    · have hopen := Bool.of_not_eq_true hended
      rw [destroy_eq_ended hsound hopen]
      exact .single (.broken htcp hi hopen)
  · rw [if_neg hstatus]
    have hcompleted : Moves g w (reopened { w with pipe := popped t i data w.pipe }) :=
      .single (.completed htcp hi)
    have hresumed : Moves g w _ := hcompleted.trans (moves_resume chunks (hcompleted.sound hw))
    exact hresumed.flushFinished (r := 0) hw

theorem moves_onStreamClose (hw : Sound w) : Moves g w (onStreamClose (host r) w) := by
  have hmarked : (host r).modify (fun p ↦ { p with streamClosed := true }) w
      = { w with pipe := { w.pipe with streamClosed := true } } :=
    modify_of_told (told_eq_nil id (Nat.le_refl _))
  have hfinished : Moves g w { w with pipe := { w.pipe with streamClosed := true } } :=
    .single .finished
  rw [onStreamClose, hmarked]
  split_ifs
  · rfl
  · exact hfinished.flushFinished hw

theorem moves_closedCb {t : UvTcp} (htcp : w.pipe.tcp = some t) (hclosing : t.closing = true)
    (hidle : t.writes = []) : Moves g w (closedCb (host r) (w.call .closed)) := by
  have hgone : (host r).modify (fun p ↦ { p with tcp := none }) (w.call .closed)
      = { w with pipe := { w.pipe with tcp := none }, log := w.log ++ [.closed] } :=
    modify_of_told (w := w.call .closed) (f := fun p ↦ { p with tcp := none })
      (told_eq_nil id (Nat.zero_le _))
  rw [closedCb, hgone, fireOnDestroy_eq]
  simp only [List.append_assoc, List.singleton_append]
  exact .single (.closed htcp hclosing hidle)

end Callbacks

/-- **What an event can do.** -/
theorem moves_step {w : TcpBench} (hw : Sound w) {e : Event} (he : Enabled w e) :
    Moves e.goesOut w (step w e) := by
  cases e with
  | connect uv id onReady => exact moves_connect hw uv id onReady he
  | adopt uv accepted => exact moves_adopt hw uv accepted he.1 he.2
  | connected uv status => exact moves_connectCb hw uv status
  | read nread rc =>
    have hseen := moves_aside w w.held (w.eof || decide (nread = .eof))
    exact hseen.trans (moves_readCb (hseen.sound hw) nread)
  | drained d uv =>
    have htaken := moves_aside w (w.held.erase d) w.eof
    exact htaken.trans (moves_onDrain uv d.len)
  | written i status chunks =>
    obtain ⟨t, htcp, hi⟩ := he
    exact moves_writeCb hw htcp (List.getElem?_eq_getElem hi) status chunks
  | closed =>
    obtain ⟨t, htcp, hclosing, hidle, -⟩ := he
    exact moves_closedCb htcp hclosing hidle
  | streamData uv data => exact moves_onStreamData hw uv data
  | streamClose => exact moves_onStreamClose hw
  | destroy => exact moves_destroy hw

theorem sound_new (armed : Bool) : Sound (new armed) where
  synced := rfl
  attached _ := ⟨rfl, fun _ ht ↦ absurd ht (Option.not_mem_none _)⟩
  stopped h := absurd h Bool.false_ne_true

end TcpBench

end Holesail
