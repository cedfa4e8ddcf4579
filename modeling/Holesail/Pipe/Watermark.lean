import Holesail.Pipe.Bench
import Mathlib.Data.List.Perm.Basic

/-!
# Flow control toward the local socket

`on_stream_data` counts what it hands to libuv in `pending_bytes_` and pauses the stream at
`kHighWaterMark`; `write_cb` counts it back and resumes the stream below the mark. Both run again
while `resume` is still running, if the stream delivers more at once.

The counters are the sums over the writes in flight, and the flag is what they say, after every move
of the pipe and so after every event.

## Main result

`watermark_exact`: the counters are exact, a pipe that is not destroyed has paused the stream
exactly at the mark, and the stream hears `pause` and `resume` in turn.
-/

namespace Holesail

namespace TcpBench

open Run TcpPipe

/-- The bytes of the writes in flight. -/
def load (p : TcpPipe) : ℕ := p.queue.flatten.length

/-- The calls that pause the stream and those that resume it. -/
def turns (log : List Call) : List Call := log.filter fun c ↦ c = .pause ∨ c = .resume

/-- `n` calls in turn, `pause` first. -/
def inTurn (n : ℕ) : List Call :=
  (List.range n).map fun i ↦ if i % 2 = 0 then .pause else .resume

/-- The counters are exact, and the stream hears `pause` and `resume` in turn. -/
structure Counted (w : TcpBench) : Prop where
  counted : w.pipe.inflightWrites = w.pipe.queue.length
  weighed : w.pipe.pendingBytes = load w.pipe
  turns : turns w.log = inTurn (turns w.log).length
  /-- The flag says whose turn it is. -/
  turn : w.pipe.streamPaused = true ↔ (TcpBench.turns w.log).length % 2 = 1

/-- The flag says what the counters say. -/
structure Levelled (w : TcpBench) : Prop extends Counted w where
  marked : w.pipe.destroyed = false →
    (w.pipe.streamPaused = true ↔ kHighWaterMark ≤ w.pipe.pendingBytes)

/-! ## Taking turns -/

theorem inTurn_succ (n : ℕ) :
    inTurn (n + 1) = inTurn n ++ [if n % 2 = 0 then .pause else .resume] := by
  rw [inTurn, List.range_succ, List.map_append]
  rfl

theorem turns_append (log calls : List Call) : turns (log ++ calls) = turns log ++ turns calls :=
  List.filter_append _ _

theorem turns_append_of_nil {calls : List Call} (h : turns calls = []) (log : List Call) :
    turns (log ++ calls) = turns log := by
  rw [turns_append, h, List.append_nil]

theorem turns_concat {log : List Call} (h : turns log = inTurn (turns log).length) {c : Call}
    (hc : turns [c] = [c]) (hturn : c = if (turns log).length % 2 = 0 then .pause else .resume) :
    turns (log ++ [c]) = inTurn (turns (log ++ [c])).length := by
  rw [turns_append, hc, List.length_append, List.length_singleton, inTurn_succ, ← h, ← hturn]

theorem length_turns_concat (log : List Call) {c : Call} (hc : turns [c] = [c]) :
    (turns (log ++ [c])).length = (turns log).length + 1 := by
  rw [turns_append, hc, List.length_append, List.length_singleton]

theorem turns_of_aside {calls : List Call} (h : ∀ c ∈ calls, Call.aside c) : turns calls = [] := by
  refine List.filter_eq_nil_iff.mpr fun c hc hturn ↦ ?_
  have haside := h c hc
  rcases of_decide_eq_true hturn with rfl | rfl
  · exact haside
  · exact haside

/-! ## One move -/

section Moves

variable {w w' : TcpBench}

/-- What calls neither `pause` nor `resume` and leaves the counters right. -/
theorem Counted.same (hw : Counted w) (hpaused : w'.pipe.streamPaused = w.pipe.streamPaused)
    (hturns : TcpBench.turns w'.log = TcpBench.turns w.log)
    (hcount : w'.pipe.inflightWrites = w'.pipe.queue.length)
    (hweigh : w'.pipe.pendingBytes = load w'.pipe) : Counted w' where
  counted := hcount
  weighed := hweigh
  turns := by rw [hturns, ← hw.turns]
  turn := by rw [hpaused, hturns, hw.turn]

/-- A move that counts nothing, and calls neither `pause` nor `resume`. -/
theorem Levelled.same (hw : Levelled w) (hcount : w'.pipe.inflightWrites = w.pipe.inflightWrites)
    (hpending : w'.pipe.pendingBytes = w.pipe.pendingBytes)
    (hpaused : w'.pipe.streamPaused = w.pipe.streamPaused)
    (hflight : w'.pipe.queue = w.pipe.queue)
    (hopen : w'.pipe.destroyed = false → w.pipe.destroyed = false)
    (hturns : TcpBench.turns w'.log = TcpBench.turns w.log) : Levelled w' where
  toCounted := by
    refine hw.toCounted.same hpaused hturns ?_ ?_
    · rw [hcount, hflight, hw.counted]
    · rw [hpending, load, hflight, hw.weighed, load]
  marked h := by
    rw [hpaused, hpending]
    exact hw.marked (hopen h)

theorem Levelled.of_core (hw : Levelled w) (h : core w'.pipe = core w.pipe)
    (hturns : TcpBench.turns w'.log = TcpBench.turns w.log) : Levelled w' :=
  hw.same (congrArg TcpPipe.inflightWrites h :) (congrArg TcpPipe.pendingBytes h :)
    (congrArg TcpPipe.streamPaused h :) (queue_of_core h) (destroyed_of_core h).symm.trans hturns

theorem load_queued {p : TcpPipe} {t : UvTcp} (htcp : p.tcp = some t) (data : Bytes) :
    load (p.queued t data) = load p + data.length := by
  rw [load, load, queue_queued htcp, List.flatten_append, List.flatten_singleton,
    List.length_append]

theorem perm_writes {t : UvTcp} {i : ℕ} {data : Bytes} (hi : t.writes[i]? = some data) :
    (data :: t.writes.eraseIdx i).Perm t.writes := by
  obtain ⟨hlt, rfl⟩ := List.getElem?_eq_some_iff.mp hi
  exact List.getElem_cons_eraseIdx_perm hlt

theorem load_popped {p : TcpPipe} {t : UvTcp} (htcp : p.tcp = some t) {i : ℕ} {data : Bytes}
    (hi : t.writes[i]? = some data) : load p = data.length + load (popped t i data p) := by
  have hperm := (perm_writes hi).flatten.length_eq
  rw [load, load, queue_of_tcp htcp, queue_of_tcp (p := popped t i data p) rfl, ← hperm,
    List.flatten_cons, List.length_append]

theorem length_queue_popped {p : TcpPipe} {t : UvTcp} (htcp : p.tcp = some t) {i : ℕ}
    {data : Bytes} (hi : t.writes[i]? = some data) :
    p.queue.length = (popped t i data p).queue.length + 1 := by
  have hperm := (perm_writes hi).length_eq
  rw [queue_of_tcp htcp, queue_of_tcp (p := popped t i data p) rfl, ← hperm, List.length_cons]

theorem counted_queued (hw : Counted w) {t : UvTcp} (htcp : w.pipe.tcp = some t) (data : Bytes) :
    Counted { w with pipe := w.pipe.queued t data, log := w.log ++ [.uvWrite data] } := by
  refine hw.same rfl (turns_append_of_nil rfl _) ?_ ?_
  · rw [queue_queued htcp, List.length_append]
    exact congrArg (· + 1) hw.counted
  · rw [load_queued htcp, ← hw.weighed]
    rfl

theorem counted_popped (hw : Counted w) {t : UvTcp} (htcp : w.pipe.tcp = some t) {i : ℕ}
    {data : Bytes} (hi : t.writes[i]? = some data) :
    Counted { w with pipe := popped t i data w.pipe } := by
  have hload := load_popped htcp hi
  have hlength := length_queue_popped htcp hi
  refine hw.same rfl rfl ?_ ?_
  · have hcounted := hw.counted
    change w.pipe.inflightWrites - 1 = ((popped t i data w.pipe).queue.length : ℤ)
    omega
  · have hweighed := hw.weighed
    -- The subtraction does not clamp: what completes is a part of the sum.
    have hpending : (popped t i data w.pipe).pendingBytes = w.pipe.pendingBytes - data.length := by
      change w.pipe.pendingBytes - (if data.length < w.pipe.pendingBytes then data.length
        else w.pipe.pendingBytes) = _
      split_ifs <;> omega
    change (popped t i data w.pipe).pendingBytes = load (popped t i data w.pipe)
    omega

theorem levelled_shut (hw : Counted w)
    (hmark : w.pipe.destroyed = false → w.pipe.streamPaused = true →
      kHighWaterMark ≤ w.pipe.pendingBytes) : Levelled (shut w) := by
  rw [shut]
  split_ifs with hfull
  · obtain ⟨hflag, hfull⟩ := hfull
    have heven : (turns w.log).length % 2 = 0 := by
      refine (Nat.mod_two_eq_zero_or_one _).resolve_right fun hodd ↦ ?_
      exact Bool.false_ne_true (hflag.symm.trans (hw.turn.mpr hodd))
    refine ⟨⟨hw.counted, hw.weighed, turns_concat hw.turns rfl (if_pos heven).symm, ?_⟩, ?_⟩
    · rw [length_turns_concat _ rfl]
      exact ⟨fun _ ↦ by omega, fun _ ↦ rfl⟩
    · exact fun _ ↦ ⟨fun _ ↦ hfull, fun _ ↦ rfl⟩
  · refine ⟨hw, fun hopen ↦ ⟨hmark hopen, fun hfull' ↦ ?_⟩⟩
    by_contra hflag
    exact hfull ⟨Bool.of_not_eq_true hflag, hfull'⟩

theorem levelled_reopened (hw : Counted w)
    (hmark : w.pipe.destroyed = false → kHighWaterMark ≤ w.pipe.pendingBytes →
      w.pipe.streamPaused = true) : Levelled (reopened w) := by
  rw [reopened]
  split_ifs with hroom
  · obtain ⟨hflag, hroom⟩ := hroom
    have hodd : (turns w.log).length % 2 = 1 := hw.turn.mp hflag
    refine ⟨⟨hw.counted, hw.weighed, turns_concat hw.turns rfl (if_neg (by omega)).symm, ?_⟩, ?_⟩
    · rw [length_turns_concat _ rfl]
      exact ⟨fun h ↦ absurd h Bool.false_ne_true, fun h ↦ by omega⟩
    · exact fun _ ↦ ⟨fun h ↦ absurd h Bool.false_ne_true, fun h ↦ absurd h (Nat.not_le.mpr hroom)⟩
  · refine ⟨hw, fun hopen ↦ ⟨fun hflag ↦ ?_, hmark hopen⟩⟩
    by_contra hroom'
    exact hroom ⟨hflag, Nat.not_le.mp hroom'⟩

theorem levelled_ended (hw : Counted w) : Levelled (ended w) := by
  rw [ended.eq_def]
  split
  · next hnone =>
    have hturns : turns (.close :: if w.pipe.onDestroy then [.onDestroy] else []) = [] := by
      split_ifs <;> rfl
    refine ⟨hw.same rfl (turns_append_of_nil hturns _) hw.counted hw.weighed, fun h ↦ ?_⟩
    exact absurd h.symm Bool.false_ne_true
  · next t htcp =>
    refine ⟨hw.same rfl (turns_append_of_nil rfl _) ?_ ?_, fun h ↦ ?_⟩
    · have hcounted := hw.counted
      rwa [queue_of_tcp htcp] at hcounted
    · have hweighed := hw.weighed
      rwa [load, queue_of_tcp htcp] at hweighed
    · exact absurd h.symm Bool.false_ne_true

theorem levelled_move {g : Prop} (hs : Sound w) (hw : Levelled w) (h : Move g w w') :
    Levelled w' := by
  cases h with
  | aside _ hcore hcalls =>
    refine hw.of_core hcore ?_
    exact turns_append_of_nil (turns_of_aside hcalls) _
  | write _ hcore hopen => exact hw.of_core hcore (turns_append_of_nil rfl _)
  | opened _ ht hnone hopen =>
    refine hw.same rfl rfl rfl ?_ id rfl
    rw [queue_of_none hnone, queue_of_tcp rfl, ht.2.2.2]
  | startReading _ htcp hstopped hopen =>
    refine hw.same rfl rfl rfl ?_ id (turns_append_of_nil rfl _)
    exact (turned_of_tcp htcp true).queue
  | stopReading =>
    rcases stopReading_cases w.pipe with hsame | ⟨t, htcp, hstops⟩
    · rwa [hsame]
    · rw [hstops]
      refine hw.same rfl rfl rfl ?_ id rfl
      exact (turned_of_tcp htcp false).queue
  | @push t data htcp hopen =>
    refine levelled_shut (counted_queued hw.toCounted htcp data) fun _ hpaused ↦ ?_
    exact Nat.le_trans ((hw.marked hopen).mp hpaused) (Nat.le_add_right _ _)
  | completed htcp hi =>
    refine levelled_reopened (counted_popped hw.toCounted htcp hi) fun hopen hfull ↦ ?_
    refine (hw.marked hopen).mpr (Nat.le_trans hfull ?_)
    exact Nat.sub_le _ _
  | failed htcp hi hended =>
    refine ⟨counted_popped hw.toCounted htcp hi, fun hopen ↦ ?_⟩
    exact absurd (hopen.symm.trans hended) Bool.false_ne_true
  | broken htcp hi hopen => exact levelled_ended (counted_popped hw.toCounted htcp hi)
  | finished => exact hw.same rfl rfl rfl rfl id rfl
  | ended hopen => exact levelled_ended hw.toCounted
  | closed htcp hclosing hidle =>
    have hended := hs.destroyed_of_closing htcp hclosing
    have hturns : turns (.closed :: if w.pipe.onDestroy then [.onDestroy] else []) = [] := by
      split_ifs <;> rfl
    refine ⟨hw.toCounted.same rfl (turns_append_of_nil hturns _) ?_ ?_, fun hopen ↦ ?_⟩
    · have hcounted := hw.counted
      rw [queue_of_tcp htcp, hidle] at hcounted
      exact hcounted
    · have hweighed := hw.weighed
      rw [load, queue_of_tcp htcp, hidle] at hweighed
      exact hweighed
    · exact absurd (hopen.symm.trans hended) Bool.false_ne_true

end Moves

/-! ## Every run -/

theorem kHighWaterMark_pos : 0 < kHighWaterMark := by decide

theorem levelled_new (armed : Bool) : Levelled (new armed) where
  counted := rfl
  weighed := rfl
  turns := rfl
  turn := ⟨fun h ↦ absurd h Bool.false_ne_true, fun h ↦ absurd h Nat.zero_ne_one⟩
  marked _ :=
    ⟨fun h ↦ absurd h Bool.false_ne_true,
      fun h ↦ absurd h (Nat.not_le.mpr kHighWaterMark_pos)⟩

theorem levelled_step {w : TcpBench} (hw : Sound w ∧ Levelled w) {e : Event} (he : Enabled w e) :
    Sound (step w e) ∧ Levelled (step w e) :=
  Moves.keep (P := fun w ↦ Sound w ∧ Levelled w)
    (fun h hmove ↦ ⟨sound_move h.1 hmove, levelled_move h.1 h.2 hmove⟩) (moves_step hw.1 he) hw

theorem levelled_run (armed : Bool) {es : List Event} (h : Along step Enabled (new armed) es) :
    Levelled (run step (new armed) es) :=
  (invariant_of_along (P := fun w ↦ Sound w ∧ Levelled w) (fun _ _ hw he ↦ levelled_step hw he)
    ⟨sound_new armed, levelled_new armed⟩ h).2

/-- **Flow control is exact.** After any run: `pending_bytes_` and `inflight_writes_` are the length
and the number of the writes in flight; on a pipe that is not destroyed the stream is paused exactly
when `kHighWaterMark` is reached, and then there is a write in flight whose completion can resume
it; and the stream was paused and resumed in turn. -/
theorem watermark_exact (armed : Bool) (es : List Event)
    (h : Along step Enabled (new armed) es) :
    let w := run step (new armed) es
    w.pipe.pendingBytes = w.pipe.queue.flatten.length ∧
      w.pipe.inflightWrites = w.pipe.queue.length ∧
      (w.pipe.destroyed = false →
        (w.pipe.streamPaused = true ↔ kHighWaterMark ≤ w.pipe.pendingBytes) ∧
          (w.pipe.streamPaused = true → w.pipe.queue ≠ [])) ∧
      turns w.log = inTurn (turns w.log).length := by
  intro w
  have hw : Levelled w := levelled_run armed h
  refine ⟨hw.weighed, hw.counted, fun hopen ↦ ⟨hw.marked hopen, fun hpaused hnone ↦ ?_⟩, hw.turns⟩
  have hfull := (hw.marked hopen).mp hpaused
  rw [hw.weighed, load, hnone] at hfull
  exact absurd hfull (Nat.not_le.mpr kHighWaterMark_pos)

/-- Enough to pause the stream. -/
def bulk : Bytes := List.replicate kHighWaterMark 0

/-- The stream is paused; it is resumed, and while it is, delivers a byte and enough to be paused
again. -/
theorem watermark_exact_at :
    let w := run step (new true) [.adopt {} (some {}), .streamData {} bulk,
      .written 0 0 [({}, [1]), ({}, bulk)]]
    w.pipe.inflightWrites = w.pipe.queue.length ∧ w.pipe.queue = [[1], bulk] ∧
      w.pipe.streamPaused = true ∧ turns w.log = [.pause, .resume, .pause] := by
  have hlen : bulk.length = kHighWaterMark := List.length_replicate
  have hbulk : ¬bulk = [] := fun h ↦ by
    rw [h] at hlen
    exact absurd hlen (by decide)
  have h := watermark_exact true [.adopt {} (some {}), .streamData {} bulk,
    .written 0 0 [({}, [1]), ({}, bulk)]] ?_
  · refine ⟨h.2.1, ?_, ?_, ?_⟩ <;>
    simp [run, step, new, adopt, startReading, onStreamData, writeCb, host, eagerHost, deliver,
      call, TcpPipe.Host.modify, told, queue, hbulk, hlen, promote, flushFinished, turns,
      kHighWaterMark]
  · simp [Along, Enabled, Fresh, step, new, adopt, startReading, onStreamData, host, call,
      TcpPipe.Host.modify, told, queue, hbulk, hlen, kHighWaterMark]

end TcpBench

end Holesail
