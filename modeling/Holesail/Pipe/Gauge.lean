import Holesail.Pipe.Queue

/-!
# What a pipe knows of its queue

A pipe counts the writes in flight and their bytes, and it pauses the stream while there are too
many. As long as the pipe is not destroyed its counts are right, and a paused stream has something
in front of it: the write that will resume it.

A world may come back to its pipe, as long as it leaves it in this state. Besides, a pipe is not
told that its stream has closed while the stream is up.

## Main results

* `Host.Gauges`: what a world has to keep, and that then every callback keeps it.
* `Host.Plain.open_onStreamData`, `Host.Plain.open_writeCb`: what goes well leaves the handle open.
-/

namespace Holesail

namespace TcpPipe

/-- The counts are right, and a stream is paused only at the high-water mark. -/
structure Gauged (p : TcpPipe) : Prop where
  count : p.inflightWrites = p.queue.length
  load : p.pendingBytes = p.queue.flatten.length
  paused : p.streamPaused = true → kHighWaterMark ≤ p.pendingBytes
  ne : ∀ d ∈ p.queue, d ≠ []

/-- They are, as long as the pipe is not destroyed. -/
def Metered (p : TcpPipe) : Prop := p.destroyed = false → p.Gauged

variable {p p' : TcpPipe} {t : UvTcp}

theorem metered_of_destroyed (h : p.destroyed = true) : p.Metered :=
  fun h' ↦ absurd (h.symm.trans h') (by decide)

theorem Gauged.queue_ne_nil (h : p.Gauged) (hpaused : p.streamPaused = true) : p.queue ≠ [] := by
  intro hnil
  have hfull := h.paused hpaused
  rw [h.load, hnil] at hfull
  exact absurd hfull (by decide)

/-- `p'` counts what `p` counts, and has the same queue. -/
structure SameGauge (p p' : TcpPipe) : Prop where
  queue : p'.queue = p.queue
  count : p'.inflightWrites = p.inflightWrites
  load : p'.pendingBytes = p.pendingBytes
  paused : p'.streamPaused = p.streamPaused
  closed : p'.streamClosed = p.streamClosed

theorem sameGauge_of_handle (t' : UvTcp) (ht : p.tcp = some t) (hwrites : t'.writes = t.writes) :
    SameGauge p { p with tcp := some t' } := by
  refine ⟨?_, rfl, rfl, rfl, rfl⟩
  rw [queue, queue, ht, Option.map_some, Option.map_some, hwrites]

theorem sameGauge_map (p : TcpPipe) (f : UvTcp → UvTcp) (hwrites : ∀ t, (f t).writes = t.writes) :
    SameGauge p { p with tcp := p.tcp.map f } := by
  refine ⟨?_, rfl, rfl, rfl, rfl⟩
  rw [queue, queue, Option.map_map]
  exact congrArg (fun g ↦ (p.tcp.map g).getD []) (funext hwrites)

theorem Turned.sameGauge (h : Turned p p') : SameGauge p p' := by
  have hqueue := h.queue
  obtain ⟨f, reading, -, rfl⟩ := h
  exact ⟨hqueue, rfl, rfl, rfl, rfl⟩

theorem Gauged.same (h : p.Gauged) (hsame : SameGauge p p') : p'.Gauged where
  count := by rw [hsame.count, hsame.queue, h.count]
  load := by rw [hsame.load, hsame.queue, h.load]
  paused hpaused := by
    rw [hsame.load]
    exact h.paused (hsame.paused.symm.trans hpaused)
  ne := by
    rw [hsame.queue]
    exact h.ne

theorem Metered.closed (h : p.Metered) : { p with streamClosed := true }.Metered :=
  fun hopen ↦ ⟨(h hopen).count, (h hopen).load, (h hopen).paused, (h hopen).ne⟩

/-- **One more write**, if the stream is not paused below the mark. -/
theorem Gauged.queued (h : p.Gauged) (ht : p.tcp = some t) {data : Bytes} (hne : data ≠ []) :
    (p.queued t data).Gauged where
  count := by
    rw [queue_queued ht, List.length_append]
    exact congrArg (· + 1) h.count
  load := by
    rw [queue_queued ht, List.flatten_append, List.length_append, List.flatten_singleton]
    exact congrArg (· + data.length) h.load
  paused hpaused := Nat.le_trans (h.paused hpaused) (Nat.le_add_right _ _)
  ne d hd := by
    rw [queue_queued ht, List.mem_append, List.mem_singleton] at hd
    rcases hd with hd | rfl
    · exact h.ne d hd
    · exact hne

/-- **One write less**, with the stream resumed below the mark. -/
theorem Gauged.unqueued (h : p.Gauged) {d : Bytes} {q : List Bytes} (hqueue : p.queue = d :: q)
    (paused : Bool)
    (hpaused : paused = true → kHighWaterMark ≤ (p.unqueued t d q).pendingBytes) :
    { p.unqueued t d q with streamPaused := paused }.Gauged where
  count := by
    have hcount := h.count
    rw [hqueue, List.length_cons] at hcount
    change p.inflightWrites - 1 = (q.length : ℤ)
    omega
  load := by
    have hload := h.load
    rw [hqueue, List.flatten_cons, List.length_append] at hload
    change p.pendingBytes - (if d.length < p.pendingBytes then d.length else p.pendingBytes)
      = q.flatten.length
    split_ifs <;> omega
  paused := hpaused
  ne b hb := h.ne b (hqueue ▸ List.mem_cons_of_mem d hb)

/-! ## A world that leaves its pipe metered -/

variable {W : Type}

/-- The world keeps `Q`, which says that its pipe is metered, and whatever else does not depend on
more of the pipe than `stream_closed_`. -/
structure Host.Gauges (h : Host W) (Q : W → Prop) : Prop where
  lawful : h.Lawful
  metered : ∀ {w}, Q w → (h.pipe w).Metered
  setPipe : ∀ {w p}, Q w → p.Metered → p.streamClosed = (h.pipe w).streamClosed →
    Q (h.setPipe p w)
  write : ∀ {w} (data : Bytes) (onDrain : Option Drain), Q w → Q (h.stream.write data onDrain w).2
  pause : ∀ {w}, Q w → Q (h.stream.pause w)
  resume : ∀ {w}, Q w → Q (h.stream.resume w)
  close : ∀ {w}, Q w → Q (h.stream.close w)
  uvClose : ∀ {w} (t : UvTcp), Q w → Q (h.uvClose t w)
  onReady : ∀ {w} (status : ℤ), Q w → Q (h.onReady status w)
  onDestroy : ∀ {w}, Q w → Q (h.onDestroy w)

namespace Host.Gauges

variable {h : Host W} {Q : W → Prop} (hQ : h.Gauges Q) {w : W}

include hQ

theorem modify {f : TcpPipe → TcpPipe} (hf : ∀ p, SameGauge p (f p))
    (hlife : ∀ p, (f p).destroyed = p.destroyed) (hw : Q w) : Q (h.modify f w) :=
  hQ.setPipe hw
    (fun hopen ↦ (hQ.metered hw ((hlife _).symm.trans hopen)).same (hf _)) (hf _).closed

theorem turn {f : TcpPipe → TcpPipe} (hf : ∀ p, Turned p (f p)) (hw : Q w) : Q (h.modify f w) :=
  hQ.modify (fun p ↦ (hf p).sameGauge) (fun p ↦ (hf p).life.1) hw

theorem setPipe_of_destroyed {p : TcpPipe} (hdestroyed : p.destroyed = true)
    (hclosed : p.streamClosed = (h.pipe w).streamClosed) (hw : Q w) : Q (h.setPipe p w) :=
  hQ.setPipe hw (metered_of_destroyed hdestroyed) hclosed

theorem fireOnDestroy (hw : Q w) : Q (TcpPipe.fireOnDestroy h w) := by
  unfold TcpPipe.fireOnDestroy
  split_ifs
  · exact hQ.onDestroy (hQ.modify (fun _ ↦ ⟨rfl, rfl, rfl, rfl, rfl⟩) (fun _ ↦ rfl) hw)
  · exact hw

theorem closeHandle (hw : Q w) : Q (TcpPipe.closeHandle h w) := by
  unfold TcpPipe.closeHandle
  split
  · exact hQ.fireOnDestroy hw
  · next t ht =>
    have hclosing : Q (h.modify (fun p ↦ { p with closing := true }) w) :=
      hQ.modify (fun _ ↦ ⟨rfl, rfl, rfl, rfl, rfl⟩) (fun _ ↦ rfl) hw
    simp only
    split_ifs
    · exact hQ.fireOnDestroy hw
    · exact hQ.fireOnDestroy hclosing
    · have hpipe : h.pipe (h.modify (fun p ↦ { p with closing := true }) w)
          = { h.pipe w with closing := true } := hQ.lawful.pipe_setPipe _ w
      refine hQ.uvClose _ (hQ.setPipe hclosing (fun hopen ↦ ?_) ?_)
      · refine (hQ.metered hclosing hopen).same ?_
        rw [hpipe]
        exact sameGauge_of_handle (p := { h.pipe w with closing := true }) _ ht rfl
      · rfl

theorem destroy_setPipe {p : TcpPipe} (hclosed : p.streamClosed = (h.pipe w).streamClosed)
    (hw : Q w) : Q (TcpPipe.destroy h (h.setPipe p w)) := by
  cases hdestroyed : p.destroyed with
  | true =>
    rw [destroy_of_destroyed h (by rw [hQ.lawful.pipe_setPipe, hdestroyed])]
    exact hQ.setPipe_of_destroyed hdestroyed hclosed hw
  | false =>
    rw [destroy_of_not_destroyed h hQ.lawful (by rw [hQ.lawful.pipe_setPipe, hdestroyed]),
      hQ.lawful.pipe_setPipe, hQ.lawful.setPipe_setPipe]
    have hsame := (turned_stopReading { p with destroyed := true }).sameGauge
    refine hQ.closeHandle (hQ.close (hQ.setPipe_of_destroyed ?_ (hsame.closed.trans hclosed) hw))
    exact (turned_stopReading _).life.1

theorem destroy (hw : Q w) : Q (TcpPipe.destroy h w) := by
  unfold TcpPipe.destroy
  split_ifs
  · exact hw
  · have hmarked : Q (h.modify (fun p ↦ { p with destroyed := true }) w) :=
      hQ.setPipe_of_destroyed rfl rfl hw
    exact hQ.closeHandle (hQ.close (hQ.turn turned_stopReading hmarked))

theorem flushFinished (hw : Q w) : Q (TcpPipe.flushFinished h w) := by
  unfold TcpPipe.flushFinished
  split_ifs
  · exact hw
  · exact hQ.destroy hw

theorem setTcp {t : UvTcp} (ht : t.writes = []) (hnone : (h.pipe w).tcp = none) (hw : Q w) :
    Q (h.modify (fun p ↦ { p with tcp := some t }) w) := by
  refine hQ.setPipe hw (fun hopen ↦ (hQ.metered hw hopen).same ⟨?_, rfl, rfl, rfl, rfl⟩) rfl
  rw [queue, queue, hnone, Option.map_some, ht]
  rfl

theorem connect (uv : Uv) (id : ℕ) (onReady : Bool) (hnone : (h.pipe w).tcp = none) (hw : Q w) :
    Q (TcpPipe.connect h uv id onReady w).2 := by
  have hmade : Q (h.modify (fun p ↦ { p with tcp := some { id := id } }) w) :=
    hQ.setTcp rfl hnone hw
  have hasked : Q (h.modify (fun p ↦ { p with onReady := onReady })
      (h.modify (fun p ↦ { p with tcp := some { id := id } }) w)) :=
    hQ.modify (fun _ ↦ ⟨rfl, rfl, rfl, rfl, rfl⟩) (fun _ ↦ rfl) hmade
  simp only [TcpPipe.connect]
  split_ifs
  · exact hw
  · exact hw
  · exact hQ.destroy hmade
  · exact hQ.destroy hasked
  · exact hQ.modify (f := fun p ↦
      { p with tcp := p.tcp.map fun t ↦ { t with connecting := true } })
      (fun p ↦ sameGauge_map p _ fun _ ↦ rfl) (fun _ ↦ rfl) hasked

theorem startReading (uv : Uv) (hw : Q w) : Q (h.modify (fun p ↦ p.startReading uv) w) :=
  hQ.turn (fun p ↦ turned_startReading p uv) hw

theorem connectCb (uv : Uv) (status : ℤ) (hw : Q w) : Q (TcpPipe.connectCb h uv status w) := by
  have hconnected : Q (h.modify (fun p ↦
      { p with tcp := p.tcp.map fun t ↦ { t with connecting := false } }) w) :=
    hQ.modify (fun p ↦ sameGauge_map p _ fun _ ↦ rfl) (fun _ ↦ rfl) hw
  simp only [TcpPipe.connectCb]
  split_ifs
  · exact hQ.destroy (hQ.onReady status hconnected)
  · exact hQ.destroy hconnected
  · exact hQ.onReady 0 (hQ.startReading uv hconnected)
  · exact hQ.startReading uv hconnected

theorem onDrain (uv : Uv) (len : ℕ) (hw : Q w) : Q (TcpPipe.onDrain h uv len w) := by
  have hacked : Q (h.modify (fun p ↦ p.ack len) w) :=
    hQ.modify (fun _ ↦ ⟨rfl, rfl, rfl, rfl, rfl⟩) (fun _ ↦ rfl) hw
  simp only [TcpPipe.onDrain]
  split_ifs
  · exact hQ.turn (fun p ↦ turned_resumeReading p uv) hacked
  · exact hacked

theorem readCb (nread : Read) (hw : Q w) : Q (TcpPipe.readCb h nread w) := by
  have hstops : ∀ {w}, Q w → Q (h.modify stopReading w) := fun hw ↦
    hQ.turn turned_stopReading hw
  unfold TcpPipe.readCb
  split_ifs
  · exact hw
  cases nread with
  | eof => exact hQ.close (hstops hw)
  | error => exact hQ.destroy hw
  | data bytes =>
    have hcounted : Q (h.modify (fun p ↦
        { p with
          streamPendingBytes := p.streamPendingBytes + bytes.length
          drains := p.drains + 1 }) w) :=
      hQ.modify (fun _ ↦ ⟨rfl, rfl, rfl, rfl, rfl⟩) (fun _ ↦ rfl) hw
    have hwritten := hQ.write bytes (some ⟨(h.pipe w).drains, bytes.length⟩) hcounted
    simp only
    split_ifs
    · exact hw
    · exact hQ.destroy (hQ.modify (f := fun p ↦ p.ack bytes.length)
        (fun _ ↦ ⟨rfl, rfl, rfl, rfl, rfl⟩) (fun _ ↦ rfl) hwritten)
    · exact hstops hwritten
    · exact hwritten

/-- **`on_stream_data`.** At the mark the stream is paused. -/
theorem onStreamData (uv : Uv) (data : Bytes) (hw : Q w) :
    Q (TcpPipe.onStreamData h uv data w) := by
  rw [TcpPipe.onStreamData.eq_def]
  split
  · exact hw
  · next t ht =>
    by_cases hleaving : (h.pipe w).destroyed = true ∨ (h.pipe w).closing = true
    · rw [if_pos hleaving]
      exact hw
    have hgauged := hQ.metered hw (Bool.of_not_eq_true (not_or.mp hleaving).1)
    rw [if_neg hleaving]
    by_cases hempty : data = []
    · rw [if_pos hempty]
      exact hw
    rw [if_neg hempty]
    have hqueued := hgauged.queued ht hempty
    by_cases hrefused : uv.write ≠ 0
    · rw [if_pos hrefused]
      exact hQ.destroy hw
    rw [if_neg hrefused]
    have hset : Q (h.setPipe ((h.pipe w).queued t data) w) :=
      hQ.setPipe hw (fun _ ↦ hqueued) rfl
    have hpipe := hQ.lawful.pipe_setPipe ((h.pipe w).queued t data) w
    change Q (if (h.pipe (h.setPipe ((h.pipe w).queued t data) w)).streamPaused = false ∧
        kHighWaterMark ≤ (h.pipe (h.setPipe ((h.pipe w).queued t data) w)).pendingBytes then
      h.stream.pause (h.modify (fun p ↦ { p with streamPaused := true })
        (h.setPipe ((h.pipe w).queued t data) w))
      else h.setPipe ((h.pipe w).queued t data) w)
    split_ifs with hfull
    · refine hQ.pause (hQ.setPipe hset (fun _ ↦ ?_) rfl)
      rw [hpipe] at hfull ⊢
      exact ⟨hqueued.count, hqueued.load, fun _ ↦ hfull.2, hqueued.ne⟩
    · exact hset

theorem writeCb (status : ℤ) (hw : Q w) : Q (TcpPipe.writeCb h status w) := by
  rw [TcpPipe.writeCb.eq_def]
  split
  · exact hw
  · next t ht =>
    split
    · exact hw
    · next d q hwrites =>
      have hqueue : (h.pipe w).queue = d :: q := by
        rw [queue, ht]
        exact hwrites
      have hpipe := hQ.lawful.pipe_setPipe ((h.pipe w).unqueued t d q) w
      change Q (if status ≠ 0 then TcpPipe.destroy h (h.setPipe ((h.pipe w).unqueued t d q) w)
        else TcpPipe.flushFinished h
          (if (h.pipe (h.setPipe ((h.pipe w).unqueued t d q) w)).streamPaused = true ∧
              (h.pipe (h.setPipe ((h.pipe w).unqueued t d q) w)).pendingBytes < kHighWaterMark then
            h.stream.resume (h.setPipe
              { h.pipe (h.setPipe ((h.pipe w).unqueued t d q) w) with streamPaused := false }
              (h.setPipe ((h.pipe w).unqueued t d q) w))
          else h.setPipe ((h.pipe w).unqueued t d q) w))
      rw [hpipe, hQ.lawful.setPipe_setPipe]
      split_ifs with hstatus hlow
      · exact hQ.destroy_setPipe rfl hw
      · refine hQ.flushFinished (hQ.resume (hQ.setPipe hw (fun hopen ↦ ?_) rfl))
        exact (hQ.metered hw hopen).unqueued hqueue false fun hpaused ↦ Bool.noConfusion hpaused
      · refine hQ.flushFinished (hQ.setPipe hw (fun hopen ↦ ?_) rfl)
        refine (hQ.metered hw hopen).unqueued hqueue (h.pipe w).streamPaused
          fun hpaused ↦ ?_
        exact Nat.not_lt.mp fun hless ↦ hlow ⟨hpaused, hless⟩

/-- **`on_stream_close`**, in a world that has seen it coming. -/
theorem onStreamClose (hw : Q w)
    (hclosed : Q (h.modify (fun p ↦ { p with streamClosed := true }) w)) :
    Q (TcpPipe.onStreamClose h w) := by
  unfold TcpPipe.onStreamClose
  split_ifs
  · exact hw
  · exact hQ.flushFinished hclosed

/-- **`closed_cb`**, of a pipe that is destroyed. -/
theorem closedCb (hdestroyed : (h.pipe w).destroyed = true) (hw : Q w) :
    Q (TcpPipe.closedCb h w) :=
  hQ.fireOnDestroy (hQ.setPipe_of_destroyed hdestroyed rfl hw)

end Host.Gauges

/-! ## What goes well -/

section Well

variable {h : Host W} (hh : h.Plain) {w : W}

include hh

theorem Host.Plain.open_onStreamData {uv : Uv} (huv : uv.write = 0) (data : Bytes)
    (hopen : (h.pipe w).Open) : (h.pipe (onStreamData h uv data w)).Open := by
  obtain ⟨t, ht, hclosing⟩ := hopen
  have hqueued : (h.pipe (h.setPipe ((h.pipe w).queued t data) w)).Open := by
    rw [hh.pipe_setPipe]
    exact ⟨_, rfl, hclosing⟩
  rw [TcpPipe.onStreamData.eq_def, Option.mem_def.mp ht]
  dsimp only
  rw [if_neg (not_not.mpr huv)]
  split_ifs
  · exact ⟨t, ht, hclosing⟩
  · exact ⟨t, ht, hclosing⟩
  · rw [hh.pipe_pause, hh.pipe_modify]
    exact hqueued
  · exact hqueued

/-- A write that completes leaves the handle open, unless the stream has closed. -/
theorem Host.Plain.open_writeCb (hup : (h.pipe w).streamClosed = false) (hopen : (h.pipe w).Open) :
    (h.pipe (writeCb h 0 w)).Open := by
  have hflushed : ∀ {w : W}, (h.pipe w).streamClosed = false → flushFinished h w = w :=
    fun hup ↦ if_pos (Or.inl hup)
  obtain ⟨t, ht, hclosing⟩ := hopen
  rw [TcpPipe.writeCb.eq_def, Option.mem_def.mp ht]
  dsimp only
  split
  · exact ⟨t, ht, hclosing⟩
  · next d q hwrites =>
    have hpipe := hh.pipe_setPipe ((h.pipe w).unqueued t d q) w
    rw [if_neg (not_not.mpr rfl)]
    change (h.pipe (flushFinished h
      (if (h.pipe (h.setPipe ((h.pipe w).unqueued t d q) w)).streamPaused = true ∧
          (h.pipe (h.setPipe ((h.pipe w).unqueued t d q) w)).pendingBytes < kHighWaterMark then
        h.stream.resume (h.modify (fun p ↦ { p with streamPaused := false })
          (h.setPipe ((h.pipe w).unqueued t d q) w))
      else h.setPipe ((h.pipe w).unqueued t d q) w))).Open
    split_ifs
    · rw [hflushed, hh.pipe_resume, hh.pipe_modify, hpipe]
      · exact ⟨_, rfl, hclosing⟩
      · rw [hh.pipe_resume, hh.pipe_modify, hpipe]
        exact hup
    · rw [hflushed, hpipe]
      · exact ⟨_, rfl, hclosing⟩
      · rw [hpipe]
        exact hup

end Well

end TcpPipe

end Holesail
