import Holesail.Pipe.TcpPipe

/-!
# The writes in flight

What comes over the stream is queued by `uv_write` until libuv completes it, oldest first. Only
`on_stream_data` adds to the queue of a pipe and only `write_cb` takes from it; and a handle that is
closing is not opened again.

This file says so for a pipe whose world does not come back to it: whatever the pipe calls leaves
the pipe as it was.
-/

namespace Holesail

namespace TcpPipe

/-- The writes in flight, oldest first. -/
def queue (p : TcpPipe) : List Bytes := (p.tcp.map UvTcp.writes).getD []

theorem queue_of_tcp {p : TcpPipe} {t : UvTcp} (htcp : p.tcp = some t) : p.queue = t.writes := by
  rw [queue, htcp]
  rfl

theorem queue_of_none {p : TcpPipe} (htcp : p.tcp = none) : p.queue = [] := by
  rw [queue, htcp]
  rfl

/-- There is a handle, and it is not closing. -/
def Open (p : TcpPipe) : Prop := ∃ t ∈ p.tcp, t.closing = false

instance (p : TcpPipe) : Decidable p.Open := inferInstanceAs (Decidable (∃ t ∈ p.tcp, _))

/-- Nothing joins or leaves the queue, and no handle opens. -/
structure Rests (p p' : TcpPipe) : Prop where
  queue : p'.queue = p.queue
  opened : p'.Open → p.Open

namespace Rests

variable {p p' p'' : TcpPipe}

theorem refl (p : TcpPipe) : Rests p p := ⟨rfl, id⟩

theorem trans (h : Rests p p') (h' : Rests p' p'') : Rests p p'' :=
  ⟨h'.queue.trans h.queue, h.opened ∘ h'.opened⟩

theorem of_tcp (h : p'.tcp = p.tcp) : Rests p p' := by
  refine ⟨?_, fun hopen ↦ ?_⟩
  · rw [TcpPipe.queue, TcpPipe.queue, h]
  · rwa [Open, ← h]

/-- The handle changes, but neither its writes nor, unless it closes, whether it is closing. -/
theorem of_handle {t t' : UvTcp} (ht : p.tcp = some t) (ht' : p'.tcp = some t')
    (hwrites : t'.writes = t.writes) (hopen : t'.closing = false → t.closing = false) :
    Rests p p' := by
  refine ⟨?_, fun h ↦ ?_⟩
  · rw [TcpPipe.queue, TcpPipe.queue, ht, ht', Option.map_some, Option.map_some, hwrites]
  · obtain ⟨u, hu, hu'⟩ := h
    obtain rfl := Option.some.inj (ht'.symm.trans hu)
    exact ⟨t, ht, hopen hu'⟩

end Rests

theorem rests_map (p : TcpPipe) (f : UvTcp → UvTcp) (hwrites : ∀ t, (f t).writes = t.writes)
    (hclosing : ∀ t, (f t).closing = t.closing) : Rests p { p with tcp := p.tcp.map f } := by
  cases ht : p.tcp with
  | none => exact .of_tcp (by rw [ht]; rfl)
  | some t => exact .of_handle ht rfl (hwrites t) fun h ↦ (hclosing t).symm.trans h

theorem Turned.queue {p p' : TcpPipe} (h : Turned p p') : p'.queue = p.queue :=
  congrArg (Option.getD · []) (h.map (g := UvTcp.writes) fun _ _ _ ↦ rfl)

theorem Turned.rests {p p' : TcpPipe} (h : Turned p p') : Rests p p' := by
  refine ⟨h.queue, ?_⟩
  rintro ⟨t', ht', hopen⟩
  have hclosing := h.map (g := UvTcp.closing) fun _ _ _ ↦ rfl
  rw [ht', Option.map_some, hopen, eq_comm, Option.map_eq_some_iff] at hclosing
  exact hclosing

/-- The pipe with one more write in flight. -/
def queued (p : TcpPipe) (t : UvTcp) (data : Bytes) : TcpPipe :=
  { p with
    tcp := some { t with writes := t.writes ++ [data] }
    inflightWrites := p.inflightWrites + 1
    pendingBytes := p.pendingBytes + data.length }

theorem queue_queued {p : TcpPipe} {t : UvTcp} (ht : p.tcp = some t) (data : Bytes) :
    (p.queued t data).queue = p.queue ++ [data] := by
  rw [queue_of_tcp ht, queue_of_tcp rfl]

/-- The pipe once a write has come off its queue. -/
def unqueued (p : TcpPipe) (t : UvTcp) (d : Bytes) (q : List Bytes) : TcpPipe :=
  { p with
    tcp := some { t with writes := q }
    inflightWrites := p.inflightWrites - 1
    pendingBytes := p.pendingBytes -
      (if d.length < p.pendingBytes then d.length else p.pendingBytes) }

theorem exists_handle_of_queue {p : TcpPipe} {d : Bytes} {q : List Bytes}
    (hqueue : p.queue = d :: q) : ∃ t, p.tcp = some t ∧ t.writes = d :: q := by
  cases ht : p.tcp with
  | none =>
    rw [queue, ht] at hqueue
    exact absurd hqueue.symm (List.cons_ne_nil d q)
  | some t =>
    rw [queue, ht] at hqueue
    exact ⟨t, rfl, hqueue⟩

/-! ## A world that does not come back -/

variable {W : Type}

/-- What the pipe calls leaves the pipe as it was. -/
structure Host.Plain (h : Host W) : Prop where
  pipe_setPipe : ∀ p w, h.pipe (h.setPipe p w) = p
  pipe_write : ∀ data onDrain w, h.pipe (h.stream.write data onDrain w).2 = h.pipe w
  pipe_pause : ∀ w, h.pipe (h.stream.pause w) = h.pipe w
  pipe_resume : ∀ w, h.pipe (h.stream.resume w) = h.pipe w
  pipe_close : ∀ w, h.pipe (h.stream.close w) = h.pipe w
  pipe_uvClose : ∀ t w, h.pipe (h.uvClose t w) = h.pipe w
  pipe_onReady : ∀ status w, h.pipe (h.onReady status w) = h.pipe w
  pipe_onDestroy : ∀ w, h.pipe (h.onDestroy w) = h.pipe w

namespace Host.Plain

variable {h : Host W} (hh : h.Plain)

include hh

theorem pipe_modify (f : TcpPipe → TcpPipe) (w : W) : h.pipe (h.modify f w) = f (h.pipe w) :=
  hh.pipe_setPipe _ w

theorem rests_modify {f : TcpPipe → TcpPipe} {w : W} (hf : Rests (h.pipe w) (f (h.pipe w))) :
    Rests (h.pipe w) (h.pipe (h.modify f w)) := by
  rwa [hh.pipe_modify]

theorem rests_fireOnDestroy (w : W) : Rests (h.pipe w) (h.pipe (fireOnDestroy h w)) := by
  unfold TcpPipe.fireOnDestroy
  split_ifs
  · rw [hh.pipe_onDestroy]
    exact hh.rests_modify (.of_tcp rfl)
  · exact .refl _

theorem rests_closeHandle (w : W) : Rests (h.pipe w) (h.pipe (closeHandle h w)) := by
  unfold TcpPipe.closeHandle
  split
  · exact hh.rests_fireOnDestroy w
  · next t ht =>
    have hclosing : Rests (h.pipe w) (h.pipe (h.modify (fun p ↦ { p with closing := true }) w)) :=
      hh.rests_modify (.of_tcp rfl)
    simp only
    split_ifs
    · exact hh.rests_fireOnDestroy w
    · exact hclosing.trans (hh.rests_fireOnDestroy _)
    · rw [hh.pipe_uvClose]
      refine hclosing.trans (hh.rests_modify ?_)
      rw [hh.pipe_modify]
      exact .of_handle ht rfl rfl fun hopen ↦ Bool.noConfusion hopen

theorem rests_destroy (w : W) : Rests (h.pipe w) (h.pipe (destroy h w)) := by
  unfold TcpPipe.destroy
  split_ifs
  · exact .refl _
  · have hmarked : Rests (h.pipe w) (h.pipe (h.modify (fun p ↦ { p with destroyed := true }) w)) :=
      hh.rests_modify (.of_tcp rfl)
    refine hmarked.trans ((hh.rests_modify (turned_stopReading _).rests).trans ?_)
    have hclosed := hh.rests_closeHandle (h.stream.close (h.modify stopReading
      (h.modify (fun p ↦ { p with destroyed := true }) w)))
    rwa [hh.pipe_close] at hclosed

theorem rests_flushFinished (w : W) : Rests (h.pipe w) (h.pipe (flushFinished h w)) := by
  unfold TcpPipe.flushFinished
  split_ifs
  · exact .refl _
  · exact hh.rests_destroy w

theorem rests_onDrain (uv : Uv) (len : ℕ) (w : W) :
    Rests (h.pipe w) (h.pipe (onDrain h uv len w)) := by
  have hacked : Rests (h.pipe w) (h.pipe (h.modify (fun p ↦ p.ack len) w)) :=
    hh.rests_modify (.of_tcp rfl)
  simp only [TcpPipe.onDrain]
  split_ifs
  · exact hacked.trans (hh.rests_modify (turned_resumeReading _ uv).rests)
  · exact hacked

theorem queue_connect (uv : Uv) (id : ℕ) (onReady : Bool) {w : W}
    (hnothing : (h.pipe w).queue = []) : (h.pipe (connect h uv id onReady w).2).queue = [] := by
  have hmade : (h.pipe (h.modify (fun p ↦ { p with tcp := some { id := id } }) w)).queue = [] := by
    rw [hh.pipe_modify]
    rfl
  have hasked : (h.pipe (h.modify (fun p ↦ { p with onReady := onReady })
      (h.modify (fun p ↦ { p with tcp := some { id := id } }) w))).queue = [] := by
    rw [hh.pipe_modify]
    exact hmade
  simp only [TcpPipe.connect]
  split_ifs
  · exact hnothing
  · exact hnothing
  · rw [(hh.rests_destroy _).queue, hmade]
  · exact (hh.rests_destroy _).queue.trans hasked
  · refine Eq.trans (Rests.queue ?_) hasked
    exact hh.rests_modify (f := fun p ↦
      { p with tcp := p.tcp.map fun t ↦ { t with connecting := true } })
      (rests_map _ _ (fun _ ↦ rfl) fun _ ↦ rfl)

theorem rests_connectCb (uv : Uv) (status : ℤ) (w : W) :
    Rests (h.pipe w) (h.pipe (connectCb h uv status w)) := by
  have hconnected : Rests (h.pipe w) (h.pipe (h.modify (fun p ↦
      { p with tcp := p.tcp.map fun t ↦ { t with connecting := false } }) w)) :=
    hh.rests_modify (rests_map _ _ (fun _ ↦ rfl) fun _ ↦ rfl)
  have hready : ∀ (status : ℤ) (w : W), Rests (h.pipe w) (h.pipe (h.onReady status w)) := by
    intro status w
    rw [hh.pipe_onReady]
    exact .refl _
  simp only [TcpPipe.connectCb]
  split_ifs
  · exact hconnected.trans ((hready status _).trans (hh.rests_destroy _))
  · exact hconnected.trans (hh.rests_destroy _)
  · refine hconnected.trans (Rests.trans ?_ (hready 0 _))
    exact hh.rests_modify (f := fun p ↦ p.startReading uv) (turned_startReading _ uv).rests
  · refine hconnected.trans ?_
    exact hh.rests_modify (f := fun p ↦ p.startReading uv) (turned_startReading _ uv).rests

theorem rests_readCb (nread : Read) (w : W) : Rests (h.pipe w) (h.pipe (readCb h nread w)) := by
  unfold TcpPipe.readCb
  split_ifs
  · exact .refl _
  cases nread with
  | eof =>
    dsimp only
    rw [hh.pipe_close]
    exact hh.rests_modify (turned_stopReading _).rests
  | error => exact hh.rests_destroy w
  | data bytes =>
    simp only
    split_ifs
    · exact .refl _
    all_goals
      have hwritten : Rests (h.pipe w) (h.pipe (h.stream.write bytes
          (some ⟨(h.pipe w).drains, bytes.length⟩) (h.modify (fun p ↦ { p with
            streamPendingBytes := p.streamPendingBytes + bytes.length
            drains := p.drains + 1 }) w)).2) := by
        rw [hh.pipe_write]
        exact hh.rests_modify (.of_tcp rfl)
      refine hwritten.trans ?_
    · exact (hh.rests_modify (.of_tcp rfl)).trans (hh.rests_destroy _)
    · exact hh.rests_modify (turned_stopReading _).rests
    · exact .refl _

theorem rests_onStreamClose (w : W) : Rests (h.pipe w) (h.pipe (onStreamClose h w)) := by
  unfold TcpPipe.onStreamClose
  split_ifs
  · exact .refl _
  · exact (hh.rests_modify (.of_tcp rfl)).trans (hh.rests_flushFinished _)

/-! ### Destroying a pipe -/

theorem not_open_fireOnDestroy {w : W} (hclosed : ¬(h.pipe w).Open) :
    ¬(h.pipe (fireOnDestroy h w)).Open := mt (hh.rests_fireOnDestroy w).opened hclosed

theorem not_open_closeHandle {w : W} (hclosing : (h.pipe w).closing = false) :
    ¬(h.pipe (closeHandle h w)).Open := by
  unfold TcpPipe.closeHandle
  split
  · next hnone =>
    refine hh.not_open_fireOnDestroy ?_
    rintro ⟨t, ht, -⟩
    exact absurd (hnone.symm.trans ht) (Option.some_ne_none t).symm
  · next t ht =>
    rw [if_neg (by rw [hclosing]; decide)]
    dsimp only
    split_ifs with hleaving
    · refine hh.not_open_fireOnDestroy ?_
      rw [hh.pipe_modify]
      rintro ⟨u, hu, hopen⟩
      obtain rfl := Option.some.inj (ht.symm.trans hu)
      exact absurd (hleaving.symm.trans hopen) (by decide)
    · rw [hh.pipe_uvClose, hh.pipe_modify]
      rintro ⟨u, hu, hopen⟩
      obtain rfl := Option.some.inj hu
      exact Bool.noConfusion hopen

theorem not_open_destroy {w : W} (hlive : SameLife (h.pipe w) {}) :
    ¬(h.pipe (destroy h w)).Open := by
  have hdestroyed : ¬(h.pipe w).destroyed = true := by rw [← hlive.1]; decide
  rw [TcpPipe.destroy, if_neg hdestroyed]
  refine hh.not_open_closeHandle ?_
  rw [hh.pipe_close, hh.pipe_modify, (turned_stopReading _).life.2, hh.pipe_modify]
  exact hlive.2.symm

theorem destroyed_fireOnDestroy (w : W) :
    (h.pipe (fireOnDestroy h w)).destroyed = (h.pipe w).destroyed := by
  unfold TcpPipe.fireOnDestroy
  split_ifs
  · rw [hh.pipe_onDestroy, hh.pipe_modify]
  · rfl

theorem destroyed_closeHandle (w : W) :
    (h.pipe (closeHandle h w)).destroyed = (h.pipe w).destroyed := by
  unfold TcpPipe.closeHandle
  split
  · exact hh.destroyed_fireOnDestroy w
  · simp only
    split_ifs
    · exact hh.destroyed_fireOnDestroy w
    · rw [hh.destroyed_fireOnDestroy, hh.pipe_modify]
    · rw [hh.pipe_uvClose, hh.pipe_modify, hh.pipe_modify]

theorem destroyed_destroy (w : W) : (h.pipe (destroy h w)).destroyed = true := by
  unfold TcpPipe.destroy
  split_ifs with hdestroyed
  · exact hdestroyed
  · rw [hh.destroyed_closeHandle, hh.pipe_close, hh.pipe_modify, (turned_stopReading _).life.1,
      hh.pipe_modify]

/-! ### The two that do not let the queue rest -/

/-- **`on_stream_data`** queues the chunk, leaves it be, or destroys the pipe. -/
theorem onStreamData_cases (uv : Uv) (data : Bytes) (w : W) :
    (h.pipe (onStreamData h uv data w)).queue = (h.pipe w).queue ++ [data] ∨
      (onStreamData h uv data w = w ∧ ((h.pipe w).tcp = none ∨ (h.pipe w).destroyed = true ∨
        (h.pipe w).closing = true ∨ data = [])) ∨
      onStreamData h uv data w = destroy h w := by
  rw [TcpPipe.onStreamData.eq_def]
  split
  · next hnone => exact Or.inr (Or.inl ⟨rfl, Or.inl hnone⟩)
  · next t ht =>
    have hqueued : (h.pipe (h.modify (fun p ↦
        { p with
          tcp := some { t with writes := t.writes ++ [data] }
          inflightWrites := p.inflightWrites + 1
          pendingBytes := p.pendingBytes + data.length }) w)).queue
        = (h.pipe w).queue ++ [data] := by
      rw [hh.pipe_modify, queue, queue, ht]
      rfl
    simp only
    split_ifs with hleaving hempty hrefused
    · exact Or.inr (Or.inl ⟨rfl, Or.inr (hleaving.imp_right Or.inl)⟩)
    · exact Or.inr (Or.inl ⟨rfl, Or.inr (Or.inr (Or.inr hempty))⟩)
    · exact Or.inr (Or.inr rfl)
    · left
      rw [hh.pipe_pause, hh.pipe_modify]
      exact hqueued
    · exact Or.inl hqueued

theorem opened_onStreamData (uv : Uv) (data : Bytes) (w : W)
    (hopen : (h.pipe (onStreamData h uv data w)).Open) : (h.pipe w).Open := by
  rw [TcpPipe.onStreamData.eq_def] at hopen
  split at hopen
  · exact hopen
  · next t ht =>
    have hqueued : (h.pipe (h.modify (fun p ↦
        { p with
          tcp := some { t with writes := t.writes ++ [data] }
          inflightWrites := p.inflightWrites + 1
          pendingBytes := p.pendingBytes + data.length }) w)).Open → (h.pipe w).Open := by
      rw [hh.pipe_modify]
      rintro ⟨u, hu, hu'⟩
      obtain rfl := Option.some.inj hu
      exact ⟨t, ht, hu'⟩
    simp only at hopen
    split_ifs at hopen
    · exact hopen
    · exact hopen
    · exact (hh.rests_destroy w).opened hopen
    · rw [hh.pipe_pause, hh.pipe_modify] at hopen
      exact hqueued hopen
    · exact hqueued hopen

/-- **`write_cb`** takes the oldest write off the queue; and a write that failed destroys the
pipe. -/
theorem writeCb_queue (status : ℤ) {d : Bytes} {q : List Bytes} {w : W}
    (hqueue : (h.pipe w).queue = d :: q) :
    (h.pipe (writeCb h status w)).queue = q ∧
      ((h.pipe (writeCb h status w)).Open → (h.pipe w).Open) ∧
      (SameLife (h.pipe w) {} → status ≠ 0 → ¬(h.pipe (writeCb h status w)).Open) := by
  obtain ⟨t, ht, hwrites⟩ := exists_handle_of_queue hqueue
  have heq : writeCb h status w =
      if status ≠ 0 then destroy h (h.setPipe (unqueued (h.pipe w) t d q) w)
      else flushFinished h
        (if (h.pipe (h.setPipe (unqueued (h.pipe w) t d q) w)).streamPaused = true ∧
            (h.pipe (h.setPipe (unqueued (h.pipe w) t d q) w)).pendingBytes < kHighWaterMark then
          h.stream.resume (h.modify (fun p ↦ { p with streamPaused := false })
            (h.setPipe (unqueued (h.pipe w) t d q) w))
        else h.setPipe (unqueued (h.pipe w) t d q) w) := by
    rw [TcpPipe.writeCb.eq_def, ht]
    dsimp only
    rw [hwrites]
    rfl
  have hpopped : Rests (unqueued (h.pipe w) t d q)
      (h.pipe (h.setPipe (unqueued (h.pipe w) t d q) w)) := by
    rw [hh.pipe_setPipe]
    exact .refl _
  -- What follows leaves the rest of the queue alone.
  have hrest : Rests (unqueued (h.pipe w) t d q) (h.pipe (writeCb h status w)) := by
    rw [heq]
    split_ifs
    · exact hpopped.trans (hh.rests_destroy _)
    · refine hpopped.trans (Rests.trans ?_ (hh.rests_flushFinished _))
      rw [hh.pipe_resume]
      exact hh.rests_modify (f := fun p ↦ { p with streamPaused := false }) (.of_tcp rfl)
    · exact hpopped.trans (hh.rests_flushFinished _)
  refine ⟨hrest.queue, fun hopen ↦ ?_, fun hlive hstatus ↦ ?_⟩
  · obtain ⟨u, hu, hu'⟩ := hrest.opened hopen
    obtain rfl := Option.some.inj hu
    exact ⟨t, ht, hu'⟩
  · rw [heq, if_pos hstatus]
    refine hh.not_open_destroy ?_
    rw [hh.pipe_setPipe]
    exact hlive

end Host.Plain

end TcpPipe

end Holesail
