import Holesail.Pipe.TcpPipe
import Holesail.Theory.Run
import Mathlib.Algebra.BigOperators.Group.List.Basic
import Mathlib.Algebra.GroupWithZero.Nat

/-!
# Flow control toward the stream

`read_cb` counts what it hands to the stream in `stream_pending_bytes_`, the `on_drain` closures
count it back, and the local socket is read only while the count is below `kStreamHighWaterMark`.
Here the pipe is put on a stream of which nothing is known but that it accepts every write, and
that it calls each `on_drain` at most once: in any order, at any time, and also before the write
that it belongs to has returned.

The world remembers what no party can see: the `on_drain`s not called yet, the largest count there
ever was, and whether the clamped subtraction of an `on_drain` ever clamped.

## Main result

`flow_control_exact`: after every run the count is exact, and the socket is read exactly when there
is room in the window.
-/

namespace Holesail

namespace FlowControl

open Run TcpPipe

variable {σ : Type}

/-! ## The pipe and its stream -/

/-- The size of `scratch_`, and so the most that one read can bring. -/
def kScratchSize : ℕ := 64 * 1024

/-- What a stream whose state is a `σ` does when it is called: which `on_drain`s it calls, and for a
write what it returns, which is not negative. -/
structure Stream (σ : Type) where
  write : Bytes → Option Drain → σ → ℕ × List Drain × σ
  pause : σ → List Drain × σ
  resume : σ → List Drain × σ
  close : σ → List Drain × σ

structure World (σ : Type) where
  pipe : TcpPipe := {}
  peer : σ
  /-- The `on_drain`s of the accepted writes that were not called yet. -/
  outstanding : List Drain := []
  /-- The local end of file was read. -/
  eof : Bool := false
  /-- The most bytes there ever were in `stream_pending_bytes_`. -/
  peak : ℕ := 0
  /-- An `on_drain` had more to subtract than there was. -/
  clamped : Bool := false

def apart : TcpPipe.Host (World σ) where
  pipe := World.pipe
  setPipe := fun p w ↦ { w with pipe := p }
  stream :=
    { write := fun _ _ w ↦ (0, w)
      pause := id
      resume := id
      close := id }
  uvClose := fun _ w ↦ w
  onReady := fun _ w ↦ w
  onDestroy := id

/-- The stream calls an `on_drain`. It has at most one call for each accepted write. -/
def drain (w : World σ) (d : Drain) : World σ :=
  if d ∈ w.outstanding then
    onDrain apart {} d.len
      { w with
        outstanding := w.outstanding.erase d
        clamped := w.clamped || decide (w.pipe.streamPendingBytes < d.len) }
  else w

/-- The stream calls `on_drain`s in turn. -/
def fire (w : World σ) (ds : List Drain) : World σ := ds.foldl drain w

/-- A call that only moves the stream. -/
def call (f : σ → List Drain × σ) (w : World σ) : World σ :=
  fire { w with peer := (f w.peer).2 } (f w.peer).1

def side (s : Stream σ) : StreamSide (World σ) where
  write := fun data onDrain w ↦
    let (rc, ds, peer) := s.write data onDrain w.peer
    let w := { w with
      peer := peer
      outstanding := w.outstanding ++ onDrain.toList
      peak := max w.peak w.pipe.streamPendingBytes }
    (rc, fire w ds)
  pause := call s.pause
  resume := call s.resume
  close := call s.close

def host (s : Stream σ) : TcpPipe.Host (World σ) := { apart with stream := side s }

theorem lawful_host (s : Stream σ) : (host s).Lawful := ⟨fun _ _ ↦ rfl, fun _ _ _ ↦ rfl⟩

/-! ## The machine -/

inductive Event where
  | connect (uv : Uv) (id : ℕ) (onReady : Bool)
  | adopt (uv : Uv) (accepted : UvTcp)
  /-- The local connect completes. -/
  | connected (uv : Uv) (status : ℤ)
  | read (nread : Read)
  /-- The stream calls an `on_drain`. -/
  | drained (d : Drain)
  /-- The oldest local write completes. -/
  | written (status : ℤ)
  /-- The local handle has closed. -/
  | closed
  | streamData (uv : Uv) (data : Bytes)
  | streamClose
  | destroy

def step (s : Stream σ) (w : World σ) : Event → World σ
  | .connect uv id onReady => (connect (host s) uv id onReady w).2
  | .adopt uv accepted => (adopt (host s) uv (some accepted) w).2
  | .connected uv status => connectCb (host s) uv status w
  | .read nread => readCb (host s) nread { w with eof := w.eof || decide (nread = .eof) }
  | .drained d => drain w d
  | .written status => writeCb (host s) status w
  | .closed => closedCb (host s) w
  | .streamData uv data => onStreamData (host s) uv data w
  | .streamClose => onStreamClose (host s) w
  | .destroy => destroy (host s) w

/-- When an event can happen: a pipe is connected or adopted once, and libuv reads from a handle
that was told to read. `uv_read_start` succeeds. -/
def Enabled (w : World σ) : Event → Prop
  | .connect _ _ _ => w.pipe.tcp = none
  | .adopt uv accepted => w.pipe.tcp = none ∧ uv.readStart = 0 ∧ accepted.reading = false ∧
      accepted.connecting = false ∧ accepted.closing = false
  | .connected uv status => uv.readStart = 0 ∧
      ∃ t ∈ w.pipe.tcp, t.connecting = true ∧ (t.closing = true → status ≠ 0)
  | .read nread => (∃ t ∈ w.pipe.tcp, t.reading = true ∧ t.closing = false) ∧
      ∀ bytes, nread = .data bytes → bytes.length ≤ kScratchSize
  | .drained d => d ∈ w.outstanding
  | .written _ => ∃ t ∈ w.pipe.tcp, t.writes ≠ []
  | .closed => ∃ t ∈ w.pipe.tcp, t.closing = true ∧ t.writes = [] ∧ t.connecting = false
  | .streamData _ _ => True
  | .streamClose => True
  | .destroy => True

/-! ## What is kept -/

/-- The bytes of accepted writes. -/
def total (ds : List Drain) : ℕ := (ds.map Drain.len).sum

/-- The pipe was connected or adopted. -/
def Connected (p : TcpPipe) : Prop := p.tcp.map UvTcp.connecting = some false

/-- `reading_` is what libuv was told. -/
def Synced (p : TcpPipe) : Prop := p.reading = (p.tcp.map UvTcp.reading).getD false

/-- The pipe is connected or adopted, not destroyed, and has not seen the end of file. -/
def Running (w : World σ) : Prop :=
  Connected w.pipe ∧ w.pipe.destroyed = false ∧ w.eof = false

/-- The count is right, and `reading_` is. -/
structure Books (w : World σ) : Prop where
  ledger : w.pipe.streamPendingBytes = total w.outstanding
  unclamped : w.clamped = false
  pending_le_peak : w.pipe.streamPendingBytes ≤ w.peak
  peak_le : w.peak ≤ kStreamHighWaterMark - 1 + kScratchSize
  synced : Synced w.pipe

/-- What holds whenever the stream is called. -/
structure Counted (w : World σ) : Prop extends Books w where
  /-- Nothing is read before the pipe is connected. -/
  idle : w.pipe.destroyed = false → ¬Connected w.pipe →
    w.outstanding = [] ∧ w.pipe.reading = false
  /-- With room in the window, the pipe reads. -/
  awake : Running w → w.pipe.streamPendingBytes < kStreamHighWaterMark → w.pipe.reading = true
  /-- A destroyed pipe reads no more. -/
  ended : w.pipe.destroyed = true → w.pipe.reading = false
  /-- Only a destroyed pipe closes its handle. -/
  closed : ∀ id, w.pipe.bond = some (id, true) → w.pipe.destroyed = true

/-- What holds between callbacks. -/
structure Flowing (w : World σ) : Prop extends Counted w where
  /-- The pipe reads only with room in the window. -/
  room : w.pipe.reading = true → w.pipe.streamPendingBytes < kStreamHighWaterMark

/-! ## Starting and stopping -/

section Reading

variable {p : TcpPipe} {uv : Uv}

theorem startReading_of_reading (hreading : p.reading = true) : p.startReading uv = p := by
  rcases p.startReading_cases uv with hsame | ⟨t, -, hstopped, -⟩
  · exact hsame
  · exact absurd (hstopped.symm.trans hreading) Bool.false_ne_true

theorem reading_startReading (huv : uv.readStart = 0) (hp : Connected p)
    (hdestroyed : p.destroyed = false) : (p.startReading uv).reading = true := by
  obtain ⟨t, htcp, -⟩ := Option.map_eq_some_iff.mp hp
  by_cases hreading : p.reading = true
  · rw [startReading_of_reading hreading, hreading]
  · rw [startReading_of_stopped huv htcp (Bool.of_not_eq_true hreading) hdestroyed]

theorem synced_startReading (hp : Synced p) : Synced (p.startReading uv) := by
  rcases p.startReading_cases uv with hsame | ⟨t, -, -, -, hstarts⟩
  · rwa [hsame]
  · rw [hstarts]
    rfl

theorem connected_of_turned {p' : TcpPipe} (h : p.Turned p') : Connected p' ↔ Connected p := by
  rw [Connected, Connected, h.map fun _ _ _ ↦ rfl]

theorem synced_stopReading (hp : Synced p) : Synced p.stopReading := by
  rcases p.stopReading_cases with hsame | ⟨t, -, hstops⟩
  · rwa [hsame]
  · rw [hstops]
    rfl

theorem reading_stopReading (hp : Synced p) : p.stopReading.reading = false := by
  rw [stopReading]
  split
  · next htcp => rw [hp, htcp]; rfl
  · split_ifs with hreading
    · rfl
    · exact Bool.of_not_eq_true hreading

end Reading

/-! ## An `on_drain` -/

/-- What is left of an `on_drain` once the bytes are subtracted. -/
def settle (p : TcpPipe) : TcpPipe :=
  if p.streamPendingBytes < kStreamHighWaterMark then p.resumeReading {} else p

theorem drain_of_mem {w : World σ} {d : Drain} (hd : d ∈ w.outstanding) :
    drain w d = { w with
      outstanding := w.outstanding.erase d
      clamped := w.clamped || decide (w.pipe.streamPendingBytes < d.len)
      pipe := settle (w.pipe.ack d.len) } := by
  rw [drain, if_pos hd, onDrain, settle]
  simp only [Host.modify, apart]
  split_ifs with hroom
  · exact if_pos hroom
  · exact if_neg hroom

theorem settle_of_destroyed {p : TcpPipe} (h : p.destroyed = true) : settle p = p := by
  rw [settle, resumeReading, if_pos h, ite_self]

@[simp] theorem streamPendingBytes_settle (p : TcpPipe) :
    (settle p).streamPendingBytes = p.streamPendingBytes := by
  rw [settle, resumeReading]
  split_ifs
  · rfl
  · exact (p.turned_startReading {}).streamPendingBytes
  · rfl

@[simp] theorem destroyed_settle (p : TcpPipe) : (settle p).destroyed = p.destroyed := by
  rw [settle]
  split_ifs
  · exact (p.turned_resumeReading {}).life.1
  · rfl

@[simp] theorem bond_settle (p : TcpPipe) : (settle p).bond = p.bond := by
  rw [settle]
  split_ifs
  · exact (p.turned_resumeReading {}).sameBond.bond
  · rfl

theorem connected_settle {p : TcpPipe} : Connected (settle p) ↔ Connected p := by
  rw [settle, resumeReading]
  split_ifs
  · rfl
  · exact connected_of_turned (p.turned_startReading {})
  · rfl

theorem synced_settle {p : TcpPipe} (hp : Synced p) : Synced (settle p) := by
  rw [settle, resumeReading]
  split_ifs
  · exact hp
  · exact synced_startReading hp
  · exact hp

theorem add_total_erase {ds : List Drain} {d : Drain} (hd : d ∈ ds) :
    d.len + total (ds.erase d) = total ds := List.sum_map_erase Drain.len hd

theorem Books.len_le {w : World σ} (hw : Books w) {d : Drain} (hd : d ∈ w.outstanding) :
    d.len ≤ w.pipe.streamPendingBytes := by
  rw [hw.ledger, ← add_total_erase hd]
  exact Nat.le_add_right _ _

theorem streamPendingBytes_ack {p : TcpPipe} {len : ℕ} (h : len ≤ p.streamPendingBytes) :
    (p.ack len).streamPendingBytes = p.streamPendingBytes - len := by
  simp only [TcpPipe.ack]
  split_ifs <;> omega

theorem running_drain {w : World σ} {d : Drain} : Running (drain w d) ↔ Running w := by
  by_cases hd : d ∈ w.outstanding
  · simp only [drain_of_mem hd, Running, connected_settle, destroyed_settle]
    rfl
  · rw [drain, if_neg hd]

/-- An outstanding `on_drain` subtracts what was added for it, and never clamps. -/
theorem counted_drain {w : World σ} (hw : Counted w) (d : Drain) : Counted (drain w d) := by
  by_cases hd : d ∈ w.outstanding
  swap
  · rwa [drain, if_neg hd]
  have hlen := hw.len_le hd
  have hacked := streamPendingBytes_ack hlen
  have hrunning : Running (drain w d) → Running w := running_drain.mp
  rw [drain_of_mem hd] at hrunning ⊢
  constructor
  case toBooks =>
    constructor
    · rw [streamPendingBytes_settle, hacked, hw.ledger, ← add_total_erase hd,
        Nat.add_sub_cancel_left]
    · simp only [hw.unclamped, Bool.false_or, decide_eq_false_iff_not, Nat.not_lt, hlen]
    · rw [streamPendingBytes_settle, hacked]
      exact Nat.le_trans (Nat.sub_le _ _) hw.pending_le_peak
    · exact hw.peak_le
    · exact synced_settle hw.synced
  case idle =>
    intro hdestroyed hconnected
    rw [destroyed_settle] at hdestroyed
    -- Without a connection nothing was read, so there is no `on_drain` to be called.
    have hnone := (hw.idle hdestroyed fun h ↦ hconnected (connected_settle.mpr h)).1
    rw [hnone] at hd
    exact absurd hd List.not_mem_nil
  case awake =>
    intro hrun hroom
    -- This is where the pipe starts to read again.
    obtain ⟨hconnected, hdestroyed, -⟩ := hrunning hrun
    rw [streamPendingBytes_settle] at hroom
    rw [settle, if_pos hroom, resumeReading, if_neg (by rw [TcpPipe.ack, hdestroyed]; decide)]
    exact reading_startReading rfl hconnected hdestroyed
  case ended =>
    intro hdestroyed
    rw [destroyed_settle] at hdestroyed
    rw [settle_of_destroyed hdestroyed]
    exact hw.ended hdestroyed
  case closed =>
    intro id hbond
    rw [destroyed_settle]
    exact hw.closed id ((bond_settle (w.pipe.ack d.len)).symm.trans hbond)

theorem flowing_drain {w : World σ} (hw : Flowing w) (d : Drain) : Flowing (drain w d) := by
  refine ⟨counted_drain hw.toCounted d, ?_⟩
  by_cases hd : d ∈ w.outstanding
  swap
  · rw [drain, if_neg hd]
    exact hw.room
  have hacked := streamPendingBytes_ack (hw.len_le hd)
  rw [drain_of_mem hd, streamPendingBytes_settle]
  intro hreading
  by_cases hroom : (w.pipe.ack d.len).streamPendingBytes < kStreamHighWaterMark
  · exact hroom
  · -- No room is left: the pipe is what it was, and was not reading.
    rw [settle, if_neg hroom] at hreading
    have := hw.room hreading
    omega

theorem counted_fire {w : World σ} (hw : Counted w) (ds : List Drain) : Counted (fire w ds) := by
  induction ds generalizing w with
  | nil => exact hw
  | cons d ds ih => exact ih (counted_drain hw d)

theorem flowing_fire {w : World σ} (hw : Flowing w) (ds : List Drain) : Flowing (fire w ds) := by
  induction ds generalizing w with
  | nil => exact hw
  | cons d ds ih => exact ih (flowing_drain hw d)

theorem destroyed_fire {w : World σ} {ds : List Drain} :
    (fire w ds).pipe.destroyed = w.pipe.destroyed := by
  induction ds generalizing w with
  | nil => rfl
  | cons d ds ih =>
    refine ih.trans ?_
    by_cases hd : d ∈ w.outstanding
    · rw [drain_of_mem hd]
      exact destroyed_settle _
    · rw [drain, if_neg hd]

/-! ## Callbacks that do not count

What most callbacks change is neither the count nor whether the pipe reads. -/

/-- `p'` reads when `p` does, and has counted as much. -/
structure SameFlow (p p' : TcpPipe) : Prop where
  pending : p'.streamPendingBytes = p.streamPendingBytes
  reads : p'.reading = p.reading
  destroyed : p'.destroyed = p.destroyed
  reading : p'.tcp.map UvTcp.reading = p.tcp.map UvTcp.reading
  connecting : p'.tcp.map UvTcp.connecting = p.tcp.map UvTcp.connecting
  closing : p'.bond = p.bond ∨ p.destroyed = true

/-- `w'` is `w` as far as flow control goes. -/
structure Alike (w w' : World σ) : Prop where
  pipe : SameFlow w.pipe w'.pipe
  outstanding : w'.outstanding = w.outstanding
  eof : w.eof = true → w'.eof = true
  peak : w'.peak = w.peak
  clamped : w'.clamped = w.clamped

theorem SameFlow.refl (p : TcpPipe) : SameFlow p p := ⟨rfl, rfl, rfl, rfl, rfl, .inl rfl⟩

theorem SameFlow.of_tcp_eq {p p' : TcpPipe} (htcp : p'.tcp = p.tcp)
    (hpending : p'.streamPendingBytes = p.streamPendingBytes) (hreads : p'.reading = p.reading)
    (hdestroyed : p'.destroyed = p.destroyed) : SameFlow p p' := by
  refine ⟨hpending, hreads, hdestroyed, ?_, ?_, .inl ?_⟩ <;> simp only [bond, htcp]

theorem SameFlow.connected {p p' : TcpPipe} (h : SameFlow p p') : Connected p' ↔ Connected p := by
  rw [Connected, Connected, h.connecting]

theorem SameFlow.synced {p p' : TcpPipe} (h : SameFlow p p') (hp : Synced p) : Synced p' := by
  rw [Synced, h.reading, h.reads]
  exact hp

theorem Alike.running {w w' : World σ} (h : Alike w w') (hw : Running w') : Running w := by
  obtain ⟨hconnected, hdestroyed, heof⟩ := hw
  refine ⟨h.pipe.connected.mp hconnected, h.pipe.destroyed.symm.trans hdestroyed, ?_⟩
  refine Bool.of_not_eq_true fun h' ↦ ?_
  exact Bool.false_ne_true (heof.symm.trans (h.eof h'))

theorem Flowing.alike {w w' : World σ} (hw : Flowing w) (h : Alike w w') : Flowing w' := by
  have hp := h.pipe
  constructor
  case room =>
    rw [hp.reads, hp.pending]
    exact hw.room
  constructor
  case toBooks =>
    constructor
    · rw [hp.pending, h.outstanding, hw.ledger]
    · rw [h.clamped, hw.unclamped]
    · rw [hp.pending, h.peak]
      exact hw.pending_le_peak
    · rw [h.peak]
      exact hw.peak_le
    · exact hp.synced hw.synced
  case idle =>
    rw [hp.destroyed, hp.connected, h.outstanding, hp.reads]
    exact hw.idle
  case awake =>
    rw [hp.pending, hp.reads]
    exact fun hrunning ↦ hw.awake (h.running hrunning)
  case ended =>
    rw [hp.destroyed, hp.reads]
    exact hw.ended
  case closed =>
    intro id hbond
    rw [hp.destroyed]
    rcases hp.closing with heq | hdestroyed
    · exact hw.closed id (heq.symm.trans hbond)
    · exact hdestroyed

theorem Flowing.modify {w : World σ} (hw : Flowing w) (s : Stream σ) {f : TcpPipe → TcpPipe}
    (hf : SameFlow w.pipe (f w.pipe)) : Flowing ((host s).modify f w) :=
  hw.alike ⟨hf, rfl, id, rfl, rfl⟩

theorem flowing_call {w : World σ} (hw : Flowing w) (f : σ → List Drain × σ) :
    Flowing (call f w) := by
  have hmoved : Flowing { w with peer := (f w.peer).2 } :=
    hw.alike ⟨.refl _, rfl, id, rfl, rfl⟩
  exact flowing_fire hmoved (f w.peer).1

/-! ## The end of a pipe -/

theorem Books.flowing {w : World σ} (hw : Books w) (hdestroyed : w.pipe.destroyed = true)
    (hreading : w.pipe.reading = false) : Flowing w where
  toBooks := hw
  idle h := absurd (h.symm.trans hdestroyed) Bool.false_ne_true
  awake h := absurd (h.2.1.symm.trans hdestroyed) Bool.false_ne_true
  ended _ := hreading
  closed _ _ := hdestroyed
  room h := absurd (hreading.symm.trans h) Bool.false_ne_true

theorem flowing_fireOnDestroy {w : World σ} (hw : Flowing w) (s : Stream σ) :
    Flowing (fireOnDestroy (host s) w) := by
  rw [fireOnDestroy]
  split_ifs
  · exact hw.modify s (f := fun p ↦ { p with onDestroy := false }) (.of_tcp_eq rfl rfl rfl rfl)
  · exact hw

theorem flowing_closeHandle {w : World σ} (hw : Flowing w) (s : Stream σ)
    (hdestroyed : w.pipe.destroyed = true) : Flowing (closeHandle (host s) w) := by
  rw [closeHandle]
  split
  · exact flowing_fireOnDestroy hw s
  · next t htcp =>
    have htcp' : w.pipe.tcp = some t := htcp
    have hclosing := hw.modify s (f := fun p ↦ { p with closing := true })
      (.of_tcp_eq rfl rfl rfl rfl)
    have hstopped : t.reading = false := by
      have hsynced := hw.synced
      rw [Synced, hw.ended hdestroyed, htcp'] at hsynced
      exact hsynced.symm
    simp only
    split_ifs
    · exact flowing_fireOnDestroy hw s
    · exact flowing_fireOnDestroy hclosing s
    · refine hclosing.modify s (f := fun p ↦
        { p with tcp := some { t with closing := true, reading := false } })
        ⟨rfl, rfl, rfl, ?_, ?_, .inr hdestroyed⟩
      · have hreading := congrArg (Option.map UvTcp.reading) htcp'
        rw [Option.map_some, hstopped] at hreading
        exact hreading.symm
      · exact (congrArg (Option.map UvTcp.connecting) htcp').symm

theorem flowing_destroy {w : World σ} (hw : Books w) (s : Stream σ)
    (hended : w.pipe.destroyed = true → w.pipe.reading = false) :
    Flowing (destroy (host s) w) := by
  by_cases hdestroyed : w.pipe.destroyed = true
  · rw [destroy_of_destroyed (host s) hdestroyed]
    exact hw.flowing hdestroyed (hended hdestroyed)
  · rw [destroy_of_not_destroyed (host s) (lawful_host s) (Bool.of_not_eq_true hdestroyed)]
    have hsynced : Synced { w.pipe with destroyed := true } := hw.synced
    have hturned := turned_stopReading { w.pipe with destroyed := true }
    have hlife := hturned.life
    have hstopped :
        Flowing ((host s).setPipe (stopReading { w.pipe with destroyed := true }) w) := by
      refine Books.flowing ⟨?_, hw.unclamped, ?_, hw.peak_le, synced_stopReading hsynced⟩ hlife.1
        (reading_stopReading hsynced)
      · exact hturned.streamPendingBytes.trans hw.ledger
      · exact Nat.le_trans (Nat.le_of_eq hturned.streamPendingBytes) hw.pending_le_peak
    exact flowing_closeHandle (flowing_call hstopped s.close) s (destroyed_fire.trans hlife.1)

theorem Flowing.destroy {w : World σ} (hw : Flowing w) (s : Stream σ) :
    Flowing (TcpPipe.destroy (host s) w) := flowing_destroy hw.toBooks s hw.ended

theorem flowing_flushFinished {w : World σ} (hw : Flowing w) (s : Stream σ) :
    Flowing (flushFinished (host s) w) := by
  rw [flushFinished]
  split_ifs
  · exact hw
  · exact hw.destroy s

/-! ## Opening a pipe -/

/-- The pipe at an open handle that libuv does not read. -/
structure Opened (w : World σ) : Prop extends Books w where
  reads : w.pipe.reading = false
  closed : ∀ id, w.pipe.bond = some (id, true) → w.pipe.destroyed = true
  fresh : w.pipe.destroyed = false → w.outstanding = []

/-- Before the pipe is connected, its handle may be replaced by another that is not read. -/
theorem Flowing.opened {w : World σ} (hw : Flowing w) (s : Stream σ)
    (hconnected : ¬Connected w.pipe) {f : TcpPipe → TcpPipe}
    (hpending : (f w.pipe).streamPendingBytes = w.pipe.streamPendingBytes)
    (hreads : (f w.pipe).reading = w.pipe.reading)
    (hdestroyed : (f w.pipe).destroyed = w.pipe.destroyed)
    (hhandle : ∀ t, (f w.pipe).tcp = some t → t.reading = false)
    (hbond : ∀ id, (f w.pipe).bond = some (id, true) → w.pipe.destroyed = true) :
    Opened ((host s).modify f w) := by
  have hstopped : w.pipe.reading = false := by
    by_cases h : w.pipe.destroyed = true
    · exact hw.ended h
    · exact (hw.idle (Bool.of_not_eq_true h) hconnected).2
  constructor
  case reads => exact hreads.trans hstopped
  case closed => exact fun id h ↦ hdestroyed.trans (hbond id h)
  case fresh => exact fun h ↦ (hw.idle (hdestroyed.symm.trans h) hconnected).1
  constructor
  · exact hpending.trans hw.ledger
  · exact hw.unclamped
  · exact Nat.le_trans (Nat.le_of_eq hpending) hw.pending_le_peak
  · exact hw.peak_le
  · change (f w.pipe).reading = ((f w.pipe).tcp.map UvTcp.reading).getD false
    rw [hreads, hstopped]
    cases htcp : (f w.pipe).tcp with
    | none => rfl
    | some t => exact (hhandle t htcp).symm

theorem Opened.destroy {w : World σ} (hw : Opened w) (s : Stream σ) :
    Flowing (TcpPipe.destroy (host s) w) := flowing_destroy hw.toBooks s fun _ ↦ hw.reads

theorem Opened.waiting {w : World σ} (hw : Opened w) (hconnected : ¬Connected w.pipe) :
    Flowing w where
  toBooks := hw.toBooks
  idle h _ := ⟨hw.fresh h, hw.reads⟩
  awake h := absurd h.1 hconnected
  ended _ := hw.reads
  closed := hw.closed
  room h := absurd (hw.reads.symm.trans h) Bool.false_ne_true

theorem Opened.startReading {w : World σ} (hw : Opened w) (s : Stream σ) {uv : Uv}
    (huv : uv.readStart = 0) (hconnected : Connected w.pipe) :
    Flowing ((host s).modify (fun p ↦ p.startReading uv) w) := by
  have hturned := w.pipe.turned_startReading uv
  have hlife := hturned.life
  have hbooks : Books ((host s).modify (fun p ↦ p.startReading uv) w) := by
    refine ⟨?_, hw.unclamped, ?_, hw.peak_le, synced_startReading hw.synced⟩
    · exact hturned.streamPendingBytes.trans hw.ledger
    · exact Nat.le_trans (Nat.le_of_eq hturned.streamPendingBytes) hw.pending_le_peak
  by_cases hdestroyed : w.pipe.destroyed = true
  · refine hbooks.flowing (hlife.1.trans hdestroyed) ?_
    exact (congrArg TcpPipe.reading (startReading_of_destroyed hdestroyed)).trans hw.reads
  · have hopen := Bool.of_not_eq_true hdestroyed
    have hreading := reading_startReading huv hconnected hopen
    have hempty : w.pipe.streamPendingBytes = 0 := by rw [hw.ledger, hw.fresh hopen]; rfl
    constructor
    case room =>
      intro _
      exact Nat.lt_of_le_of_lt (Nat.le_of_eq (hturned.streamPendingBytes.trans hempty))
        (by decide)
    constructor
    case toBooks => exact hbooks
    case idle => exact fun _ h ↦ absurd ((connected_of_turned hturned).mpr hconnected) h
    case awake => exact fun _ _ ↦ hreading
    case ended => exact fun h ↦ absurd (hlife.1.symm.trans h) hdestroyed
    case closed =>
      intro id hbond
      exact hlife.1.trans (hw.closed id (hturned.sameBond.bond.symm.trans hbond))

theorem not_connected_of_none {p : TcpPipe} (h : p.tcp = none) : ¬Connected p := by
  rw [Connected, h]
  exact nofun

theorem flowing_connect {w : World σ} (hw : Flowing w) (s : Stream σ) (uv : Uv) (id : ℕ)
    (onReady : Bool) (htcp : w.pipe.tcp = none) : Flowing (connect (host s) uv id onReady w).2 := by
  have hopened := hw.opened s (not_connected_of_none htcp)
    (f := fun p ↦ { p with tcp := some { id := id } }) rfl rfl rfl
    (fun t ht ↦ by cases ht; rfl) (fun i hi ↦ by cases hi)
  have hready := hw.opened s (not_connected_of_none htcp)
    (f := fun p ↦ { p with tcp := some { id := id }, onReady := onReady }) rfl rfl rfl
    (fun t ht ↦ by cases ht; rfl) (fun i hi ↦ by cases hi)
  have hwaiting := hw.opened s (not_connected_of_none htcp)
    (f := fun p ↦ { p with tcp := some { id := id, connecting := true }, onReady := onReady })
    rfl rfl rfl (fun t ht ↦ by cases ht; rfl) (fun i hi ↦ by cases hi)
  simp only [connect]
  split_ifs
  · exact hw
  · exact hw
  · exact hopened.destroy s
  · exact hready.destroy s
  · exact hwaiting.waiting fun h ↦ Bool.false_ne_true (Option.some.inj h).symm

theorem flowing_adopt {w : World σ} (hw : Flowing w) (s : Stream σ) {uv : Uv} {accepted : UvTcp}
    (huv : uv.readStart = 0) (htcp : w.pipe.tcp = none) (hreading : accepted.reading = false)
    (hconnecting : accepted.connecting = false) (hclosing : accepted.closing = false) :
    Flowing (adopt (host s) uv (some accepted) w).2 := by
  have hopened := hw.opened s (not_connected_of_none htcp)
    (f := fun p ↦ { p with tcp := some accepted }) rfl rfl rfl
    (fun t ht ↦ by cases ht; exact hreading) (fun i hi ↦ by
      have hbond := congrArg Prod.snd (Option.some.inj hi)
      exact absurd (hclosing.symm.trans hbond) Bool.false_ne_true)
  rw [adopt]
  split_ifs
  · exact hw
  · exact hopened.startReading s huv (congrArg some hconnecting)

theorem flowing_connectCb {w : World σ} (hw : Flowing w) (s : Stream σ) {uv : Uv} (status : ℤ)
    {t : UvTcp} (huv : uv.readStart = 0) (htcp : w.pipe.tcp = some t)
    (hconnecting : t.connecting = true) : Flowing (connectCb (host s) uv status w) := by
  have hnot : ¬Connected w.pipe := by
    rw [Connected, htcp, Option.map_some, hconnecting]
    exact nofun
  have hopened := hw.opened s hnot
    (f := fun p ↦ { p with tcp := p.tcp.map fun t ↦ { t with connecting := false } })
    rfl rfl rfl ?_ ?_
  · have hconnected : Connected ((host s).modify (fun p ↦
        { p with tcp := p.tcp.map fun t ↦ { t with connecting := false } }) w).pipe := by
      change ((w.pipe.tcp.map fun t ↦ { t with connecting := false }).map _) = _
      rw [htcp]
      rfl
    -- Destroyed meanwhile, failed, or connected, with and without `on_ready` to be called.
    simp only [connectCb]
    split_ifs
    · exact hopened.destroy s
    · exact hopened.destroy s
    · exact hopened.startReading s huv hconnected
    · exact hopened.startReading s huv hconnected
  · intro t' ht'
    obtain ⟨t₀, ht₀, rfl⟩ := Option.map_eq_some_iff.mp ht'
    have hsynced := hw.synced
    rw [Synced, ht₀] at hsynced
    by_cases hdestroyed : w.pipe.destroyed = true
    · exact hsynced.symm.trans (hw.ended hdestroyed)
    · exact hsynced.symm.trans (hw.idle (Bool.of_not_eq_true hdestroyed) hnot).2
  · intro id hid
    refine hw.closed id (Eq.trans ?_ hid)
    rw [bond, bond, htcp]
    rfl

/-! ## Reading -/

/-- A read is counted before the stream sees it, so whatever `on_drain`s the write calls, its own
among them, the count stays right. -/
theorem counted_write {w : World σ} (hw : Flowing w) (s : Stream σ) (bytes : Bytes) {d : Drain}
    (hd : d.len = bytes.length) (hreading : w.pipe.reading = true) (hconnected : Connected w.pipe)
    (hopen : w.pipe.destroyed = false) (hlen : bytes.length ≤ kScratchSize) :
    Counted ((side s).write bytes (some d) ((host s).modify (fun p ↦
      { p with
        streamPendingBytes := p.streamPendingBytes + bytes.length
        drains := p.drains + 1 }) w)).2 := by
  refine counted_fire ?_ _
  have hroom := hw.room hreading
  constructor
  case toBooks =>
    constructor
    · change w.pipe.streamPendingBytes + bytes.length = total (w.outstanding ++ [d])
      rw [hw.ledger, total, total, List.map_append, List.sum_append, List.map_singleton,
        List.sum_singleton, hd]
    · exact hw.unclamped
    · exact Nat.le_max_right _ _
    · refine Nat.max_le.mpr ⟨hw.peak_le, ?_⟩
      exact Nat.add_le_add (Nat.le_sub_one_of_lt hroom) hlen
    · exact hw.synced
  case idle => exact fun _ h ↦ absurd hconnected h
  case awake => exact fun _ _ ↦ hreading
  case ended => exact fun h ↦ absurd (hopen.symm.trans h) Bool.false_ne_true
  case closed => exact hw.closed

theorem Books.stopReading {w : World σ} (hw : Books w) (s : Stream σ) :
    Books ((host s).modify TcpPipe.stopReading w) where
  ledger := w.pipe.turned_stopReading.streamPendingBytes.trans hw.ledger
  unclamped := hw.unclamped
  pending_le_peak :=
    Nat.le_trans (Nat.le_of_eq w.pipe.turned_stopReading.streamPendingBytes) hw.pending_le_peak
  peak_le := hw.peak_le
  synced := synced_stopReading hw.synced

theorem Counted.stopReading {w : World σ} (hw : Counted w) (s : Stream σ)
    (hfull : kStreamHighWaterMark ≤ w.pipe.streamPendingBytes) :
    Flowing ((host s).modify TcpPipe.stopReading w) := by
  have hturned := w.pipe.turned_stopReading
  have hlife := hturned.life
  have hstopped := reading_stopReading hw.synced
  constructor
  case room => exact fun h ↦ absurd (hstopped.symm.trans h) Bool.false_ne_true
  constructor
  case toBooks => exact hw.toBooks.stopReading s
  case idle =>
    intro hopen hnot
    have hidle := hw.idle (hlife.1.symm.trans hopen) fun h ↦
      hnot ((connected_of_turned hturned).mpr h)
    exact ⟨hidle.1,
      hstopped⟩
  case awake =>
    intro _ hroom
    have heq := hturned.streamPendingBytes
    exact absurd (Nat.lt_of_le_of_lt (hfull.trans_eq heq.symm) hroom) (Nat.lt_irrefl _)
  case ended => exact fun _ ↦ hstopped
  case closed =>
    intro id hbond
    exact hlife.1.trans (hw.closed id (hturned.sameBond.bond.symm.trans hbond))

theorem flowing_readCb {w : World σ} (hw : Flowing w) (s : Stream σ) (nread : Read)
    (heof : nread = .eof → w.eof = true) (hreading : w.pipe.reading = true)
    (hlen : ∀ bytes, nread = .data bytes → bytes.length ≤ kScratchSize) :
    Flowing (readCb (host s) nread w) := by
  rw [readCb.eq_def]
  split_ifs with hdestroyed
  · exact hw
  have hopen : w.pipe.destroyed = false := Bool.of_not_eq_true hdestroyed
  -- Only a connected pipe reads.
  have hconnected : Connected w.pipe := by
    by_contra h
    exact Bool.false_ne_true ((hw.idle hopen h).2.symm.trans hreading)
  cases nread with
  | eof =>
    -- The end of file is the one reason to stop with room in the window.
    have hturned := w.pipe.turned_stopReading
    have hlife := hturned.life
    refine flowing_call ?_ s.close
    constructor
    case room =>
      exact fun h ↦ absurd ((reading_stopReading hw.synced).symm.trans h) Bool.false_ne_true
    constructor
    case toBooks => exact hw.toBooks.stopReading s
    case idle => exact fun _ h ↦ absurd ((connected_of_turned hturned).mpr hconnected) h
    case awake => exact fun h ↦ absurd (h.2.2.symm.trans (heof rfl)) Bool.false_ne_true
    case ended => exact fun _ ↦ reading_stopReading hw.synced
    case closed =>
      intro id hbond
      exact hlife.1.trans (hw.closed id (hturned.sameBond.bond.symm.trans hbond))
  | error => exact hw.destroy s
  | data bytes =>
    have hwritten := counted_write hw s bytes (d := ⟨w.pipe.drains, bytes.length⟩) rfl hreading
      hconnected hopen (hlen bytes rfl)
    simp only
    -- The write is never refused here; behind it the window is full or not.
    split_ifs with hnil hneg hfull
    · exact hw
    · exact absurd hneg (Int.not_lt.mpr (Int.natCast_nonneg _))
    · exact hwritten.stopReading s hfull
    · exact ⟨hwritten, fun _ ↦ Nat.lt_of_not_le hfull⟩

/-! ## The other direction -/

theorem flowing_onStreamData {w : World σ} (hw : Flowing w) (s : Stream σ) (uv : Uv)
    (data : Bytes) : Flowing (onStreamData (host s) uv data w) := by
  rw [onStreamData.eq_def]
  split
  · exact hw
  · next t htcp =>
    have htcp' : w.pipe.tcp = some t := htcp
    have hqueued := hw.modify s (f := fun p ↦
      { p with
        tcp := some { t with writes := t.writes ++ [data] }
        inflightWrites := p.inflightWrites + 1
        pendingBytes := p.pendingBytes + data.length })
      (by refine ⟨rfl, rfl, rfl, ?_, ?_, .inl ?_⟩ <;> simp only [bond, htcp', Option.map_some])
    simp only
    split_ifs
    · exact hw
    · exact hw
    · exact hw.destroy s
    · refine flowing_call ?_ s.pause
      exact hqueued.modify s (f := fun p ↦ { p with streamPaused := true })
        (.of_tcp_eq rfl rfl rfl rfl)
    · exact hqueued

theorem flowing_writeCb {w : World σ} (hw : Flowing w) (s : Stream σ) (status : ℤ) :
    Flowing (writeCb (host s) status w) := by
  rw [writeCb.eq_def]
  split
  · exact hw
  · next t htcp =>
    have htcp' : w.pipe.tcp = some t := htcp
    split
    · exact hw
    · next data rest hwrites =>
      have hpopped := hw.modify s (f := fun p ↦
        { p with
          tcp := some { t with writes := rest }
          inflightWrites := p.inflightWrites - 1
          pendingBytes := p.pendingBytes -
            (if data.length < p.pendingBytes then data.length else p.pendingBytes) })
        (by refine ⟨rfl, rfl, rfl, ?_, ?_, .inl ?_⟩ <;> simp only [bond, htcp', Option.map_some])
      simp only
      split_ifs
      · exact hpopped.destroy s
      · refine flowing_flushFinished (flowing_call ?_ s.resume) s
        exact hpopped.modify s (f := fun p ↦ { p with streamPaused := false })
          (.of_tcp_eq rfl rfl rfl rfl)
      · exact flowing_flushFinished hpopped s

theorem flowing_onStreamClose {w : World σ} (hw : Flowing w) (s : Stream σ) :
    Flowing (onStreamClose (host s) w) := by
  rw [onStreamClose]
  split_ifs
  · exact hw
  · refine flowing_flushFinished ?_ s
    exact hw.modify s (f := fun p ↦ { p with streamClosed := true }) (.of_tcp_eq rfl rfl rfl rfl)

theorem flowing_closedCb {w : World σ} (hw : Flowing w) (s : Stream σ)
    (hdestroyed : w.pipe.destroyed = true) : Flowing (closedCb (host s) w) := by
  have hreading := hw.ended hdestroyed
  refine flowing_fireOnDestroy ?_ s
  exact Books.flowing ⟨hw.ledger, hw.unclamped, hw.pending_le_peak, hw.peak_le, hreading⟩ hdestroyed
    hreading

/-! ## Every run -/

theorem flowing_start (x : σ) : Flowing ({ peer := x } : World σ) where
  ledger := rfl
  unclamped := rfl
  pending_le_peak := Nat.le_refl 0
  peak_le := Nat.zero_le _
  synced := rfl
  idle _ _ := ⟨rfl, rfl⟩
  awake h := absurd h.1 nofun
  ended := nofun
  closed := nofun
  room := nofun

theorem flowing_step (s : Stream σ) {w : World σ} {e : Event} (hw : Flowing w) (he : Enabled w e) :
    Flowing (step s w e) := by
  cases e with
  | connect uv id onReady => exact flowing_connect hw s uv id onReady he
  | adopt uv accepted =>
    obtain ⟨htcp, huv, hreading, hconnecting, hclosing⟩ := he
    exact flowing_adopt hw s huv htcp hreading hconnecting hclosing
  | connected uv status =>
    obtain ⟨huv, t, htcp, hconnecting, -⟩ := he
    exact flowing_connectCb hw s status huv htcp hconnecting
  | read nread =>
    obtain ⟨⟨t, htcp, hreading, -⟩, hlen⟩ := he
    have hsynced := hw.synced
    rw [Synced, htcp, Option.map_some, hreading] at hsynced
    have hseen : Flowing { w with eof := w.eof || decide (nread = .eof) } :=
      hw.alike ⟨.refl _, rfl, fun h ↦ by rw [h, Bool.true_or], rfl, rfl⟩
    refine flowing_readCb hseen s nread (fun h ↦ ?_) hsynced hlen
    exact (congrArg (w.eof || ·) (decide_eq_true h)).trans (Bool.or_true _)
  | drained d => exact flowing_drain hw d
  | written status => exact flowing_writeCb hw s status
  | closed =>
    obtain ⟨t, htcp, hclosing, -⟩ := he
    refine flowing_closedCb hw s (hw.closed t.id ?_)
    rw [bond, htcp, Option.map_some, hclosing]
  | streamData uv data => exact flowing_onStreamData hw s uv data
  | streamClose => exact flowing_onStreamClose hw s
  | destroy => exact hw.destroy s

theorem flowing_run (s : Stream σ) (x : σ) {es : List Event}
    (h : Along (step s) Enabled { peer := x } es) : Flowing (run (step s) { peer := x } es) :=
  invariant_of_along (fun _ _ ↦ flowing_step s) (flowing_start x) h

/-- **Flow control is exact.** On any stream that accepts its writes and calls each `on_drain` at
most once, after any run: `stream_pending_bytes_` is what the stream was given and has not drained,
and no subtraction ever clamped; a pipe that is connected or adopted, not destroyed, and has not
seen the end of file reads exactly when there is room in the window; and there never were more than
`kStreamHighWaterMark - 1 + 65536` bytes underway. -/
theorem flow_control_exact (s : Stream σ) (x : σ) (es : List Event)
    (h : Along (step s) Enabled { peer := x } es) :
    let w := run (step s) { peer := x } es
    w.pipe.streamPendingBytes = total w.outstanding ∧ w.clamped = false ∧
      (Running w →
        (w.pipe.reading = true ↔ w.pipe.streamPendingBytes < kStreamHighWaterMark)) ∧
      w.pipe.streamPendingBytes ≤ w.peak ∧ w.peak ≤ kStreamHighWaterMark - 1 + 65536 := by
  have hw := flowing_run s x h
  exact ⟨hw.ledger, hw.unclamped, fun hrunning ↦ ⟨hw.room, hw.awake hrunning⟩,
    hw.pending_le_peak, hw.peak_le⟩

/-- A stream that drains the write before when it is given the next. -/
def lagging : Stream (List Drain) where
  write := fun _ onDrain held ↦ (0, held, onDrain.toList)
  pause := fun held ↦ ([], held)
  resume := fun held ↦ ([], held)
  close := fun held ↦ (held, [])

/-- Two bytes are read, then one: the second write drains the first while it is under way. -/
theorem flow_control_exact_at :
    let w := run (step lagging) { peer := [] }
      [.adopt {} {}, .read (.data [1, 2]), .read (.data [3])]
    w.outstanding = [⟨1, 1⟩] ∧ w.peak = 3 ∧
      w.pipe.streamPendingBytes = total w.outstanding ∧
      (Running w →
        (w.pipe.reading = true ↔ w.pipe.streamPendingBytes < kStreamHighWaterMark)) := by
  have h := flow_control_exact lagging [] [.adopt {} {}, .read (.data [1, 2]), .read (.data [3])]
    ⟨⟨rfl, rfl, rfl, rfl, rfl⟩,
      ⟨⟨{ reading := true }, rfl, rfl, rfl⟩, by rintro bytes ⟨⟩; decide⟩,
      ⟨⟨{ reading := true }, rfl, rfl, rfl⟩, by rintro bytes ⟨⟩; decide⟩, trivial⟩
  exact ⟨rfl, rfl, h.1, h.2.2.1⟩

end FlowControl

end Holesail
