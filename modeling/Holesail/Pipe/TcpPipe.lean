import Holesail.Pipe.StreamSide

/-!
# The TCP pipe

`TcpPipe`: one bridge between a local TCP socket and an encrypted stream, with flow control both
ways and a teardown that waits for what is in flight toward the local socket.

Every callback is a function on the world `W` that the pipe lives in. A `TcpPipe.Host` says where in
that world the pipe is, and what its closures and its `uv_close` do there.
-/

namespace Holesail

structure TcpPipe where
  tcp : Option UvTcp := none
  onReady : Bool := false
  onDestroy : Bool := false
  /-- Queued toward the local socket. -/
  pendingBytes : ℕ := 0
  /-- Submitted to the stream, not yet acked. -/
  streamPendingBytes : ℕ := 0
  inflightWrites : ℤ := 0
  reading : Bool := false
  streamPaused : Bool := false
  streamClosed : Bool := false
  closing : Bool := false
  destroyed : Bool := false
  /-- How many `on_drain` closures were made: the next one's name. -/
  drains : ℕ := 0
deriving DecidableEq

namespace TcpPipe

def kHighWaterMark : ℕ := 64 * 1024

def kStreamHighWaterMark : ℕ := 256 * 1024

/-- The world of a pipe. -/
structure Host (W : Type) where
  pipe : W → TcpPipe
  setPipe : TcpPipe → W → W
  /-- `stream_`. -/
  stream : StreamSide W
  /-- Issue `uv_close` on a handle. -/
  uvClose : UvTcp → W → W
  /-- `on_ready_`. -/
  onReady : ℤ → W → W
  /-- `on_destroy_`. -/
  onDestroy : W → W

/-! ## Functions of the pipe alone -/

section Pure

variable (p : TcpPipe)

def startReading (uv : Uv) : TcpPipe :=
  match p.tcp with
  | none => p
  | some t =>
    if p.reading ∨ p.destroyed then p
    else if uv.readStart = 0 then { p with tcp := some { t with reading := true }, reading := true }
    else p

def stopReading : TcpPipe :=
  match p.tcp with
  | none => p
  | some t =>
    if p.reading then { p with tcp := some { t with reading := false }, reading := false } else p

def resumeReading (uv : Uv) : TcpPipe := if p.destroyed then p else p.startReading uv

/-- `len` bytes are no longer in flight toward the stream. -/
def ack (len : ℕ) : TcpPipe :=
  { p with streamPendingBytes := p.streamPendingBytes -
      (if len < p.streamPendingBytes then len else p.streamPendingBytes) }

end Pure

/-- The handle of a pipe that may not be there. -/
def handle (p : Option TcpPipe) : Option UvTcp := p.bind tcp

theorem not_mem_handle {p : Option TcpPipe} (hp : p = none) (t : UvTcp) : t ∉ handle p := by
  rw [hp]
  exact Option.not_mem_none t

theorem handle_of_eq {p : Option TcpPipe} {p' : TcpPipe} (hp : p = some p') :
    handle p = p'.tcp := by
  rw [handle, hp, Option.bind_some]

/-- The other end of the local socket has ended. -/
def markEnded (nread : Read) (p : TcpPipe) : TcpPipe :=
  if nread = .eof then { p with tcp := p.tcp.map fun t ↦ { t with ended := true } } else p

theorem startReading_cases (p : TcpPipe) (uv : Uv) :
    p.startReading uv = p ∨ ∃ t, p.tcp = some t ∧ p.reading = false ∧ p.destroyed = false ∧
      p.startReading uv = { p with tcp := some { t with reading := true }, reading := true } := by
  rw [startReading]
  split
  · exact .inl rfl
  · next t htcp =>
    split_ifs with hguard
    · exact .inl rfl
    · obtain ⟨hreading, hopen⟩ := not_or.mp hguard
      exact .inr ⟨t, htcp, Bool.of_not_eq_true hreading, Bool.of_not_eq_true hopen, rfl⟩
    · exact .inl rfl

theorem stopReading_cases (p : TcpPipe) :
    p.stopReading = p ∨ ∃ t, p.tcp = some t ∧
      p.stopReading = { p with tcp := some { t with reading := false }, reading := false } := by
  rw [stopReading]
  split
  · exact .inl rfl
  · next t htcp =>
    split_ifs
    · exact .inr ⟨t, htcp, rfl⟩
    · exact .inl rfl

theorem startReading_of_stopped {p : TcpPipe} {uv : Uv} {t : UvTcp} (huv : uv.readStart = 0)
    (htcp : p.tcp = some t) (hreading : p.reading = false) (hdestroyed : p.destroyed = false) :
    p.startReading uv = { p with tcp := some { t with reading := true }, reading := true } := by
  rw [startReading, htcp]
  simp only [hreading, hdestroyed, Bool.false_eq_true, or_self, if_false, huv, if_true]

theorem startReading_of_destroyed {p : TcpPipe} {uv : Uv} (hdestroyed : p.destroyed = true) :
    p.startReading uv = p := by
  rw [startReading]
  split
  · rfl
  · exact if_pos (Or.inr hdestroyed)

/-- `p'` is where `p` is on its way to the end. -/
def SameLife (p p' : TcpPipe) : Prop := p'.destroyed = p.destroyed ∧ p'.closing = p.closing

/-- `p'` is `p`, but for what is read of its handle. -/
def Turned (p p' : TcpPipe) : Prop :=
  ∃ (f : UvTcp → UvTcp) (reading : Bool),
    (∀ t, ∃ reading ended, f t = { t with reading := reading, ended := ended }) ∧
      p' = { p with tcp := p.tcp.map f, reading := reading }

theorem turned_of_tcp {p : TcpPipe} {t : UvTcp} (htcp : p.tcp = some t) (reading : Bool) :
    Turned p { p with tcp := some { t with reading := reading }, reading := reading } :=
  ⟨fun t ↦ { t with reading := reading }, reading, fun t ↦ ⟨reading, t.ended, rfl⟩,
    by rw [htcp]; rfl⟩

namespace Turned

variable {p p' : TcpPipe}

theorem refl (p : TcpPipe) : Turned p p :=
  ⟨id, p.reading, fun t ↦ ⟨t.reading, t.ended, rfl⟩, by rw [Option.map_id]; rfl⟩

theorem map {β : Type} (h : Turned p p') {g : UvTcp → β}
    (hg : ∀ t reading ended, g { t with reading := reading, ended := ended } = g t) :
    p'.tcp.map g = p.tcp.map g := by
  obtain ⟨f, reading, hf, rfl⟩ := h
  rw [Option.map_map]
  refine congrArg (fun k ↦ p.tcp.map k) (funext fun t ↦ ?_)
  obtain ⟨reading, ended, heq⟩ := hf t
  rw [Function.comp_apply, heq, hg]

theorem life (h : Turned p p') : SameLife p p' := by
  obtain ⟨f, reading, -, rfl⟩ := h
  exact ⟨rfl, rfl⟩

theorem streamPendingBytes (h : Turned p p') : p'.streamPendingBytes = p.streamPendingBytes := by
  obtain ⟨f, reading, -, rfl⟩ := h
  rfl

end Turned

theorem turned_startReading (p : TcpPipe) (uv : Uv) : Turned p (p.startReading uv) := by
  rcases p.startReading_cases uv with hsame | ⟨t, htcp, -, -, hstarts⟩
  · rw [hsame]
    exact .refl p
  · rw [hstarts]
    exact turned_of_tcp htcp true

theorem turned_stopReading (p : TcpPipe) : Turned p p.stopReading := by
  rcases p.stopReading_cases with hsame | ⟨t, htcp, hstops⟩
  · rw [hsame]
    exact .refl p
  · rw [hstops]
    exact turned_of_tcp htcp false

theorem turned_resumeReading (p : TcpPipe) (uv : Uv) : Turned p (p.resumeReading uv) := by
  unfold resumeReading
  split_ifs
  · exact .refl p
  · exact turned_startReading p uv

theorem turned_markEnded (p : TcpPipe) (nread : Read) : Turned p (markEnded nread p) := by
  unfold markEnded
  split_ifs
  · exact ⟨_, p.reading, fun t ↦ ⟨t.reading, true, rfl⟩, rfl⟩
  · exact .refl p

theorem resumeReading_of_destroyed {p : TcpPipe} (h : p.destroyed = true) (uv : Uv) :
    p.resumeReading uv = p := if_pos h

theorem exists_tcp_stopReading {p : TcpPipe} {t : UvTcp} (h : p.tcp = some t) :
    ∃ t', p.stopReading.tcp = some t' ∧ t'.closing = t.closing := by
  rcases p.stopReading_cases with hsame | ⟨t', ht', hstops⟩
  · rw [hsame]
    exact ⟨t, h, rfl⟩
  · obtain rfl := Option.some.inj (ht'.symm.trans h)
    rw [hstops]
    exact ⟨_, rfl, rfl⟩

/-! ## Callbacks -/

variable {W : Type} (h : Host W)

def Host.modify (f : TcpPipe → TcpPipe) (w : W) : W := h.setPipe (f (h.pipe w)) w

def fireOnDestroy (w : W) : W :=
  if (h.pipe w).onDestroy then
    h.onDestroy (h.modify (fun p ↦ { p with onDestroy := false }) w)
  else w

/-- The end of `destroy`: give back the handle, or call `on_destroy_` at once if there is none to
wait for. -/
def closeHandle (w : W) : W :=
  match (h.pipe w).tcp with
  | none => fireOnDestroy h w
  | some t =>
    if (h.pipe w).closing then fireOnDestroy h w
    else
      let w := h.modify (fun p ↦ { p with closing := true }) w
      if t.closing then fireOnDestroy h w
      else
        let t := { t with closing := true, reading := false }
        -- `closed_cb` runs `on_destroy_`.
        h.uvClose t (h.modify (fun p ↦ { p with tcp := some t }) w)

def destroy (w : W) : W :=
  if (h.pipe w).destroyed then w
  else
    let w := h.modify (fun p ↦ { p with destroyed := true }) w
    let w := h.modify stopReading w
    let w := h.stream.close w
    closeHandle h w

def flushFinished (w : W) : W :=
  if (h.pipe w).streamClosed = false ∨ 0 < (h.pipe w).inflightWrites then w else destroy h w

def connect (uv : Uv) (id : ℕ) (onReady : Bool) (w : W) : ℤ × W :=
  if (h.pipe w).destroyed then (uvECANCELED, w)
  else if uv.tcpInit ≠ 0 then (uv.tcpInit, w)
  else
    let w := h.modify (fun p ↦ { p with tcp := some { id := id } }) w
    if uv.resolve ≠ 0 then (uv.resolve, destroy h w)
    else
      let w := h.modify (fun p ↦ { p with onReady := onReady }) w
      if uv.tcpConnect ≠ 0 then (uv.tcpConnect, destroy h w)
      else
        (uv.tcpConnect,
          h.modify (fun p ↦ { p with tcp := p.tcp.map fun t ↦ { t with connecting := true } }) w)

def adopt (uv : Uv) (accepted : Option UvTcp) (w : W) : ℤ × W :=
  match accepted with
  | none => (uvEINVAL, w)
  | some t =>
    if (h.pipe w).destroyed then (uvEINVAL, w)
    else (0, h.modify (fun p ↦ { p with tcp := some t }.startReading uv) w)

def connectCb (uv : Uv) (status : ℤ) (w : W) : W :=
  let w := h.modify (fun p ↦ { p with tcp := p.tcp.map fun t ↦ { t with connecting := false } }) w
  if status ≠ 0 then
    let w := if (h.pipe w).onReady then h.onReady status w else w
    destroy h w
  else
    let w := h.modify (fun p ↦ p.startReading uv) w
    if (h.pipe w).onReady then h.onReady 0 w else w

/-- The `on_drain` closure that captured `len`. -/
def onDrain (uv : Uv) (len : ℕ) (w : W) : W :=
  let w := h.modify (fun p ↦ p.ack len) w
  if (h.pipe w).streamPendingBytes < kStreamHighWaterMark then
    h.modify (fun p ↦ p.resumeReading uv) w
  else w

def readCb (nread : Read) (w : W) : W :=
  if (h.pipe w).destroyed then w
  else match nread with
    | .eof => h.stream.close (h.modify stopReading w)
    | .error => destroy h w
    | .data bytes =>
      if bytes = [] then w
      else
        let len := bytes.length
        let drain : Drain := ⟨(h.pipe w).drains, len⟩
        let w := h.modify (fun p ↦
          { p with streamPendingBytes := p.streamPendingBytes + len, drains := p.drains + 1 }) w
        let (rc, w) := h.stream.write bytes (some drain) w
        if rc < 0 then destroy h (h.modify (fun p ↦ p.ack len) w)
        else if kStreamHighWaterMark ≤ (h.pipe w).streamPendingBytes then h.modify stopReading w
        else w

def onStreamData (uv : Uv) (data : Bytes) (w : W) : W :=
  match (h.pipe w).tcp with
  | none => w
  | some t =>
    if (h.pipe w).destroyed ∨ (h.pipe w).closing then w
    else if data = [] then w
    else if uv.write ≠ 0 then destroy h w
    else
      let w := h.modify (fun p ↦
        { p with
          tcp := some { t with writes := t.writes ++ [data] }
          inflightWrites := p.inflightWrites + 1
          pendingBytes := p.pendingBytes + data.length }) w
      if (h.pipe w).streamPaused = false ∧ kHighWaterMark ≤ (h.pipe w).pendingBytes then
        h.stream.pause (h.modify (fun p ↦ { p with streamPaused := true }) w)
      else w

/-- `write_cb`, for the oldest write in flight. -/
def writeCb (status : ℤ) (w : W) : W :=
  match (h.pipe w).tcp with
  | none => w
  | some t =>
    match t.writes with
    | [] => w
    | data :: rest =>
      let bytes := data.length
      let w := h.modify (fun p ↦
        { p with
          tcp := some { t with writes := rest }
          inflightWrites := p.inflightWrites - 1
          pendingBytes :=
            p.pendingBytes - (if bytes < p.pendingBytes then bytes else p.pendingBytes)
        }) w
      if status ≠ 0 then destroy h w
      else
        let w :=
          if (h.pipe w).streamPaused = true ∧ (h.pipe w).pendingBytes < kHighWaterMark then
            h.stream.resume (h.modify (fun p ↦ { p with streamPaused := false }) w)
          else w
        flushFinished h w

def onStreamClose (w : W) : W :=
  if (h.pipe w).destroyed then w
  else flushFinished h (h.modify (fun p ↦ { p with streamClosed := true }) w)

def closedCb (w : W) : W := fireOnDestroy h (h.modify (fun p ↦ { p with tcp := none }) w)

/-! ## What a pipe can do to its world

A pipe acts on its world through its host only. So whatever every function of the host keeps, in
the sense of a preorder on worlds, every callback of the pipe keeps. -/

/-- Every function of the host moves the world along `R`. -/
structure Host.Within (h : Host W) (R : W → W → Prop) : Prop where
  refl : ∀ w, R w w
  trans : ∀ {w w' w''}, R w w' → R w' w'' → R w w''
  setPipe : ∀ p w, R w (h.setPipe p w)
  write : ∀ data onDrain w, R w (h.stream.write data onDrain w).2
  pause : ∀ w, R w (h.stream.pause w)
  resume : ∀ w, R w (h.stream.resume w)
  close : ∀ w, R w (h.stream.close w)
  uvClose : ∀ t w, R w (h.uvClose t w)
  onReady : ∀ status w, R w (h.onReady status w)
  onDestroy : ∀ w, R w (h.onDestroy w)

namespace Host.Within

variable {h} {R : W → W → Prop} (hR : h.Within R)

include hR

theorem modify (f : TcpPipe → TcpPipe) (w : W) : R w (h.modify f w) := hR.setPipe _ w

theorem fireOnDestroy (w : W) : R w (TcpPipe.fireOnDestroy h w) := by
  unfold TcpPipe.fireOnDestroy
  split_ifs
  · exact hR.trans (hR.modify _ w) (hR.onDestroy _)
  · exact hR.refl w

theorem closeHandle (w : W) : R w (TcpPipe.closeHandle h w) := by
  unfold TcpPipe.closeHandle
  split
  · exact hR.fireOnDestroy w
  · simp only
    split_ifs
    · exact hR.fireOnDestroy w
    · exact hR.trans (hR.modify _ w) (hR.fireOnDestroy _)
    · exact hR.trans (hR.modify _ w) (hR.trans (hR.modify _ _) (hR.uvClose _ _))

theorem destroy (w : W) : R w (TcpPipe.destroy h w) := by
  unfold TcpPipe.destroy
  split_ifs
  · exact hR.refl w
  · exact hR.trans (hR.modify _ w) (hR.trans (hR.modify _ _)
      (hR.trans (hR.close _) (hR.closeHandle _)))

theorem flushFinished (w : W) : R w (TcpPipe.flushFinished h w) := by
  unfold TcpPipe.flushFinished
  split_ifs
  · exact hR.refl w
  · exact hR.destroy w

theorem connect (uv : Uv) (id : ℕ) (onReady : Bool) (w : W) :
    R w (TcpPipe.connect h uv id onReady w).2 := by
  simp only [TcpPipe.connect]
  split_ifs <;> dsimp only
  · exact hR.refl w
  · exact hR.refl w
  · exact hR.trans (hR.modify _ w) (hR.destroy _)
  · refine hR.trans ?_ (hR.destroy _)
    exact hR.trans (hR.modify _ w) (hR.modify _ _)
  · refine hR.trans ?_ (hR.modify _ _)
    exact hR.trans (hR.modify _ w) (hR.modify _ _)

theorem connectCb (uv : Uv) (status : ℤ) (w : W) : R w (TcpPipe.connectCb h uv status w) := by
  simp only [TcpPipe.connectCb]
  split_ifs
  · refine hR.trans ?_ (hR.destroy _)
    exact hR.trans (hR.modify _ w) (hR.onReady _ _)
  · exact hR.trans (hR.modify _ w) (hR.destroy _)
  · refine hR.trans ?_ (hR.onReady _ _)
    exact hR.trans (hR.modify _ w) (hR.modify _ _)
  · exact hR.trans (hR.modify _ w) (hR.modify _ _)

theorem onDrain (uv : Uv) (len : ℕ) (w : W) : R w (TcpPipe.onDrain h uv len w) := by
  simp only [TcpPipe.onDrain]
  split_ifs
  · exact hR.trans (hR.modify _ w) (hR.modify _ _)
  · exact hR.modify _ w

theorem readCb (nread : Read) (w : W) : R w (TcpPipe.readCb h nread w) := by
  unfold TcpPipe.readCb
  split_ifs
  · exact hR.refl w
  · cases nread with
    | eof => exact hR.trans (hR.modify _ w) (hR.close _)
    | error => exact hR.destroy w
    | data bytes =>
      simp only
      split_ifs
      · exact hR.refl w
      · refine hR.trans ?_ (hR.destroy _)
        refine hR.trans ?_ (hR.modify _ _)
        exact hR.trans (hR.modify _ w) (hR.write _ _ _)
      · refine hR.trans ?_ (hR.modify _ _)
        exact hR.trans (hR.modify _ w) (hR.write _ _ _)
      · exact hR.trans (hR.modify _ w) (hR.write _ _ _)

theorem onStreamData (uv : Uv) (data : Bytes) (w : W) :
    R w (TcpPipe.onStreamData h uv data w) := by
  unfold TcpPipe.onStreamData
  split
  · exact hR.refl w
  · simp only
    split_ifs
    · exact hR.refl w
    · exact hR.refl w
    · exact hR.destroy w
    · refine hR.trans ?_ (hR.pause _)
      exact hR.trans (hR.modify _ w) (hR.modify _ _)
    · exact hR.modify _ w

theorem writeCb (status : ℤ) (w : W) : R w (TcpPipe.writeCb h status w) := by
  unfold TcpPipe.writeCb
  split
  · exact hR.refl w
  · split
    · exact hR.refl w
    · simp only
      split_ifs
      · exact hR.trans (hR.modify _ w) (hR.destroy _)
      · refine hR.trans ?_ (hR.flushFinished _)
        refine hR.trans ?_ (hR.resume _)
        exact hR.trans (hR.modify _ w) (hR.modify _ _)
      · exact hR.trans (hR.modify _ w) (hR.flushFinished _)

theorem onStreamClose (w : W) : R w (TcpPipe.onStreamClose h w) := by
  unfold TcpPipe.onStreamClose
  split_ifs
  · exact hR.refl w
  · exact hR.trans (hR.modify _ w) (hR.flushFinished _)

theorem closedCb (w : W) : R w (TcpPipe.closedCb h w) :=
  hR.trans (hR.modify _ w) (hR.fireOnDestroy _)

end Host.Within

/-! ## What a callback is made of

A callback changes the pipe without touching its handle or its life, calls its side, and at most
destroys the pipe. An invariant of the world therefore only has to be checked for these. -/

/-- The handle that a pipe is bound to, and whether it is still open. -/
def bond (p : TcpPipe) : Option (ℕ × Bool) := p.tcp.map fun t ↦ (t.id, t.closing)

/-- `p'` is at the same handle as `p`, and at the same point of its life. -/
structure SameBond (p p' : TcpPipe) : Prop where
  life : SameLife p p'
  onDestroy : p'.onDestroy = p.onDestroy
  bond : p'.bond = p.bond

theorem SameBond.refl (p : TcpPipe) : SameBond p p := ⟨⟨rfl, rfl⟩, rfl, rfl⟩

theorem sameBond_of_tcp {p p' : TcpPipe} {t t' : UvTcp} (hp : p.tcp = some t)
    (hp' : p'.tcp = some t') (hbond : (t'.id, t'.closing) = (t.id, t.closing))
    (hlife : SameLife p p') (hdestroy : p'.onDestroy = p.onDestroy) : SameBond p p' := by
  refine ⟨hlife, hdestroy, ?_⟩
  rw [TcpPipe.bond, TcpPipe.bond, hp, hp', Option.map_some, Option.map_some, hbond]

theorem Turned.sameBond {p p' : TcpPipe} (h : Turned p p') : SameBond p p' := by
  refine ⟨h.life, ?_, h.map fun _ _ _ ↦ rfl⟩
  obtain ⟨f, reading, -, rfl⟩ := h
  rfl

/-- Every move of a callback keeps `P`. -/
structure Host.Keeps (h : Host W) (P : W → Prop) : Prop where
  modify : ∀ {w} (f : TcpPipe → TcpPipe), SameBond (h.pipe w) (f (h.pipe w)) → P w →
    P (h.modify f w)
  write : ∀ {w} (data : Bytes) (onDrain : Option Drain), P w → P (h.stream.write data onDrain w).2
  pause : ∀ {w}, P w → P (h.stream.pause w)
  resume : ∀ {w}, P w → P (h.stream.resume w)
  close : ∀ {w}, P w → P (h.stream.close w)
  destroy : ∀ {w}, P w → P (TcpPipe.destroy h w)

namespace Host.Keeps

variable {h} {P : W → Prop} (hP : h.Keeps P) {w : W}

include hP

theorem flushFinished (hw : P w) : P (TcpPipe.flushFinished h w) := by
  unfold TcpPipe.flushFinished
  split_ifs
  · exact hw
  · exact hP.destroy hw

theorem onDrain (uv : Uv) (len : ℕ) (hw : P w) : P (TcpPipe.onDrain h uv len w) := by
  have hacked := hP.modify (fun p ↦ p.ack len) ⟨⟨rfl, rfl⟩, rfl, rfl⟩ hw
  simp only [TcpPipe.onDrain]
  split_ifs
  · exact hP.modify _ (turned_resumeReading _ uv).sameBond hacked
  · exact hacked

theorem readCb (nread : Read) (hw : P w) : P (TcpPipe.readCb h nread w) := by
  unfold TcpPipe.readCb
  split_ifs
  · exact hw
  · cases nread with
    | eof => exact hP.close (hP.modify _ (turned_stopReading _).sameBond hw)
    | error => exact hP.destroy hw
    | data bytes =>
      have hcounted := hP.modify (fun p ↦
        { p with
          streamPendingBytes := p.streamPendingBytes + bytes.length
          drains := p.drains + 1 }) ⟨⟨rfl, rfl⟩, rfl, rfl⟩ hw
      have hwritten := hP.write bytes (some ⟨(h.pipe w).drains, bytes.length⟩) hcounted
      simp only
      split_ifs
      · exact hw
      · exact hP.destroy (hP.modify _ ⟨⟨rfl, rfl⟩, rfl, rfl⟩ hwritten)
      · exact hP.modify _ (turned_stopReading _).sameBond hwritten
      · exact hwritten

theorem onStreamData (uv : Uv) (data : Bytes) (hw : P w) :
    P (TcpPipe.onStreamData h uv data w) := by
  unfold TcpPipe.onStreamData
  split
  · exact hw
  · next t ht =>
    have hqueued := hP.modify (fun p ↦
      { p with
        tcp := some { t with writes := t.writes ++ [data] }
        inflightWrites := p.inflightWrites + 1
        pendingBytes := p.pendingBytes + data.length })
      (sameBond_of_tcp ht rfl rfl ⟨rfl, rfl⟩ rfl) hw
    simp only
    split_ifs
    · exact hw
    · exact hw
    · exact hP.destroy hw
    · exact hP.pause (hP.modify _ ⟨⟨rfl, rfl⟩, rfl, rfl⟩ hqueued)
    · exact hqueued

theorem writeCb (status : ℤ) (hw : P w) : P (TcpPipe.writeCb h status w) := by
  unfold TcpPipe.writeCb
  split
  · exact hw
  · next t ht =>
    split
    · exact hw
    · next data rest hwrites =>
      have hpopped := hP.modify (fun p ↦
        { p with
          tcp := some { t with writes := rest }
          inflightWrites := p.inflightWrites - 1
          pendingBytes := p.pendingBytes -
            (if data.length < p.pendingBytes then data.length else p.pendingBytes) })
        (sameBond_of_tcp ht rfl rfl ⟨rfl, rfl⟩ rfl) hw
      simp only
      split_ifs
      · exact hP.destroy hpopped
      · exact hP.flushFinished (hP.resume (hP.modify _ ⟨⟨rfl, rfl⟩, rfl, rfl⟩ hpopped))
      · exact hP.flushFinished hpopped

theorem onStreamClose (hw : P w) : P (TcpPipe.onStreamClose h w) := by
  unfold TcpPipe.onStreamClose
  split_ifs
  · exact hw
  · exact hP.flushFinished (hP.modify _ ⟨⟨rfl, rfl⟩, rfl, rfl⟩ hw)

end Host.Keeps

/-! ## Destroying a pipe -/

/-- The host keeps the pipe it is given. -/
structure Host.Lawful (h : Host W) : Prop where
  pipe_setPipe : ∀ p w, h.pipe (h.setPipe p w) = p
  setPipe_setPipe : ∀ p q w, h.setPipe p (h.setPipe q w) = h.setPipe p w

theorem destroy_of_destroyed {w : W} (h' : (h.pipe w).destroyed = true) : destroy h w = w :=
  if_pos h'

theorem onStreamData_of_destroyed {w : W} (h' : (h.pipe w).destroyed = true) (uv : Uv)
    (data : Bytes) : onStreamData h uv data w = w := by
  rw [onStreamData.eq_def]
  split
  · rfl
  · exact if_pos (.inl h')

theorem onStreamClose_of_destroyed {w : W} (h' : (h.pipe w).destroyed = true) :
    onStreamClose h w = w := if_pos h'

/-- A pipe that is not destroyed yet stops reading, closes its side and gives back its handle. -/
theorem destroy_of_not_destroyed (hl : h.Lawful) {w : W} (h' : (h.pipe w).destroyed = false) :
    destroy h w = closeHandle h (h.stream.close
      (h.setPipe (stopReading { h.pipe w with destroyed := true }) w)) := by
  rw [destroy, if_neg (by rw [h']; decide)]
  simp only [Host.modify, hl.pipe_setPipe, hl.setPipe_setPipe]

theorem closeHandle_of_none {w : W} (htcp : (h.pipe w).tcp = none) :
    closeHandle h w = fireOnDestroy h w := by
  rw [closeHandle.eq_def, htcp]

/-- The pipe at a handle that is closing. -/
def detach (p : TcpPipe) (t : UvTcp) : TcpPipe :=
  { p with
    closing := true
    tcp := some { t with closing := true, reading := false } }

/-- An open handle is closed, and `on_destroy_` left to `closed_cb`. -/
theorem closeHandle_of_open (hl : h.Lawful) {w : W} {p : TcpPipe} (hp : h.pipe w = p) {t : UvTcp}
    (htcp : p.tcp = some t) (hclosing : p.closing = false) (hopen : t.closing = false) :
    closeHandle h w = h.uvClose { t with closing := true, reading := false }
      (h.setPipe (p.detach t) w) := by
  unfold closeHandle
  rw [hp, htcp]
  simp only [hclosing, hopen, Bool.false_eq_true, if_false, Host.modify, hl.pipe_setPipe,
    hl.setPipe_setPipe, hp, htcp, detach]

/-! ## Stages of a pipe's life -/

/-- The pipe has an open handle. -/
def Attached (p : TcpPipe) : Prop :=
  p.destroyed = false ∧ p.closing = false ∧ p.onDestroy = true ∧ ∃ id, p.bond = some (id, false)

/-- The pipe waits for its handle to close. -/
def Detaching (p : TcpPipe) : Prop :=
  p.destroyed = true ∧ p.closing = true ∧ p.onDestroy = true ∧ ∃ id, p.bond = some (id, true)

/-- The pipe is done. -/
def Detached (p : TcpPipe) : Prop :=
  p.destroyed = true ∧ p.closing = true ∧ p.onDestroy = false ∧ p.tcp = none

theorem SameBond.attached {p p' : TcpPipe} (h : SameBond p p') (hp : p.Attached) :
    p'.Attached := by
  obtain ⟨hdestroyed, hclosing, honDestroy, id, hbond⟩ := hp
  exact ⟨h.life.1.trans hdestroyed, h.life.2.trans hclosing, h.onDestroy.trans honDestroy, id,
    h.bond.trans hbond⟩

theorem SameBond.detaching {p p' : TcpPipe} (h : SameBond p p') (hp : p.Detaching) :
    p'.Detaching := by
  obtain ⟨hdestroyed, hclosing, honDestroy, id, hbond⟩ := hp
  exact ⟨h.life.1.trans hdestroyed, h.life.2.trans hclosing, h.onDestroy.trans honDestroy, id,
    h.bond.trans hbond⟩

theorem SameBond.detached {p p' : TcpPipe} (h : SameBond p p') (hp : p.Detached) :
    p'.Detached := by
  obtain ⟨hdestroyed, hclosing, honDestroy, htcp⟩ := hp
  refine ⟨h.life.1.trans hdestroyed, h.life.2.trans hclosing, h.onDestroy.trans honDestroy, ?_⟩
  have hbond := h.bond
  rw [TcpPipe.bond, TcpPipe.bond, htcp] at hbond
  exact Option.map_eq_none_iff.mp hbond

end TcpPipe

end Holesail
