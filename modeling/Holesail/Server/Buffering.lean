import Holesail.Server.Conn
import Holesail.Theory.Gate

/-!
# What the local service says before the stream is open

Until the stream opens, `make_side` buffers what the pipe reads, up to `kMaxPendingBytes`, and drops
a read that does not fit; `stream_open_cb` flushes the buffer. The connection is thereby a gate in
the sense of `Holesail.Theory.Gate`, and this file says for which runs nothing is lost in it, and
for which runs nothing is overtaken by the half-close.
-/

namespace Holesail

namespace HolesailServer

namespace Conn

open Run

/-! ## The pipe carries on

Most callbacks of this file end with the same connection but for its pipe, which is still alive. -/

/-- The pipe is in place and alive. -/
def Alive (c : Conn) : Prop := ∃ p, c.tcp = some p ∧ p.destroyed = false ∧ p.closing = false

/-- `c'` is `c` but for its pipe, which is alive. -/
structure Carrying (c c' : Conn) : Prop where
  same : { c' with tcp := none } = { c with tcp := none }
  alive : Alive c'

namespace Carrying

variable {c c' c'' : Conn}

theorem trans (h : Carrying c c') (h' : Carrying c' c'') : Carrying c c'' :=
  ⟨h'.same.trans h.same, h'.alive⟩

theorem stream (h : Carrying c c') : c'.stream = c.stream := (congrArg Conn.stream h.same :)

theorem boxed (h : Carrying c c') : c'.boxed = c.boxed := (congrArg Conn.boxed h.same :)

theorem streamOpen (h : Carrying c c') : c'.streamOpen = c.streamOpen :=
  (congrArg Conn.streamOpen h.same :)

theorem pending (h : Carrying c c') : c'.pending = c.pending := (congrArg Conn.pending h.same :)

theorem pendingDrains (h : Carrying c c') : c'.pendingDrains = c.pendingDrains :=
  (congrArg Conn.pendingDrains h.same :)

theorem drains (h : Carrying c c') : c'.drains = c.drains := (congrArg Conn.drains h.same :)

theorem calls (h : Carrying c c') : c'.calls = c.calls := (congrArg Conn.calls h.same :)

theorem accepted (h : Carrying c c') : c'.accepted = c.accepted := (congrArg Conn.accepted h.same :)

theorem fired (h : Carrying c c') : c'.fired = c.fired := (congrArg Conn.fired h.same :)

end Carrying

theorem Alive.carrying {c : Conn} (h : Alive c) : Carrying c c := ⟨rfl, h⟩

theorem carrying_modify {a : Answers} {c : Conn} {f : TcpPipe → TcpPipe}
    (hf : ∀ p, TcpPipe.SameLife p (f p)) (h : Alive c) : Carrying c ((tcpHost a).modify f c) := by
  obtain ⟨p, htcp, hdestroyed, hclosing⟩ := h
  refine ⟨rfl, f p, ?_, (hf p).1.trans hdestroyed, (hf p).2.trans hclosing⟩
  simp only [TcpPipe.Host.modify, tcpHost, htcp, Option.getD_some]

theorem carrying_connectCb {a : Answers} {c : Conn} (h : Alive c) (uv : Uv) :
    Carrying c (TcpPipe.connectCb (tcpHost a) uv 0 c) := by
  have hconnected := carrying_modify (a := a) (f := fun p ↦
    { p with tcp := p.tcp.map fun t ↦ { t with connecting := false } }) (fun _ ↦ ⟨rfl, rfl⟩) h
  have hreading := carrying_modify (a := a) (f := fun p ↦ p.startReading uv)
    (fun p ↦ (p.turned_startReading uv).life) hconnected.alive
  have hready : TcpPipe.connectCb (tcpHost a) uv 0 c
      = (tcpHost a).modify (fun p ↦ p.startReading uv) ((tcpHost a).modify (fun p ↦
        { p with tcp := p.tcp.map fun t ↦ { t with connecting := false } }) c) := by
    simp only [TcpPipe.connectCb, ne_eq, not_true_eq_false, if_false]
    exact ite_id _
  rw [hready]
  exact hconnected.trans hreading

theorem carrying_onDrain {a : Answers} {c : Conn} (h : Alive c) (uv : Uv) (len : ℕ) :
    Carrying c (TcpPipe.onDrain (tcpHost a) uv len c) := by
  have hacked := carrying_modify (a := a) (f := fun p ↦ p.ack len) (fun _ ↦ ⟨rfl, rfl⟩) h
  simp only [TcpPipe.onDrain]
  split_ifs
  · exact hacked.trans (carrying_modify (fun p ↦ (p.turned_resumeReading uv).life) hacked.alive)
  · exact hacked

theorem carrying_fireDrain {c : Conn} (h : Alive c) (uv : Uv) (drain : Drain) :
    Carrying { c with fired := c.fired ++ [drain] } (fireDrain uv c drain) :=
  carrying_onDrain (c := { c with fired := c.fired ++ [drain] }) h uv drain.len

theorem carrying_foldl_fireDrain {c : Conn} (h : Alive c) (uv : Uv) (drains : List Drain) :
    Carrying { c with fired := c.fired ++ drains } (drains.foldl (fireDrain uv) c) := by
  induction drains generalizing c with
  | nil =>
    rw [List.append_nil]
    exact h.carrying
  | cons drain drains ih =>
    have hfired := carrying_fireDrain h uv drain
    have hrest := ih hfired.alive
    refine ⟨hrest.same.trans ?_, hrest.alive⟩
    have hlog : (fireDrain uv c drain).fired ++ drains = c.fired ++ drain :: drains := by
      rw [hfired.fired, List.append_assoc, List.singleton_append]
    rw [hlog]
    exact congrArg (fun c' : Conn ↦ { c' with fired := c.fired ++ drain :: drains }) hfired.same

/-! ## Writing through the side -/

section Write

variable {a : Answers} {data : Bytes} {drain : Drain} {c : Conn}

/-- Before the opening, a write that does not fit is dropped, and reported as accepted. -/
theorem write_dropped (hclosed : c.streamOpen = false)
    (hfull : kMaxPendingBytes < c.pending.length + data.length) :
    (makeSide a).write data (some drain) c
      = (1, { c with accepted := c.accepted ++ [drain] }) := by
  simp only [makeSide, if_pos hclosed, if_pos hfull]
  rfl

/-- Before the opening, a write that fits is buffered, and its `on_drain` withheld. -/
theorem write_buffered (hclosed : c.streamOpen = false)
    (hroom : ¬kMaxPendingBytes < c.pending.length + data.length) :
    (makeSide a).write data (some drain) c
      = (1, { c with
          accepted := c.accepted ++ [drain]
          pending := c.pending ++ data
          pendingDrains := c.pendingDrains ++ [drain] }) := by
  simp only [makeSide, if_pos hclosed, if_neg hroom]
  rfl

theorem write_through (hopen : c.streamOpen = true) (hstream : c.stream = true)
    (hrc : 0 ≤ a.write) :
    (makeSide a).write data (some drain) c
      = (a.write, { c with
          accepted := c.accepted ++ [drain]
          calls := c.calls ++ [.write data a.write]
          drains := c.drains ++ [drain]
          allocated := c.allocated ++ [drain] }) := by
  have hnot : ¬a.write < 0 := by omega
  simp only [makeSide, streamWrite, hopen, hstream, Bool.true_eq_false, if_true, if_false,
    if_neg hnot]
  rfl

theorem write_refused (hopen : c.streamOpen = true) (hstream : c.stream = true)
    (hrc : a.write < 0) :
    (makeSide a).write data (some drain) c
      = (a.write, { c with
          calls := c.calls ++ [.write data a.write]
          drains := (c.drains ++ [drain]).erase drain
          allocated := c.allocated ++ [drain]
          freed := c.freed ++ [drain] }) := by
  simp only [makeSide, streamWrite, hopen, hstream, Bool.true_eq_false, if_true, if_false,
    if_pos hrc]

end Write

/-! ## The connection as a gate -/

/-- The connection stands where the gate does. -/
structure Refines (c : Conn) (g : Gate.State UInt8) : Prop where
  opened : c.streamOpen = g.opened
  pending : c.pending = g.pending
  wire : written c.calls = g.wire

/-- The `on_drain`s that were called or will be. -/
def held (c : Conn) : List Drain := c.fired ++ c.pendingDrains ++ c.drains

/-- The stream is there, with the box, and has not been told to close. -/
structure Connected (c : Conn) : Prop where
  stream : c.stream = true
  boxed : c.boxed = true
  notClosed : .close ∉ c.calls

theorem not_fits_iff {c : Conn} {g : Gate.State UInt8} (hr : Refines c g)
    (hclosed : c.streamOpen = false) (data : Bytes) :
    ¬Gate.Fits kMaxPendingBytes g data ↔ kMaxPendingBytes < c.pending.length + data.length := by
  rw [Gate.Fits, ← hr.opened, hclosed, ← hr.pending]
  simp

section Step

variable {a : Answers} {c : Conn} {g : Gate.State UInt8}

/-- What the pipe makes of a read, by what the side's write came to. -/
theorem readCb_data_eq {p : TcpPipe} {bytes : Bytes} {rc : ℤ} {c₂ : Conn}
    (htcp : c.tcp = some p) (hopen : p.destroyed = false) (hne : bytes ≠ [])
    (hwrite : (makeSide a).write bytes (some ⟨p.drains, bytes.length⟩)
      { c with tcp := some { p with
          streamPendingBytes := p.streamPendingBytes + bytes.length
          drains := p.drains + 1 } } = (rc, c₂)) :
    TcpPipe.readCb (tcpHost a) (.data bytes) c =
      if rc < 0 then
        TcpPipe.destroy (tcpHost a) ((tcpHost a).modify (fun p ↦ p.ack bytes.length) c₂)
      else if TcpPipe.kStreamHighWaterMark ≤ ((tcpHost a).pipe c₂).streamPendingBytes then
        (tcpHost a).modify TcpPipe.stopReading c₂
      else c₂ := by
  generalize hc₁ : ({ c with tcp := some { p with
    streamPendingBytes := p.streamPendingBytes + bytes.length
    drains := p.drains + 1 } } : Conn) = c₁ at hwrite
  have hmodify : (tcpHost a).modify (fun p ↦ { p with
      streamPendingBytes := p.streamPendingBytes + bytes.length
      drains := p.drains + 1 }) c = c₁ := (modify_of_tcp htcp _).trans hc₁
  have hpipe : (tcpHost a).pipe c = p := pipe_of_tcp htcp
  have hside : (tcpHost a).stream = makeSide a := rfl
  simp only [TcpPipe.readCb, hpipe, hopen, Bool.false_eq_true, if_false, if_neg hne, hmodify, hside,
    hwrite]

/-- A read is a write of the side followed by nothing but changes to the pipe, unless the stream
refuses it. -/
theorem carrying_readCb {bytes : Bytes} (h : Alive c) (hne : bytes ≠ []) :
    ∃ c₁ drain, Carrying c c₁ ∧ ∀ rc c₂, (makeSide a).write bytes (some drain) c₁ = (rc, c₂) →
      Alive c₂ → 0 ≤ rc → Carrying c₂ (TcpPipe.readCb (tcpHost a) (.data bytes) c) := by
  have hlive : ((tcpHost a).pipe c).destroyed = false := by
    obtain ⟨p, htcp, hdestroyed, -⟩ := h
    simp only [tcpHost, htcp, Option.getD_some, hdestroyed]
  refine ⟨_, ⟨((tcpHost a).pipe c).drains, bytes.length⟩, carrying_modify (a := a) (f := fun p ↦
    { p with
      streamPendingBytes := p.streamPendingBytes + bytes.length
      drains := p.drains + 1 }) (fun _ ↦ ⟨rfl, rfl⟩) h, ?_⟩
  intro rc c₂ hwrite halive hrc
  have hstream : (tcpHost a).stream = makeSide a := rfl
  have hnot : ¬rc < 0 := by omega
  simp only [TcpPipe.readCb, hlive, Bool.false_eq_true, if_false, if_neg hne, hstream, hwrite,
    if_neg hnot]
  split_ifs
  · exact carrying_modify (fun p ↦ p.turned_stopReading.life) halive
  · exact halive.carrying

/-- **A read** is a write to the gate. Its `on_drain` is held exactly if the gate keeps it. -/
theorem readCb_refines {bytes : Bytes} (h : Alive c) (hc : Connected c) (hr : Refines c g)
    (hne : bytes ≠ []) (hrc : c.streamOpen = true → 0 ≤ a.write) :
    Alive (TcpPipe.readCb (tcpHost a) (.data bytes) c) ∧
      Connected (TcpPipe.readCb (tcpHost a) (.data bytes) c) ∧
      Refines (TcpPipe.readCb (tcpHost a) (.data bytes) c)
        (Gate.step kMaxPendingBytes g (.write bytes)) ∧
      ∃ drain, (TcpPipe.readCb (tcpHost a) (.data bytes) c).accepted = c.accepted ++ [drain] ∧
        (held (TcpPipe.readCb (tcpHost a) (.data bytes) c)).Perm
          (held c ++ if Gate.Fits kMaxPendingBytes g bytes then [drain] else []) := by
  obtain ⟨c₁, drain, h₁, hread⟩ := carrying_readCb (a := a) h hne
  have hstream : c₁.stream = true := h₁.stream.trans hc.stream
  -- The side passes the bytes on, keeps them or drops them, and so does the gate.
  cases hopen : c.streamOpen with
  | true =>
    have hopen₁ : c₁.streamOpen = true := h₁.streamOpen.trans hopen
    have h₂ := hread _ _ (write_through hopen₁ hstream (hrc hopen)) h₁.alive (hrc hopen)
    have hgate : g.opened = true := by rw [← hr.opened, hopen]
    obtain ⟨hgopen, hgwire⟩ := Gate.step_write_of_opened (k := kMaxPendingBytes) hgate bytes
    refine ⟨h₂.alive, ⟨h₂.stream.trans hstream, (h₂.boxed.trans h₁.boxed).trans hc.boxed, ?_⟩,
      ⟨?_, ?_, ?_⟩, drain, ?_, ?_⟩
    -- The call that was logged is a write, not a close.
    · rw [h₂.calls, h₁.calls, List.mem_append, List.mem_singleton, not_or]
      exact ⟨hc.notClosed, StreamCall.noConfusion⟩
    · rw [h₂.streamOpen, hgopen, hopen₁]
    · rw [h₂.pending, Gate.State.pending_eq_nil _ hgopen, ← g.pending_eq_nil hgate, ← hr.pending,
        h₁.pending]
    · rw [h₂.calls, hgwire, ← hr.wire, h₁.calls, written_append, written_write]
    · rw [h₂.accepted, h₁.accepted]
    · rw [if_pos (Gate.fits_of_opened hgate bytes), held, h₂.fired, h₂.pendingDrains, h₂.drains,
        h₁.fired, h₁.pendingDrains, h₁.drains, ← List.append_assoc]
      exact List.Perm.refl _
  | false =>
    have hopen₁ : c₁.streamOpen = false := h₁.streamOpen.trans hopen
    have hgate : g.opened = false := by rw [← hr.opened, hopen]
    have hfull := not_fits_iff hr hopen bytes
    rw [← h₁.pending] at hfull
    by_cases hfits : Gate.Fits kMaxPendingBytes g bytes
    · have h₂ := hread _ _ (write_buffered hopen₁ (mt hfull.mpr (not_not.mpr hfits))) h₁.alive
        (by decide)
      obtain ⟨hgopen, hgpending, hgwire⟩ := Gate.step_write_of_fits hgate hfits
      refine ⟨h₂.alive, ⟨h₂.stream.trans hstream, (h₂.boxed.trans h₁.boxed).trans hc.boxed, ?_⟩,
        ⟨?_, ?_, ?_⟩, drain, ?_, ?_⟩
      · rw [h₂.calls, h₁.calls]
        exact hc.notClosed
      · rw [h₂.streamOpen, hgopen, hopen₁]
      · rw [h₂.pending, hgpending, ← hr.pending, h₁.pending]
      · rw [h₂.calls, hgwire, ← hr.wire, h₁.calls]
      · rw [h₂.accepted, h₁.accepted]
      · rw [if_pos hfits, held, held, h₂.fired, h₂.pendingDrains, h₂.drains, h₁.fired,
          h₁.pendingDrains, h₁.drains, ← List.append_assoc c.fired,
          List.append_assoc (c.fired ++ c.pendingDrains),
          List.append_assoc (c.fired ++ c.pendingDrains)]
        -- The withheld `on_drain` stands behind the withheld ones, in front of those underway.
        exact List.perm_append_comm.append_left _
    · have h₂ := hread _ _ (write_dropped hopen₁ (hfull.mp hfits)) h₁.alive (by decide)
      rw [Gate.step_write_of_not_fits hfits]
      refine ⟨h₂.alive, ⟨h₂.stream.trans hstream, (h₂.boxed.trans h₁.boxed).trans hc.boxed, ?_⟩,
        ⟨?_, ?_, ?_⟩, drain, ?_, ?_⟩
      · rw [h₂.calls, h₁.calls]
        exact hc.notClosed
      · rw [h₂.streamOpen, hopen₁, hgate]
      · rw [h₂.pending, ← hr.pending, h₁.pending]
      · rw [h₂.calls, ← hr.wire, h₁.calls]
      · rw [h₂.accepted, h₁.accepted]
      · rw [if_neg hfits, List.append_nil, held, held, h₂.fired, h₂.pendingDrains, h₂.drains,
          h₁.fired, h₁.pendingDrains, h₁.drains]

/-- The connection once `stream_open_cb` has flushed the buffer. -/
def flushed (a : Answers) (c : Conn) : Conn :=
  { c with
    streamOpen := true
    pending := []
    pendingDrains := []
    calls := c.calls ++ if c.pending = [] then [] else [.write c.pending a.write] }

/-- `stream_open_cb` flushes the buffer and calls the withheld `on_drain`s, unless the flush is
refused. -/
theorem streamOpenCb_eq (hc : Connected c) :
    c.streamOpenCb a = if c.pending ≠ [] ∧ a.write < 0 then c.flushed a
      else c.pendingDrains.foldl (fireDrain a.uv) (c.flushed a) := by
  obtain ⟨hstream, hboxed, -⟩ := hc
  by_cases hpending : c.pending = []
  · rw [if_neg fun h ↦ h.1 hpending]
    simp only [streamOpenCb, flush, releaseDrains, hboxed, Bool.true_eq_false, if_false,
      if_pos hpending, flushed, List.append_nil, show ¬(0 : ℤ) < 0 by decide]
    rw [hpending]
  · by_cases hrc : a.write < 0
    · rw [if_pos ⟨hpending, hrc⟩]
      simp only [streamOpenCb, flush, streamWrite, hboxed, Bool.true_eq_false, if_false, hstream,
        if_true, if_neg hpending, if_pos hrc, flushed]
    · rw [if_neg fun h ↦ hrc h.2]
      simp only [streamOpenCb, flush, releaseDrains, streamWrite, hboxed, Bool.true_eq_false,
        if_false, hstream, if_true, if_neg hpending, if_neg hrc, flushed]

theorem flushed_refines (hr : Refines c g) :
    Refines (c.flushed a) (Gate.step kMaxPendingBytes g .openUp) := by
  refine ⟨rfl, rfl, ?_⟩
  rw [flushed, written_append, hr.wire]
  by_cases hpending : c.pending = []
  · rw [if_pos hpending, Gate.step, ← hr.pending, hpending]
    rfl
  · rw [if_neg hpending, written_write, Gate.step, hr.pending]

/-- **The opening** opens the gate. Unless the flush is refused, no `on_drain` is lost. -/
theorem streamOpenCb_refines (h : Alive c) (hc : Connected c) (hr : Refines c g) :
    Alive (c.streamOpenCb a) ∧ Connected (c.streamOpenCb a) ∧
      Refines (c.streamOpenCb a) (Gate.step kMaxPendingBytes g .openUp) ∧
      (c.streamOpenCb a).accepted = c.accepted ∧
      (0 ≤ a.write → held (c.streamOpenCb a) = held c) := by
  have hflush := flushed_refines (a := a) hr
  have hnotClosed : .close ∉ (c.flushed a).calls := by
    rw [flushed, List.mem_append, not_or]
    refine ⟨hc.notClosed, ?_⟩
    split_ifs
    · exact List.not_mem_nil
    · exact fun h ↦ StreamCall.noConfusion (List.mem_singleton.mp h)
  rw [streamOpenCb_eq hc]
  split_ifs with hrefused
  · exact ⟨h, ⟨hc.stream, hc.boxed, hnotClosed⟩, hflush, rfl,
      fun hrc ↦ absurd hrefused.2 (by omega)⟩
  · have hfired := carrying_foldl_fireDrain (c := c.flushed a) h a.uv c.pendingDrains
    refine ⟨hfired.alive, ⟨hfired.stream.trans hc.stream, hfired.boxed.trans hc.boxed,
      by rw [hfired.calls]; exact hnotClosed⟩,
      ⟨hfired.streamOpen.trans hflush.opened, hfired.pending.trans hflush.pending, ?_⟩,
      hfired.accepted, fun _ ↦ ?_⟩
    · rw [hfired.calls]
      exact hflush.wire
    · rw [held, held, hfired.fired, hfired.pendingDrains, hfired.drains]
      exact congrArg (· ++ c.drains) (List.append_nil _)

/-- **An ack** moves one `on_drain` to those that were called. -/
theorem drainCb_refines {drain : Drain} (h : Alive c) (hc : Connected c) (hr : Refines c g)
    (hmem : drain ∈ c.drains) (uv : Uv) :
    Alive (c.drainCb uv drain) ∧ Connected (c.drainCb uv drain) ∧ Refines (c.drainCb uv drain) g ∧
      (c.drainCb uv drain).accepted = c.accepted ∧ (held (c.drainCb uv drain)).Perm (held c) := by
  have hfired := carrying_fireDrain
    (c := { c with drains := c.drains.erase drain, freed := c.freed ++ [drain] }) h uv drain
  refine ⟨hfired.alive, ⟨hfired.stream.trans hc.stream, hfired.boxed.trans hc.boxed,
    by rw [drainCb, hfired.calls]; exact hc.notClosed⟩,
    ⟨hfired.streamOpen.trans hr.opened, hfired.pending.trans hr.pending, ?_⟩, hfired.accepted, ?_⟩
  · rw [drainCb, hfired.calls]
    exact hr.wire
  · rw [drainCb, held, held, hfired.fired, hfired.pendingDrains, hfired.drains]
    have herase := (List.perm_cons_erase hmem).symm.append_left (c.fired ++ c.pendingDrains)
    refine List.Perm.trans ?_ herase
    rw [List.append_assoc, List.append_assoc, List.append_assoc]
    have hmiddle : (drain :: (c.pendingDrains ++ c.drains.erase drain)).Perm
        (c.pendingDrains ++ drain :: c.drains.erase drain) := List.perm_middle.symm
    exact hmiddle.append_left c.fired

theorem connectCb_refines (h : Alive c) (hc : Connected c) (hr : Refines c g) (uv : Uv) :
    Alive (c.step (.connected 0 uv)) ∧ Connected (c.step (.connected 0 uv)) ∧
      Refines (c.step (.connected 0 uv)) g ∧
      (c.step (.connected 0 uv)).accepted = c.accepted ∧
      held (c.step (.connected 0 uv)) = held c := by
  have hready := carrying_connectCb (a := {}) h uv
  refine ⟨hready.alive, ⟨hready.stream.trans hc.stream, hready.boxed.trans hc.boxed,
    by rw [step, hready.calls]; exact hc.notClosed⟩,
    ⟨hready.streamOpen.trans hr.opened, hready.pending.trans hr.pending, ?_⟩, hready.accepted, ?_⟩
  · rw [step, hready.calls]
    exact hr.wire
  · rw [step, held, held, hready.fired, hready.pendingDrains, hready.drains]

end Step

/-! ## Runs -/

/-- The bytes an event brings from the local socket. -/
def Event.readBytes : Event → Bytes
  | .read (.data bytes) _ => bytes
  | _ => []

def Event.isOpen : Event → Bool
  | .streamOpen _ => true
  | _ => false

/-- All that was read from the local socket. -/
def readBytes (es : List Event) : Bytes := es.flatMap Event.readBytes

theorem readBytes_cons (e : Event) (es : List Event) :
    readBytes (e :: es) = e.readBytes ++ readBytes es := List.flatMap_cons

/-- How many bytes are read before the stream opens. -/
def preOpenBytes (es : List Event) : ℕ := (readBytes (es.takeWhile fun e ↦ !e.isOpen)).length

theorem preOpenBytes_read (bytes : Bytes) (a : Answers) (es : List Event) :
    preOpenBytes (.read (.data bytes) a :: es) = bytes.length + preOpenBytes es :=
  List.length_append

theorem preOpenBytes_connected (status : ℤ) (uv : Uv) (es : List Event) :
    preOpenBytes (.connected status uv :: es) = preOpenBytes es := rfl

/-- What an event is to the gate. -/
def Event.gate : Event → List (Gate.Event UInt8)
  | .read (.data bytes) _ => if bytes = [] then [] else [.write bytes]
  | .streamOpen _ => [.openUp]
  | _ => []

theorem gate_read {bytes : Bytes} (h : bytes ≠ []) (a : Answers) :
    (Event.read (.data bytes) a).gate = [.write bytes] := if_neg h

def gateAfter (es : List Event) : Gate.State UInt8 :=
  run (Gate.step kMaxPendingBytes) {} (es.flatMap Event.gate)

theorem gateAfter_concat (es : List Event) (e : Event) :
    gateAfter (es ++ [e]) = run (Gate.step kMaxPendingBytes) (gateAfter es) e.gate := by
  rw [gateAfter, List.flatMap_append, run_append, List.flatMap_singleton]
  rfl

def reads (es : List Event) : List Bytes := Gate.written (es.flatMap Event.gate)

/-- The reads of a run that are not dropped. -/
def keptReads (es : List Event) : List Bytes :=
  Gate.kept kMaxPendingBytes {} (es.flatMap Event.gate)

theorem keptReads_sublist (es : List Event) : (keptReads es).Sublist (reads es) :=
  Gate.kept_sublist {} _

theorem reads_concat (es : List Event) (e : Event) :
    reads (es ++ [e]) = reads es ++ Gate.written e.gate := by
  rw [reads, List.flatMap_append, Gate.written_append, List.flatMap_singleton]
  rfl

theorem keptReads_concat (es : List Event) (e : Event) :
    keptReads (es ++ [e]) = keptReads es ++ Gate.kept kMaxPendingBytes (gateAfter es) e.gate := by
  rw [keptReads, List.flatMap_append, Gate.kept_append, List.flatMap_singleton]
  rfl

theorem keptReads_concat_read {bytes : Bytes} (h : bytes ≠ []) (es : List Event) (a : Answers) :
    keptReads (es ++ [.read (.data bytes) a])
      = keptReads es
        ++ if Gate.Fits kMaxPendingBytes (gateAfter es) bytes then [bytes] else [] := by
  rw [keptReads_concat, gate_read h]
  rfl

theorem flatten_reads (es : List Event) : (reads es).flatten = readBytes es := by
  rw [reads]
  induction es with
  | nil => rfl
  | cons e es ih =>
    rw [List.flatMap_cons, Gate.written_append, List.flatten_append, ih, readBytes_cons]
    congr 1
    cases e with
    | read nread a =>
      cases nread with
      | data bytes =>
        rw [Event.gate, Event.readBytes]
        split_ifs with hne
        · exact hne.symm
        · exact List.append_nil bytes
      | _ => rfl
    | _ => rfl

theorem preOpen_gate (es : List Event) :
    Gate.preOpen (es.flatMap Event.gate) = preOpenBytes es := by
  induction es with
  | nil => rfl
  | cons e es ih =>
    cases e with
    | read nread a =>
      cases nread with
      | data bytes =>
        rw [preOpenBytes_read, ← ih, List.flatMap_cons, Event.gate]
        split_ifs with hne
        · rw [hne, List.length_nil, Nat.zero_add, List.nil_append]
        · rfl
      | _ => exact ih
    | streamOpen a => rfl
    | _ => exact ih

theorem opens_gate (es : List Event) :
    Gate.Opens (es.flatMap Event.gate) ↔ ∃ a, Event.streamOpen a ∈ es := by
  rw [Gate.Opens, List.mem_flatMap]
  constructor
  · rintro ⟨e, hmem, hgate⟩
    cases e with
    | streamOpen a => exact ⟨a, hmem⟩
    | read nread a =>
      cases nread with
      | data bytes =>
        rw [Event.gate] at hgate
        split_ifs at hgate <;> simp at hgate
      | _ => exact absurd hgate List.not_mem_nil
    | _ => exact absurd hgate List.not_mem_nil
  · rintro ⟨a, hmem⟩
    exact ⟨_, hmem, List.mem_singleton.mpr rfl⟩

theorem ne_nil_of_mem_reads (es : List Event) : ∀ item ∈ reads es, item ≠ [] := by
  rw [reads]
  induction es with
  | nil => exact fun item hitem ↦ absurd hitem List.not_mem_nil
  | cons e es ih =>
    rw [List.flatMap_cons, Gate.written_append]
    intro item hitem
    rcases List.mem_append.mp hitem with hhead | htail
    · cases e with
      | read nread a =>
        cases nread with
        | data bytes =>
          rw [Event.gate] at hhead
          split_ifs at hhead with hne
          · exact absurd hhead List.not_mem_nil
          · rw [List.mem_singleton.mp hhead]
            exact hne
        | _ => exact absurd hhead List.not_mem_nil
      | _ => exact absurd hhead List.not_mem_nil
    · exact ih item htail

/-- Nothing is dropped exactly if no more is read before the opening than the buffer holds. -/
theorem keptReads_eq_reads_iff (es : List Event) :
    keptReads es = reads es ↔ preOpenBytes es ≤ kMaxPendingBytes := by
  have hroom := Gate.kept_eq_written_iff (k := kMaxPendingBytes) (g := {}) rfl (Nat.zero_le _)
    (es.flatMap Event.gate)
  rwa [List.length_nil, Nat.zero_add, preOpen_gate] at hroom

/-- A TCP connection whose local connect is under way. -/
def dialing : Conn := connectionCb false {}

theorem alive_dialing : Alive dialing := ⟨_, rfl, rfl, rfl⟩

theorem connected_dialing : Connected dialing := ⟨rfl, rfl, List.not_mem_nil⟩

theorem refines_dialing : Refines dialing (gateAfter []) := ⟨rfl, rfl, rfl⟩

theorem step_read_data {c : Conn} (h : Alive c) (bytes : Bytes) (a : Answers) :
    c.step (.read (.data bytes) a) = TcpPipe.readCb (tcpHost a) (.data bytes) c := by
  obtain ⟨p, htcp, -⟩ := h
  have hsame : (tcpHost a).modify (TcpPipe.markEnded (.data bytes)) c = c := by
    simp only [TcpPipe.Host.modify, tcpHost, htcp, Option.getD_some, TcpPipe.markEnded,
      reduceCtorEq,
      if_false]
    rw [← htcp]
  rw [step, hsame]

end Conn

end HolesailServer

end Holesail
