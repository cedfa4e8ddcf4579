import Holesail.Pipe.Bench

/-!
# The end of the local stream

At `UV_EOF` the pipe stops reading and half-closes its stream. It does not remember that it did: an
`on_drain` of a write that was accepted before still finds room in the window and starts to read
again, and libuv reports the end of file once more.

## Main result

`handlesEnd_iff_spared`: in a run the end of file is handled once exactly when no `on_drain` is
called between it and the end of the pipe.
-/

namespace Holesail

namespace TcpBench

open Run TcpPipe

/-! ## What is to be shown -/

/-- How often the stream was told to close. -/
def closes (w : TcpBench) : ℕ := w.log.count .close

/-- How often libuv was told to read. -/
def starts (w : TcpBench) : ℕ := w.log.count .readStart

/-- The event, if libuv agrees to `uv_read_start`. -/
def Event.sure : Event → Event
  | .adopt uv accepted => .adopt { uv with readStart := 0 } accepted
  | .connected uv status => .connected { uv with readStart := 0 } status
  | .drained d uv => .drained d { uv with readStart := 0 }
  | e => e

/-- `uv_read_start` is called. It is called before its answer is known, so it is called when it
would be if the answer were yes. -/
def StartsReading (w : TcpBench) (e : Event) : Prop := starts w < starts (step w e.sure)

/-- Once the end of file was read, libuv is never told to read again, and while the pipe is not
destroyed its stream is closed once. -/
def HandlesEnd (w : TcpBench) (e : Event) : Prop :=
  (w.eof = true → ¬StartsReading w e) ∧
    ((step w e).pipe.destroyed = false → closes (step w e) ≤ 1)

def Event.isDrained : Event → Bool
  | .drained _ _ => true
  | _ => false

/-- No `on_drain` is called between the end of file and the end of the pipe. -/
def Spared (w : TcpBench) (e : Event) : Prop :=
  w.eof = true → w.pipe.destroyed = false → e.isDrained = false

instance (w : TcpBench) (e : Event) : Decidable (StartsReading w e) :=
  inferInstanceAs (Decidable (_ < _))

instance (w : TcpBench) (e : Event) : Decidable (HandlesEnd w e) :=
  inferInstanceAs (Decidable (_ ∧ _))

instance (w : TcpBench) (e : Event) : Decidable (Spared w e) :=
  inferInstanceAs (Decidable (_ → _ → _))

/-! ## The other direction does not matter -/

/-- As far as reading goes, `w'` is where `w` is. -/
structure Alike (w w' : TcpBench) : Prop where
  destroyed : w'.pipe.destroyed = w.pipe.destroyed
  pending : w'.pipe.streamPendingBytes = w.pipe.streamPendingBytes
  reading : w'.pipe.reading = w.pipe.reading
  connecting : w'.pipe.tcp.map UvTcp.connecting = w.pipe.tcp.map UvTcp.connecting
  held : w'.held = w.held
  eof : w'.eof = w.eof

theorem Alike.refl (w : TcpBench) : Alike w w := ⟨rfl, rfl, rfl, rfl, rfl, rfl⟩

theorem Alike.trans {u v w : TcpBench} (h : Alike u v) (h' : Alike v w) : Alike u w where
  destroyed := h'.destroyed.trans h.destroyed
  pending := h'.pending.trans h.pending
  reading := h'.reading.trans h.reading
  connecting := h'.connecting.trans h.connecting
  held := h'.held.trans h.held
  eof := h'.eof.trans h.eof

theorem alike_of_tcp {w w' : TcpBench} {t t' : UvTcp} (htcp : w.pipe.tcp = some t)
    (htcp' : w'.pipe.tcp = some t') (hconnecting : t'.connecting = t.connecting)
    (hdestroyed : w'.pipe.destroyed = w.pipe.destroyed)
    (hpending : w'.pipe.streamPendingBytes = w.pipe.streamPendingBytes)
    (hreading : w'.pipe.reading = w.pipe.reading) (hheld : w'.held = w.held)
    (heof : w'.eof = w.eof) : Alike w w' := by
  refine ⟨hdestroyed, hpending, hreading, ?_, hheld, heof⟩
  rw [htcp, htcp', Option.map_some, Option.map_some, hconnecting]

/-- Nothing starts to read, and the pipe is destroyed or reads as before. -/
structure Still (w w' : TcpBench) : Prop where
  starts : starts w' = starts w
  alike : w'.pipe.destroyed = true ∨ Alike w w' ∧ closes w' = closes w

theorem count_append_of_not_mem {c : Call} {calls : List Call} (h : c ∉ calls) (log : List Call) :
    (log ++ calls).count c = log.count c := by
  rw [List.count_append, List.count_eq_zero_of_not_mem h, Nat.add_zero]

theorem starts_append {l : List Call} (h : .readStart ∉ l) {w w' : TcpBench}
    (hlog : w'.log = w.log ++ l) : starts w' = starts w := by
  rw [starts, hlog, count_append_of_not_mem h, starts]

theorem closes_append {l : List Call} (h : .close ∉ l) {w w' : TcpBench}
    (hlog : w'.log = w.log ++ l) : closes w' = closes w := by
  rw [closes, hlog, count_append_of_not_mem h, closes]

theorem Alike.still {w w' : TcpBench} (h : Alike w w') {l : List Call}
    (hlog : w'.log = w.log ++ l) (hstart : .readStart ∉ l) (hclose : .close ∉ l) :
    Still w w' := ⟨starts_append hstart hlog, .inr ⟨h, closes_append hclose hlog⟩⟩

theorem destroyed_ended (w : TcpBench) : (ended w).pipe.destroyed = true := by
  rw [ended.eq_def]
  split <;> rfl

theorem starts_ended (w : TcpBench) : starts (ended w) = starts w := by
  rw [ended.eq_def]
  split
  · refine starts_append (l := .close :: if w.pipe.onDestroy then [.onDestroy] else []) ?_ rfl
    split_ifs <;> decide
  · exact starts_append (l := [.close, .uvClose]) (by decide) rfl

theorem still_move {w w' : TcpBench} (hs : Sound w) (h : Move False w w') : Still w w' := by
  cases h with
  | aside hout => exact hout.elim
  | write hout => exact hout.elim
  | opened hout => exact hout.elim
  | startReading hout => exact hout.elim
  | stopReading hout => exact hout.elim
  | @push t data htcp hopen =>
    rw [shut]
    split_ifs
    · refine Alike.still (l := [.uvWrite data, .pause])
        (alike_of_tcp htcp rfl rfl rfl rfl rfl rfl rfl) (List.append_assoc _ _ _) ?_ ?_ <;>
      simp only [List.mem_cons, List.not_mem_nil, reduceCtorEq, or_self, not_false_iff]
    · refine Alike.still (l := [.uvWrite data])
        (alike_of_tcp htcp rfl rfl rfl rfl rfl rfl rfl) rfl ?_ ?_ <;>
      simp only [List.mem_cons, List.not_mem_nil, reduceCtorEq, or_self, not_false_iff]
  | completed htcp hi =>
    rw [reopened]
    split_ifs
    · exact Alike.still (l := [.resume]) (alike_of_tcp htcp rfl rfl rfl rfl rfl rfl rfl) rfl
        (by decide) (by decide)
    · exact ⟨rfl, .inr ⟨alike_of_tcp htcp rfl rfl rfl rfl rfl rfl rfl, rfl⟩⟩
  | failed htcp hi hended => exact ⟨rfl, .inl hended⟩
  | broken htcp hi hopen => exact ⟨starts_ended _, .inl (destroyed_ended _)⟩
  | finished => exact ⟨rfl, .inr ⟨⟨rfl, rfl, rfl, rfl, rfl, rfl⟩, rfl⟩⟩
  | ended hopen => exact ⟨starts_ended w, .inl (destroyed_ended w)⟩
  | closed htcp hclosing hidle =>
    refine ⟨starts_append (l := .closed :: if w.pipe.onDestroy then [.onDestroy] else []) ?_ rfl,
      .inl (hs.destroyed_of_closing htcp hclosing)⟩
    split_ifs <;> decide

theorem still_of_moves {w w' : TcpBench} (hs : Sound w) (h : Moves False w w') : Still w w' := by
  have hkept : Sound w' ∧ Still w w' := by
    refine h.keep (P := fun v ↦ Sound v ∧ Still w v) (fun {u v} hu hmove ↦ ?_)
      ⟨hs, rfl, .inr ⟨.refl w, rfl⟩⟩
    have hstill := still_move hu.1 hmove
    refine ⟨sound_move hu.1 hmove, hstill.starts.trans hu.2.starts, ?_⟩
    rcases hu.2.alike with hended | ⟨halike, hcloses⟩
    · exact .inl (final_move hmove hended).1
    · exact hstill.alike.imp id fun h ↦ ⟨halike.trans h.1, h.2.trans hcloses⟩
  exact hkept.2

/-! ## The end of file, handled once -/

/-- Where a pipe is that has handled its end of file once so far. -/
structure Once (w : TcpBench) : Prop where
  /-- Nothing is read before the pipe is connected. -/
  idle : w.pipe.destroyed = false → (∀ t ∈ w.pipe.tcp, t.connecting = true) →
    w.pipe.streamPendingBytes = 0 ∧ w.pipe.reading = false ∧ w.eof = false ∧ w.held = []
  /-- The pipe reads only with room in the window. -/
  room : w.pipe.reading = true → w.pipe.streamPendingBytes < kStreamHighWaterMark
  handled : w.eof = true → w.pipe.destroyed = false →
    w.pipe.reading = false ∧ w.pipe.streamPendingBytes < kStreamHighWaterMark ∧ closes w = 1
  unended : w.eof = false → w.pipe.destroyed = false → closes w = 0

theorem once_of_destroyed {w : TcpBench} (hs : Sound w) (hended : w.pipe.destroyed = true) :
    Once w := by
  have hopen : w.pipe.destroyed ≠ false := fun h ↦ Bool.false_ne_true (h.symm.trans hended)
  exact ⟨fun h ↦ absurd h hopen, fun h ↦ absurd ((hs.stopped hended).symm.trans h)
    Bool.false_ne_true, fun _ h ↦ absurd h hopen, fun _ h ↦ absurd h hopen⟩

theorem forall_connecting_iff {tcp : Option UvTcp} :
    (∀ t ∈ tcp, t.connecting = true) ↔ ∀ b ∈ tcp.map UvTcp.connecting, b = true := by
  cases tcp with
  | none => exact ⟨fun _ _ h ↦ absurd h (Option.not_mem_none _),
      fun _ _ h ↦ absurd h (Option.not_mem_none _)⟩
  | some t =>
    constructor
    · rintro h b ⟨⟩
      exact h t rfl
    · rintro h t' ⟨⟩
      exact h t.connecting rfl

theorem Once.alike {w w' : TcpBench} (hw : Once w) (h : Alike w w')
    (hcloses : closes w' = closes w) : Once w' where
  idle := by
    rw [h.destroyed, forall_connecting_iff, h.connecting, ← forall_connecting_iff, h.pending,
      h.reading, h.eof, h.held]
    exact hw.idle
  room := by
    rw [h.reading, h.pending]
    exact hw.room
  handled := by
    rw [h.eof, h.destroyed, h.reading, h.pending, hcloses]
    exact hw.handled
  unended := by
    rw [h.eof, h.destroyed, hcloses]
    exact hw.unended

theorem Once.still {w w' : TcpBench} (hw : Once w) (hs : Sound w') (h : Still w w') : Once w' := by
  rcases h.alike with hended | ⟨halike, hcloses⟩
  · exact once_of_destroyed hs hended
  · exact hw.alike halike hcloses

/-! ## The events of the direction toward the stream -/

section Callbacks

variable {r : ℤ} {w : TcpBench}

theorem close_not_mem_told (p p' : TcpPipe) : .close ∉ told p p' := by
  intro h
  rcases List.mem_append.mp h with h | h
  · split_ifs at h
    · exact absurd h (by decide)
    · exact absurd h List.not_mem_nil
  · obtain ⟨data, -, heq⟩ := List.mem_map.mp h
    exact Call.noConfusion heq

theorem closes_modify (f : TcpPipe → TcpPipe) : closes ((host r).modify f w) = closes w :=
  closes_append (close_not_mem_told w.pipe (f w.pipe)) rfl

theorem plain_host (r : ℤ) : (host r).Plain where
  pipe_setPipe _ _ := rfl
  pipe_write data onDrain w := by
    change (if r < 0 then w.call (.write data r) else _).pipe = w.pipe
    split_ifs <;> rfl
  pipe_pause _ := rfl
  pipe_resume _ := rfl
  pipe_close _ := rfl
  pipe_uvClose _ _ := rfl
  pipe_onReady _ _ := rfl
  pipe_onDestroy _ := rfl

theorem destroyed_destroy : (destroy (host r) w).pipe.destroyed = true :=
  (plain_host r).destroyed_destroy w

theorem destroyed_readCb_error (v : TcpBench) :
    (readCb (host r) .error v).pipe.destroyed = true := by
  rw [readCb.eq_def]
  split_ifs with hended
  · exact hended
  · exact destroyed_destroy

/-- What is known of a pipe that is not connected, and goes on when it is opened. -/
theorem Once.opened (hw : Once w) (hopen : w.pipe.destroyed = false)
    (hconnecting : ∀ t ∈ w.pipe.tcp, t.connecting = true) {w' : TcpBench}
    (hpending : w'.pipe.streamPendingBytes = w.pipe.streamPendingBytes) (heof : w'.eof = w.eof)
    (hheld : w'.held = w.held) (hcloses : closes w' = closes w)
    (hreading : (∀ t ∈ w'.pipe.tcp, t.connecting = true) → w'.pipe.reading = false) : Once w' := by
  obtain ⟨hempty, -, hnoeof, hnone⟩ := hw.idle hopen hconnecting
  have hnoeof' : w'.eof = false := heof.trans hnoeof
  constructor
  · exact fun _ h ↦ ⟨hpending.trans hempty, hreading h, hnoeof', hheld.trans hnone⟩
  · intro _
    rw [hpending, hempty]
    decide
  · exact fun h ↦ absurd (hnoeof'.symm.trans h) Bool.false_ne_true
  · exact fun _ _ ↦ hcloses.trans (hw.unended hnoeof hopen)

theorem once_connect (hs : Sound w) (hw : Once w) (uv : Uv) (id : ℕ) (onReady : Bool)
    (hnone : w.pipe.tcp = none) : Once (connect (host r) uv id onReady w).2 := by
  have hs' := (moves_connect (r := r) hs uv id onReady hnone).sound hs
  have hconnecting : ∀ t ∈ w.pipe.tcp, t.connecting = true := by
    intro t ht
    rw [hnone] at ht
    exact absurd ht (Option.not_mem_none t)
  simp only [connect] at hs' ⊢
  split_ifs at hs' ⊢ with hended <;> dsimp only at hs' ⊢
  · exact hw
  · exact hw
  · exact once_of_destroyed hs' destroyed_destroy
  · exact once_of_destroyed hs' destroyed_destroy
  · have hopen : w.pipe.destroyed = false := Bool.of_not_eq_true hended
    refine hw.opened hopen hconnecting rfl rfl rfl ?_ fun _ ↦ (hw.idle hopen hconnecting).2.1
    rw [closes_modify, closes_modify, closes_modify]

theorem forall_connecting_of_turned {p p' : TcpPipe} (h : p.Turned p') :
    (∀ t ∈ p'.tcp, t.connecting = true) ↔ ∀ t ∈ p.tcp, t.connecting = true := by
  rw [forall_connecting_iff, forall_connecting_iff, h.map fun _ _ _ ↦ rfl]

theorem not_forall_connecting {tcp : Option UvTcp} (h : tcp.map UvTcp.connecting = some false) :
    ¬∀ t ∈ tcp, t.connecting = true := by
  rw [forall_connecting_iff, h]
  exact fun hall ↦ Bool.false_ne_true (hall false rfl)

theorem once_adopt (hw : Once w) (uv : Uv) (accepted : Option UvTcp)
    (hnone : w.pipe.tcp = none) (hfresh : ∀ t ∈ accepted, Fresh t) :
    Once (adopt (host r) uv accepted w).2 := by
  have hconnecting : ∀ t ∈ w.pipe.tcp, t.connecting = true := by
    intro t ht
    rw [hnone] at ht
    exact absurd ht (Option.not_mem_none t)
  rw [adopt.eq_def]
  split
  · exact hw
  · next t =>
    split_ifs with hended
    · exact hw
    · have hopen : w.pipe.destroyed = false := Bool.of_not_eq_true hended
      refine hw.opened hopen hconnecting (turned_startReading _ uv).streamPendingBytes rfl rfl
        (closes_modify _) ?_
      refine fun h ↦ absurd h (not_forall_connecting ?_)
      refine ((turned_startReading _ uv).map fun _ _ _ ↦ rfl).trans ?_
      rw [Option.map_some, (hfresh t rfl).2.2.1]

theorem once_connectCb (hs : Sound w) (hw : Once w) (uv : Uv) (status : ℤ) {t : UvTcp}
    (htcp : w.pipe.tcp = some t) (hconnecting : t.connecting = true) :
    Once (connectCb (host r) uv status w) := by
  have hs' := (moves_connectCb (r := r) hs uv status).sound hs
  by_cases hended : w.pipe.destroyed = true
  · exact once_of_destroyed hs' ((moves_connectCb (r := r) hs uv status).final hended).1
  have hopen : w.pipe.destroyed = false := Bool.of_not_eq_true hended
  have hall : ∀ t ∈ w.pipe.tcp, t.connecting = true := by
    intro t' ht'
    rw [← Option.some.inj (htcp.symm.trans ht')]
    exact hconnecting
  have hstarted : Once ((host r).modify (fun p ↦ p.startReading uv) ((host r).modify (fun p ↦
      { p with tcp := p.tcp.map fun t ↦ { t with connecting := false } }) w)) := by
    refine hw.opened hopen hall (turned_startReading _ uv).streamPendingBytes rfl rfl ?_ ?_
    · rw [closes_modify, closes_modify]
    · refine fun h ↦ absurd h (not_forall_connecting ?_)
      refine ((turned_startReading _ uv).map fun _ _ _ ↦ rfl).trans ?_
      change (w.pipe.tcp.map _).map _ = _
      rw [htcp]
      rfl
  simp only [connectCb] at hs' ⊢
  split_ifs at hs' ⊢
  · exact once_of_destroyed hs' destroyed_destroy
  · exact once_of_destroyed hs' destroyed_destroy
  · exact hstarted.alike ⟨rfl, rfl, rfl, rfl, rfl, rfl⟩
      (closes_append (l := [.onReady 0]) (by decide) rfl)
  · exact hstarted

theorem ack_le (p : TcpPipe) (len : ℕ) :
    (p.ack len).streamPendingBytes ≤ p.streamPendingBytes := Nat.sub_le _ _

theorem resumeReading_of_open {p : TcpPipe} (hopen : p.destroyed = false) (uv : Uv) :
    p.resumeReading uv = p.startReading uv := if_neg (by rw [hopen]; decide)

theorem once_onDrain (hs : Sound w) (hw : Once w) (uv : Uv) {d : Drain} (hd : d ∈ w.held)
    (hspared : w.eof = true → w.pipe.destroyed = true) :
    Once (onDrain (host r) uv d.len { w with held := w.held.erase d }) := by
  have hmoves : Moves True w (onDrain (host r) uv d.len { w with held := w.held.erase d }) :=
    (moves_aside w (w.held.erase d) w.eof).trans (moves_onDrain uv d.len)
  by_cases hended : w.pipe.destroyed = true
  · exact once_of_destroyed (hmoves.sound hs) (hmoves.final hended).1
  have hopen : w.pipe.destroyed = false := Bool.of_not_eq_true hended
  have hnoeof : w.eof = false := Bool.of_not_eq_true fun h ↦ hended (hspared h)
  have hconnected : ¬∀ t ∈ w.pipe.tcp, t.connecting = true := by
    intro h
    rw [(hw.idle hopen h).2.2.2] at hd
    exact absurd hd List.not_mem_nil
  have hacked := ack_le w.pipe d.len
  have hroom : (w.pipe.ack d.len).streamPendingBytes < kStreamHighWaterMark →
      Once ((host r).modify (fun p ↦ p.resumeReading uv)
        ((host r).modify (fun p ↦ p.ack d.len) { w with held := w.held.erase d })) := by
    intro hroom
    have hresumes : (w.pipe.ack d.len).resumeReading uv = (w.pipe.ack d.len).startReading uv :=
      resumeReading_of_open (p := w.pipe.ack d.len) hopen uv
    constructor
    · intro _ h
      change ∀ t ∈ ((w.pipe.ack d.len).resumeReading uv).tcp, _ at h
      rw [hresumes, forall_connecting_of_turned (turned_startReading _ uv)] at h
      exact absurd h hconnected
    · intro _
      change ((w.pipe.ack d.len).resumeReading uv).streamPendingBytes < _
      rwa [hresumes, (turned_startReading _ uv).streamPendingBytes]
    · exact fun h ↦ absurd (hnoeof.symm.trans h) Bool.false_ne_true
    · intro _ _
      rw [closes_modify, closes_modify]
      exact hw.unended hnoeof hopen
  simp only [onDrain]
  split_ifs with hfits
  · exact hroom hfits
  · constructor
    · exact fun _ h ↦ absurd h hconnected
    · exact fun h ↦ Nat.lt_of_le_of_lt hacked (hw.room h)
    · exact fun h ↦ absurd (hnoeof.symm.trans h) Bool.false_ne_true
    · intro _ _
      rw [closes_modify]
      exact hw.unended hnoeof hopen

theorem exists_tcp_of_connected (hconnected : ¬∀ t ∈ w.pipe.tcp, t.connecting = true) :
    ∃ t, w.pipe.tcp = some t := by
  refine Option.ne_none_iff_exists'.mp fun hnone ↦ hconnected fun t ht ↦ ?_
  rw [hnone] at ht
  exact absurd ht (Option.not_mem_none t)

theorem stopReading_of_sound (hs : Sound w) {t : UvTcp} (htcp : w.pipe.tcp = some t) :
    w.pipe.stopReading
      = { w.pipe with tcp := some { t with reading := false }, reading := false } := by
  refine stopReading_of_synced htcp ?_
  have hsynced := hs.synced
  rwa [htcp] at hsynced

theorem once_eof (hs : Sound w) (hw : Once w) (hreading : w.pipe.reading = true)
    (hopen : w.pipe.destroyed = false) (hnoeof : w.eof = false)
    (hconnected : ¬∀ t ∈ w.pipe.tcp, t.connecting = true) :
    Once (readCb (host r) .eof { w with eof := true }) := by
  obtain ⟨t, htcp⟩ := exists_tcp_of_connected hconnected
  have hstopped : w.pipe.stopReading.reading = false := by rw [stopReading_of_sound hs htcp]
  rw [readCb.eq_def, if_neg (by change ¬w.pipe.destroyed = true; rw [hopen]; decide)]
  constructor
  · exact fun _ h ↦ absurd ((forall_connecting_of_turned w.pipe.turned_stopReading).mp h) hconnected
  · exact fun h ↦ absurd (hstopped.symm.trans h) Bool.false_ne_true
  · intro _ _
    refine ⟨hstopped, ?_, ?_⟩
    · exact Nat.lt_of_le_of_lt (Nat.le_of_eq w.pipe.turned_stopReading.streamPendingBytes)
        (hw.room hreading)
    · change List.count Call.close (_ ++ [Call.close]) = 1
      rw [List.count_append]
      exact congrArg (· + 1) ((closes_modify (r := r) (w := { w with eof := true }) _).trans
        (hw.unended hnoeof hopen))
  · exact fun h ↦ absurd h.symm Bool.false_ne_true

theorem once_stopped (hs : Sound w) (hconnected : ¬∀ t ∈ w.pipe.tcp, t.connecting = true)
    (hnoeof : w.eof = false) (hcloses : closes w = 0) : Once ((host r).modify stopReading w) := by
  obtain ⟨t, htcp⟩ := exists_tcp_of_connected hconnected
  have hstopped : w.pipe.stopReading.reading = false := by rw [stopReading_of_sound hs htcp]
  constructor
  · exact fun _ h ↦ absurd ((forall_connecting_of_turned w.pipe.turned_stopReading).mp h) hconnected
  · exact fun h ↦ absurd (hstopped.symm.trans h) Bool.false_ne_true
  · exact fun h ↦ absurd (hnoeof.symm.trans h) Bool.false_ne_true
  · exact fun _ _ ↦ (closes_modify _).trans hcloses

theorem write_accepted (hr : ¬r < 0) (bytes : Bytes) (d : Drain) (v : TcpBench) :
    (host r).stream.write bytes (some d) v
      = (r, { v with log := v.log ++ [.write bytes r], held := v.held ++ [d] }) := by
  simp only [host, if_neg hr]
  rfl

theorem once_data (hs : Sound w) (hw : Once w) (hopen : w.pipe.destroyed = false)
    (hnoeof : w.eof = false) (hconnected : ¬∀ t ∈ w.pipe.tcp, t.connecting = true)
    (bytes : Bytes) : Once (readCb (host r) (.data bytes) w) := by
  have hs' := (moves_readCb (r := r) hs (.data bytes)).sound hs
  have hcloses : ∀ v : TcpBench, v.log = ((host r).modify (fun p ↦
      { p with
        streamPendingBytes := p.streamPendingBytes + bytes.length
        drains := p.drains + 1 }) w).log ++ [.write bytes r] → closes v = 0 := by
    intro v hv
    rw [closes_append (by simp) hv, closes_modify]
    exact hw.unended hnoeof hopen
  rw [readCb.eq_def, if_neg (by change ¬w.pipe.destroyed = true; rw [hopen]; decide)] at hs' ⊢
  by_cases hr : r < 0
  · simp only at hs' ⊢
    split_ifs at hs' ⊢ with hnil hneg
    · exact hw
    · exact once_of_destroyed hs' destroyed_destroy
    · exact absurd hr hneg
    · exact absurd hr hneg
  · simp only [write_accepted hr, if_neg hr] at hs' ⊢
    split_ifs at hs' ⊢ with hnil hfull
    · exact hw
    · refine once_stopped ?_ hconnected hnoeof (hcloses _ rfl)
      exact hs.of_core rfl
    · constructor
      · exact fun _ h ↦ absurd h hconnected
      · exact fun _ ↦ Nat.lt_of_not_le hfull
      · exact fun h ↦ absurd (hnoeof.symm.trans h) Bool.false_ne_true
      · exact fun _ _ ↦ hcloses _ rfl

end Callbacks

/-! ## Every run -/

section Steps

variable {w w' : TcpBench}

theorem Once.of_reading (hs : Sound w) (hw : Once w) {t : UvTcp} (htcp : w.pipe.tcp = some t)
    (hreading : t.reading = true) : w.pipe.reading = true ∧ w.pipe.destroyed = false ∧
      w.eof = false ∧ ¬∀ t ∈ w.pipe.tcp, t.connecting = true := by
  have hreads : w.pipe.reading = true := by
    rw [hs.synced, htcp]
    exact hreading
  have hopen : w.pipe.destroyed = false :=
    Bool.of_not_eq_true fun h ↦ Bool.false_ne_true ((hs.stopped h).symm.trans hreads)
  refine ⟨hreads, hopen, ?_, fun h ↦ ?_⟩
  · exact Bool.of_not_eq_true fun h ↦ Bool.false_ne_true ((hw.handled h hopen).1.symm.trans hreads)
  · exact Bool.false_ne_true ((hw.idle hopen h).2.1.symm.trans hreads)

theorem once_step (hs : Sound w) (hw : Once w) {e : Event} (he : Enabled w e)
    (hspared : Spared w e) : Once (step w e) := by
  have hmoves := moves_step hs he
  cases e with
  | connect uv id onReady => exact once_connect hs hw uv id onReady he
  | adopt uv accepted => exact once_adopt hw uv accepted he.1 he.2
  | connected uv status =>
    obtain ⟨t, htcp, hconnecting⟩ := he
    exact once_connectCb hs hw uv status htcp hconnecting
  | read nread rc =>
    obtain ⟨t, htcp, hreading, -⟩ := he
    obtain ⟨hreads, hopen, hnoeof, hconnected⟩ := hw.of_reading hs htcp hreading
    cases nread with
    | eof =>
      have hseen : step w (.read .eof rc) = readCb (host rc) .eof { w with eof := true } := by
        rw [step, hnoeof]
        rfl
      rw [hseen]
      exact once_eof hs hw hreads hopen hnoeof hconnected
    | error =>
      exact once_of_destroyed (hmoves.sound hs) (destroyed_readCb_error _)
    | data bytes =>
      have hsame : step w (.read (.data bytes) rc) = readCb (host rc) (.data bytes) w := by
        rw [step, decide_eq_false Read.noConfusion, Bool.or_false]
      rw [hsame]
      exact once_data hs hw hopen hnoeof hconnected bytes
  | drained d uv =>
    refine once_onDrain hs hw uv he fun heof ↦ ?_
    exact Bool.of_not_eq_false fun hopen ↦ Bool.false_ne_true (hspared heof hopen).symm
  | written => exact hw.still (hmoves.sound hs) (still_of_moves hs hmoves)
  | closed => exact hw.still (hmoves.sound hs) (still_of_moves hs hmoves)
  | streamData => exact hw.still (hmoves.sound hs) (still_of_moves hs hmoves)
  | streamClose => exact hw.still (hmoves.sound hs) (still_of_moves hs hmoves)
  | destroy => exact hw.still (hmoves.sound hs) (still_of_moves hs hmoves)

theorem starts_eq_of_final (h : work w.log = work w'.log) : starts w = starts w' := by
  have hcount : ∀ log : List Call, log.count .readStart = (work log).count .readStart := by
    intro log
    exact (List.count_filter rfl).symm
  rw [starts, starts, hcount w.log, hcount w'.log, h]

theorem goesOut_sure (e : Event) : e.sure.goesOut = e.goesOut := by cases e <;> rfl

theorem enabled_sure {e : Event} (he : Enabled w e) : Enabled w e.sure := by cases e <;> exact he

theorem startsReading_drained (hw : Once w) (heof : w.eof = true)
    (hopen : w.pipe.destroyed = false) (d : Drain) (uv : Uv) : StartsReading w (.drained d uv) := by
  obtain ⟨hstopped, hroom, -⟩ := hw.handled heof hopen
  obtain ⟨t, htcp⟩ := exists_tcp_of_connected fun h ↦
    Bool.false_ne_true ((hw.idle hopen h).2.2.1.symm.trans heof)
  have hroom' := Nat.lt_of_le_of_lt (ack_le w.pipe d.len) hroom
  have hresumes : (w.pipe.ack d.len).resumeReading { uv with readStart := 0 }
      = { w.pipe.ack d.len with tcp := some { t with reading := true }, reading := true } :=
    (resumeReading_of_open (p := w.pipe.ack d.len) hopen _).trans
      (startReading_of_stopped (p := w.pipe.ack d.len) rfl htcp hstopped hopen)
  have hacked : (host 0).modify (fun p ↦ p.ack d.len) { w with held := w.held.erase d }
      = { w with held := w.held.erase d, pipe := w.pipe.ack d.len } :=
    modify_of_told (told_of_core rfl)
  have hstep : step w (Event.drained d uv).sure = { w with
      held := w.held.erase d
      pipe := { w.pipe.ack d.len with tcp := some { t with reading := true }, reading := true }
      log := w.log ++ [.readStart] } := by
    simp only [Event.sure, step, onDrain, hacked]
    refine (if_pos hroom').trans ?_
    exact modify_of_starts (w := { w with held := w.held.erase d, pipe := w.pipe.ack d.len })
      hresumes htcp hstopped
  rw [StartsReading, hstep]
  change starts w < List.count Call.readStart (w.log ++ [Call.readStart])
  rw [List.count_append]
  exact Nat.lt_succ_self _

theorem not_startsReading (hs : Sound w) (hw : Once w) {e : Event} (he : Enabled w e)
    (heof : w.eof = true) (hspared : Spared w e) : ¬StartsReading w e := by
  have hmoves : Moves e.goesOut w (step w e.sure) := by
    rw [← goesOut_sure]
    exact moves_step hs (enabled_sure he)
  rw [StartsReading]
  by_cases hended : w.pipe.destroyed = true
  · rw [starts_eq_of_final (hmoves.final hended).2]
    exact Nat.lt_irrefl _
  have hopen : w.pipe.destroyed = false := Bool.of_not_eq_true hended
  have hconnected : ¬∀ t ∈ w.pipe.tcp, t.connecting = true := fun h ↦
    Bool.false_ne_true ((hw.idle hopen h).2.2.1.symm.trans heof)
  obtain ⟨t, htcp⟩ := exists_tcp_of_connected hconnected
  have hopened : w.pipe.tcp ≠ none := fun h ↦ Option.some_ne_none t (htcp.symm.trans h)
  cases e with
  | connect => exact absurd he hopened
  | adopt => exact absurd he.1 hopened
  | connected =>
    obtain ⟨t', htcp', hconnecting⟩ := he
    refine absurd (fun t ht ↦ ?_) hconnected
    rwa [Option.some.inj (ht.symm.trans htcp')]
  | read =>
    obtain ⟨t', htcp', hreading, -⟩ := he
    exact absurd ((hw.of_reading hs htcp' hreading).2.2.1.symm.trans heof) Bool.false_ne_true
  | drained => exact absurd (hspared heof hopen).symm Bool.false_ne_true
  | written => exact Nat.not_lt_of_le (Nat.le_of_eq (still_of_moves hs hmoves).starts)
  | closed => exact Nat.not_lt_of_le (Nat.le_of_eq (still_of_moves hs hmoves).starts)
  | streamData => exact Nat.not_lt_of_le (Nat.le_of_eq (still_of_moves hs hmoves).starts)
  | streamClose => exact Nat.not_lt_of_le (Nat.le_of_eq (still_of_moves hs hmoves).starts)
  | destroy => exact Nat.not_lt_of_le (Nat.le_of_eq (still_of_moves hs hmoves).starts)

theorem handlesEnd_iff (hs : Sound w) (hw : Once w) {e : Event} (he : Enabled w e) :
    HandlesEnd w e ↔ Spared w e := by
  constructor
  · rintro ⟨hquiet, -⟩ heof hopen
    cases e with
    | drained d uv => exact absurd (startsReading_drained hw heof hopen d uv) (hquiet heof)
    | _ => rfl
  · intro hspared
    refine ⟨fun heof ↦ not_startsReading hs hw he heof hspared, fun hopen ↦ ?_⟩
    have hw' := once_step hs hw he hspared
    cases heof : (step w e).eof with
    | true => exact Nat.le_of_eq (hw'.handled heof hopen).2.2
    | false =>
      rw [hw'.unended heof hopen]
      exact Nat.zero_le 1

end Steps

theorem once_new (armed : Bool) : Once (new armed) where
  idle _ _ := ⟨rfl, rfl, rfl, rfl⟩
  room h := absurd h Bool.false_ne_true
  handled h := absurd h Bool.false_ne_true
  unended _ _ := rfl

/-- **The end of file is handled once, exactly if nothing drains after it.** In a run of a pipe,
libuv is never told to read again after `UV_EOF`, and the stream is not closed a second time before
`destroy`, if and only if no `on_drain` of an accepted write is called between the end of file and
the end of the pipe. -/
theorem handlesEnd_iff_spared (armed : Bool) (es : List Event)
    (h : Along step Enabled (new armed) es) :
    Along step HandlesEnd (new armed) es ↔ Along step Spared (new armed) es :=
  along_congr_of_invariant (P := fun w ↦ Sound w ∧ Once w)
    (fun _ _ hw he ↦ handlesEnd_iff hw.1 hw.2 he)
    (fun _ _ hw he hspared ↦ ⟨(moves_step hw.1 he).sound hw.1, once_step hw.1 hw.2 he hspared⟩)
    ⟨sound_new armed, once_new armed⟩ h

/-- A byte is read and drained, and then the local end ends. -/
theorem handlesEnd_drained_before :
    Along step HandlesEnd (new true)
      [.adopt {} (some {}), .read (.data [1]) 0, .drained ⟨0, 1⟩ {}, .read .eof 0] :=
  (handlesEnd_iff_spared true _ (by decide)).mpr (by decide)

/-- The local end ends while a byte is not drained yet: the pipe reads again, and closes its stream
again. -/
theorem not_handlesEnd_drained_after :
    let es : List Event := [.adopt {} (some {}), .read (.data [1]) 0, .read .eof 0,
      .drained ⟨0, 1⟩ {}, .read .eof 0]
    Along step Enabled (new true) es ∧ ¬Along step HandlesEnd (new true) es ∧
      (run step (new true) es).pipe.destroyed = false ∧
      (run step (new true) es).log = [.readStart, .write [1] 0, .close, .readStart, .close] := by
  decide

end TcpBench

end Holesail
