import Holesail.Server.Buffering

/-!
# Which runs lose nothing

The comment on the drop branch of `make_side` says that TCP never gets there, because the pipe
stops reading at `kStreamHighWaterMark`, which is the size of the buffer. But the pipe stops only
once it has read that much, and the last read may go beyond the buffer. This file says that nothing
is lost exactly in the runs that read no more than the buffer holds before the stream opens.
-/

namespace Holesail

namespace HolesailServer

namespace Conn

open Run

/-- The events of an undisturbed run: the local connect succeeds, reads bring between 1 and 65536
bytes, and hyperdht accepts every write. -/
def Undisturbed (c : Conn) (e : Event) : Prop :=
  Enabled c e ∧ match e with
    | .connected status _ => status = 0
    | .read (.data bytes) a => 1 ≤ bytes.length ∧ bytes.length ≤ 65536 ∧ 0 ≤ a.write
    | .streamOpen a => 0 ≤ a.write
    | .drained _ _ => True
    | _ => False

instance (c : Conn) : (e : Event) → Decidable (Undisturbed c e)
  | .connected _ _ => inferInstanceAs (Decidable (_ ∧ _ = _))
  | .read (.data _) _ => inferInstanceAs (Decidable (_ ∧ _ ≤ _ ∧ _ ≤ _ ∧ _ ≤ _))
  | .read .eof _ => inferInstanceAs (Decidable (_ ∧ False))
  | .read .error _ => inferInstanceAs (Decidable (_ ∧ False))
  | .written _ => inferInstanceAs (Decidable (_ ∧ False))
  | .closed => inferInstanceAs (Decidable (_ ∧ False))
  | .recv _ _ => inferInstanceAs (Decidable (_ ∧ False))
  | .streamOpen _ => inferInstanceAs (Decidable (_ ∧ _ ≤ _))
  | .streamData _ _ => inferInstanceAs (Decidable (_ ∧ False))
  | .streamClose => inferInstanceAs (Decidable (_ ∧ False))
  | .drained _ _ => inferInstanceAs (Decidable (_ ∧ True))
  | .destroy => inferInstanceAs (Decidable (_ ∧ False))

/-- **Nothing is lost.** Once the stream is open it was handed exactly the bytes read, in order;
and the `on_drain` of every accepted write was called once, or is still kept, once. -/
structure Lossless (es : List Event) (c : Conn) : Prop where
  bytes : c.streamOpen = true → written c.calls = readBytes es
  drains : c.accepted.Perm (held c)

/-- The invariant of undisturbed runs: the connection stands where the gate does, and holds as many
`on_drain`s as there were reads the gate kept. -/
structure Accounts (es : List Event) (c : Conn) : Prop where
  alive : Alive c
  connected : Connected c
  refines : Refines c (gateAfter es)
  accepted : c.accepted.length = (reads es).length
  held : (held c).length = (keptReads es).length
  perm : keptReads es = reads es → c.accepted.Perm (Conn.held c)

theorem accounts_dialing : Accounts [] dialing :=
  ⟨alive_dialing, connected_dialing, refines_dialing, rfl, rfl, fun _ ↦ List.Perm.refl _⟩

/-- An event that is nothing to the gate, or its opening, keeps the accounts if it permutes the
`on_drain`s held. -/
theorem Accounts.of_perm {es : List Event} {e : Event} {c c' : Conn} (h : Accounts es c)
    (halive : Alive c') (hc : Connected c') (hr : Refines c' (gateAfter (es ++ [e])))
    (hgate : e.gate = [] ∨ e.gate = [.openUp]) (haccepted : c'.accepted = c.accepted)
    (hheld : (Conn.held c').Perm (Conn.held c)) : Accounts (es ++ [e]) c' := by
  have hkept : keptReads (es ++ [e]) = keptReads es := by
    rw [keptReads_concat]
    rcases hgate with hgate | hgate <;> rw [hgate] <;> exact List.append_nil _
  have hreads : reads (es ++ [e]) = reads es := by
    rw [reads_concat]
    rcases hgate with hgate | hgate <;> rw [hgate] <;> exact List.append_nil _
  refine ⟨halive, hc, hr, ?_, ?_, fun hall ↦ ?_⟩
  · rw [haccepted, hreads, h.accepted]
  · rw [hheld.length_eq, hkept, h.held]
  · rw [hkept, hreads] at hall
    rw [haccepted]
    exact (h.perm hall).trans hheld.symm

theorem Accounts.read {es : List Event} {c : Conn} (h : Accounts es c) {bytes : Bytes}
    {a : Answers} (hne : bytes ≠ []) (hrc : 0 ≤ a.write) :
    Accounts (es ++ [.read (.data bytes) a]) (c.step (.read (.data bytes) a)) := by
  obtain ⟨halive, hc, hr, drain, haccepted, hheld⟩ :=
    readCb_refines (a := a) h.alive h.connected h.refines hne fun _ ↦ hrc
  have hreads : reads (es ++ [.read (.data bytes) a]) = reads es ++ [bytes] := by
    rw [reads_concat, gate_read hne]
    rfl
  rw [step_read_data h.alive]
  refine ⟨halive, hc, ?_, ?_, ?_, ?_⟩
  · rw [gateAfter_concat, gate_read hne]
    exact hr
  · rw [haccepted, hreads, List.length_append, List.length_append, h.accepted]
    rfl
  · rw [hheld.length_eq, keptReads_concat_read hne, List.length_append, List.length_append, h.held]
    split_ifs <;> rfl
  · rw [keptReads_concat_read hne, hreads]
    by_cases hfits : Gate.Fits kMaxPendingBytes (gateAfter es) bytes
    · rw [if_pos hfits] at hheld ⊢
      intro hall
      rw [haccepted]
      exact ((h.perm (List.append_cancel_right hall)).append_right [drain]).trans hheld.symm
    · -- A dropped read is never made up for.
      rw [if_neg hfits, List.append_nil]
      intro hall
      have hshort := (keptReads_sublist es).length_le
      rw [hall, List.length_append, List.length_singleton] at hshort
      omega

theorem Accounts.step {es : List Event} {c : Conn} (h : Accounts es c) {e : Event}
    (he : Undisturbed c e) : Accounts (es ++ [e]) (c.step e) := by
  obtain ⟨henabled, he⟩ := he
  cases e with
  | connected status uv =>
    subst he
    obtain ⟨halive, hc, hr, haccepted, hheld⟩ :=
      connectCb_refines h.alive h.connected h.refines uv
    refine h.of_perm halive hc ?_ (Or.inl rfl) haccepted (hheld ▸ List.Perm.refl _)
    rw [gateAfter_concat]
    exact hr
  | read nread a =>
    cases nread with
    | data bytes => exact h.read (List.length_pos_iff.mp he.1) he.2.2
    | eof => exact absurd he id
    | error => exact absurd he id
  | streamOpen a =>
    obtain ⟨halive, hc, hr, haccepted, hheld⟩ :=
      streamOpenCb_refines (a := a) h.alive h.connected h.refines
    refine h.of_perm halive hc ?_ (Or.inr rfl) haccepted (List.Perm.of_eq (hheld he))
    rw [gateAfter_concat]
    exact hr
  | drained drain uv =>
    obtain ⟨halive, hc, hr, haccepted, hheld⟩ :=
      drainCb_refines h.alive h.connected h.refines henabled.2 uv
    refine h.of_perm halive hc ?_ (Or.inl rfl) haccepted hheld
    rw [gateAfter_concat]
    exact hr
  | _ => exact absurd he id

theorem accounts_run {es : List Event} (h : Along step Undisturbed dialing es) :
    Accounts es (run step dialing es) :=
  history_of_along accounts_dialing (fun _ _ haccounts he ↦ haccounts.step he) h

theorem Accounts.lossless_iff {es : List Event} {c : Conn} (h : Accounts es c) :
    Lossless es c ↔ keptReads es = reads es := by
  constructor
  · intro hlossless
    refine (keptReads_sublist es).eq_of_length ?_
    rw [← h.held, ← h.accepted, hlossless.drains.length_eq]
  · intro hall
    refine ⟨fun hopen ↦ ?_, h.perm hall⟩
    have hgate : (gateAfter es).opened = true := by rw [← h.refines.opened, hopen]
    have hwire : (gateAfter es).wire ++ (gateAfter es).pending = (keptReads es).flatten :=
      Gate.wire_append_pending_run {} _
    rw [Gate.State.pending_eq_nil _ hgate, List.append_nil, hall, flatten_reads] at hwire
    rw [h.refines.wire, hwire]

/-- **When nothing is lost.** A run of local reads, acks and the opening of the stream, in which
hyperdht accepts every write, loses nothing exactly if it reads at most `kMaxPendingBytes` before
the opening. -/
theorem lossless_iff_preOpenBytes_le {es : List Event} (h : Along step Undisturbed dialing es) :
    Lossless es (run step dialing es) ↔ preOpenBytes es ≤ kMaxPendingBytes :=
  (accounts_run h).lossless_iff.trans (keptReads_eq_reads_iff es)

/-- A greeting before the opening and a line after it, the first acked. -/
theorem lossless_iff_preOpenBytes_le_at :
    Lossless [.connected 0 {}, .read (.data [1, 2]) {}, .streamOpen {}, .read (.data [3]) {},
        .drained ⟨1, 1⟩ {}]
      (run step dialing [.connected 0 {}, .read (.data [1, 2]) {}, .streamOpen {},
        .read (.data [3]) {}, .drained ⟨1, 1⟩ {}]) :=
  (lossless_iff_preOpenBytes_le (by decide)).mpr (by decide)

/-! ## Reading past the buffer -/

/-- The pipe reads, with `n` bytes on their way to a stream that is not open. -/
def Filling (n : ℕ) (c : Conn) : Prop :=
  ∃ p t, c.tcp = some p ∧ p.tcp = some t ∧ (p.destroyed = false ∧ p.closing = false) ∧
    t.reading = true ∧ t.closing = false ∧ t.ended = false ∧ p.streamPendingBytes = n ∧
    c.streamOpen = false

/-- Below the high-water mark the pipe reads on, whether the read was buffered or dropped. -/
theorem Filling.read {n : ℕ} {c : Conn} (h : Filling n c) {bytes : Bytes} (hne : bytes ≠ [])
    (hroom : n + bytes.length < TcpPipe.kStreamHighWaterMark) (a : Answers) :
    Filling (n + bytes.length) (c.step (.read (.data bytes) a)) := by
  obtain ⟨p, t, htcp, ht, hlive, hreading, hclosing, hended, hn, hopen⟩ := h
  rw [step_read_data ⟨p, htcp, hlive⟩]
  have hnot : ¬(1 : ℤ) < 0 := by decide
  have hbelow : ¬TcpPipe.kStreamHighWaterMark ≤ p.streamPendingBytes + bytes.length := by
    rw [hn]
    omega
  let p₁ : TcpPipe := { p with
    streamPendingBytes := p.streamPendingBytes + bytes.length
    drains := p.drains + 1 }
  -- Kept or dropped, the bytes are counted, and the pipe reads on below the high-water mark.
  obtain ⟨c₂, hwrite, htcp₂, hopen₂⟩ : ∃ c₂, (makeSide a).write bytes
      (some ⟨p.drains, bytes.length⟩) { c with tcp := some p₁ } = (1, c₂) ∧ c₂.tcp = some p₁ ∧
        c₂.streamOpen = false := by
    by_cases hfull : kMaxPendingBytes < c.pending.length + bytes.length
    · exact ⟨_, write_dropped hopen hfull, rfl, hopen⟩
    · exact ⟨_, write_buffered hopen hfull, rfl, hopen⟩
  rw [readCb_data_eq htcp hlive.1 hne hwrite, if_neg hnot, pipe_of_tcp htcp₂, if_neg hbelow]
  exact ⟨p₁, t, htcp₂, ht, hlive, hreading, hclosing, hended, congrArg (· + _) hn, hopen₂⟩

theorem Filling.undisturbed {n : ℕ} {c : Conn} (h : Filling n c) {bytes : Bytes}
    (hpos : 1 ≤ bytes.length) (hmax : bytes.length ≤ 65536) :
    Undisturbed c (.read (.data bytes) {}) := by
  obtain ⟨p, t, htcp, ht, -, hreading, hclosing, hended, -, -⟩ := h
  refine ⟨⟨t, ?_, hreading, hclosing, fun h ↦ absurd (hended.symm.trans h) Bool.false_ne_true⟩,
    hpos, hmax, by decide⟩
  rw [TcpPipe.handle, htcp, Option.bind_some, ht]
  rfl

def readOf (n : ℕ) : Event := .read (.data (List.replicate n 0)) {}

/-- Reads that come to 1 byte short of the buffer, and one read more. -/
def overflowing : List Event :=
  [.connected 0 {}, readOf 65536, readOf 65536, readOf 65536, readOf 65535, readOf 2]

theorem undisturbed_overflowing : Along step Undisturbed dialing overflowing := by
  have hfill : Filling 0 (dialing.step (.connected 0 {})) :=
    ⟨_, _, rfl, rfl, ⟨rfl, rfl⟩, rfl, rfl, rfl, rfl, rfl⟩
  have hne : ∀ n : ℕ, List.replicate (n + 1) (0 : UInt8) ≠ [] := fun n ↦ List.cons_ne_nil _ _
  have hnext : ∀ (n m : ℕ) (c : Conn), Filling n c → n + (m + 1) < TcpPipe.kStreamHighWaterMark →
      Filling (n + (m + 1)) (c.step (.read (.data (List.replicate (m + 1) 0)) {})) := by
    intro n m c h hroom
    have hlength := List.length_replicate (n := m + 1) (a := (0 : UInt8))
    have := h.read (hne m) (by rw [hlength]; exact hroom) {}
    rwa [hlength] at this
  have hread : ∀ (n m : ℕ) (c : Conn), Filling n c → m + 1 ≤ 65536 →
      Undisturbed c (.read (.data (List.replicate (m + 1) 0)) {}) := by
    intro n m c h hmax
    exact h.undisturbed (by rw [List.length_replicate]; omega) (by rwa [List.length_replicate])
  have h₁ := hnext 0 65535 _ hfill (by decide)
  have h₂ := hnext _ 65535 _ h₁ (by decide)
  have h₃ := hnext _ 65535 _ h₂ (by decide)
  have h₄ := hnext _ 65534 _ h₃ (by decide)
  exact ⟨by decide, hread _ _ _ hfill (by decide), hread _ _ _ h₁ (by decide),
    hread _ _ _ h₂ (by decide), hread _ _ _ h₃ (by decide), hread _ _ _ h₄ (by decide), trivial⟩

theorem preOpenBytes_readOf (n : ℕ) (es : List Event) :
    preOpenBytes (readOf n :: es) = n + preOpenBytes es := by
  rw [readOf, preOpenBytes_read, List.length_replicate]

theorem kMaxPendingBytes_lt_preOpenBytes_overflowing :
    kMaxPendingBytes < preOpenBytes overflowing := by
  rw [overflowing, preOpenBytes_connected, preOpenBytes_readOf, preOpenBytes_readOf,
    preOpenBytes_readOf, preOpenBytes_readOf, preOpenBytes_readOf]
  decide

/-- **The buffer overflows.** An undisturbed run of five reads loses the last one, with its
`on_drain`. -/
theorem lost_read_before_opening :
    ∃ es, Along step Undisturbed dialing es ∧ ¬Lossless es (run step dialing es) := by
  refine ⟨overflowing, undisturbed_overflowing, fun hlossless ↦ ?_⟩
  have hall := (accounts_run undisturbed_overflowing).lossless_iff.mp hlossless
  have hle := (keptReads_eq_reads_iff overflowing).mp hall
  exact absurd hle (Nat.not_le.mpr kMaxPendingBytes_lt_preOpenBytes_overflowing)

end Conn

end HolesailServer

end Holesail
