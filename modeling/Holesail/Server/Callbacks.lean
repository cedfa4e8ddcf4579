import Holesail.Server.Conn

/-!
# What the callbacks of a connection are made of

The opening of a connection's stream is a flush and the `on_drain`s that were withheld. Every other
callback of a TCP connection is one of its pipe, with a few changes of the connection around it. So
what these keep, in the sense of a preorder on connections, every callback but the opening and the
reads keeps: only those write.
-/

namespace Holesail

namespace HolesailServer

namespace Conn

variable {a : Answers} {c : Conn}

/-! ## The opening of the stream -/

theorem foldl_fireDrain {P : Conn → Prop} {uv : Uv}
    (hfire : ∀ {c} drain, P c → P (fireDrain uv c drain)) (drains : List Drain) (h : P c) :
    P (drains.foldl (fireDrain uv) c) := by
  induction drains generalizing c with
  | nil => exact h
  | cons drain drains ih => exact ih (hfire drain h)

/-- What the flush keeps, and every `on_drain`, the opening keeps. -/
theorem streamOpenCb_induction {P : Conn → Prop} (h : P c)
    (hflush : ∀ pending pendingDrains calls, c.calls <+: calls → P { c with
      streamOpen := true
      pending := pending
      pendingDrains := pendingDrains
      calls := calls })
    (hfire : ∀ {c} drain, P c → P (fireDrain a.uv c drain)) : P (c.streamOpenCb a) := by
  have hflushed : P { ({ c with streamOpen := true }.flush a).2 with pendingDrains := [] } := by
    rw [flush]
    simp only [streamWrite]
    split_ifs
    · exact hflush c.pending [] c.calls List.prefix_rfl
    · exact hflush [] [] _ (List.prefix_append _ _)
    · exact hflush [] [] c.calls List.prefix_rfl
  simp only [streamOpenCb]
  split_ifs
  · exact h
  · exact hflushed
  · exact foldl_fireDrain hfire _ hflushed

/-! ## The other callbacks -/

/-- `R` allows what a TCP connection does about its local side and its `DrainCtx`s, the end of its
stream, and its calls on the stream but for the writes. -/
structure Allows (R : Conn → Conn → Prop) : Prop where
  refl : ∀ c, R c c
  trans : ∀ {c c' c''}, R c c' → R c' c'' → R c c''
  own : ∀ (c : Conn) (tcp : Option TcpPipe) (stream boxed keep : Bool) (uvCloses : ℕ)
    (drains fired freed : List Drain), R c { c with
      tcp := tcp
      stream := stream
      boxed := boxed
      keep := keep
      uvCloses := uvCloses
      drains := drains
      fired := fired
      freed := freed }
  pause : ∀ c, R c (c.streamCall .pause)
  resume : ∀ c, R c (c.streamCall .resume)
  close : ∀ c, R c (c.streamCall .close)

/-- The TCP pipe's place in the connection, with nothing to write to. Only `read_cb` writes: to the
other callbacks it is the place that it was. -/
def muteHost (a : Answers) : TcpPipe.Host Conn :=
  { tcpHost a with stream := { makeSide a with write := fun _ _ c ↦ (0, c) } }

namespace Allows

variable {R : Conn → Conn → Prop} (hR : Allows R)

include hR

/-- A pipe with nothing to write to. -/
theorem within (a : Answers) : (muteHost a).Within R where
  refl := hR.refl
  trans := hR.trans
  setPipe := fun p c ↦ hR.own c (some p) _ _ _ _ _ _ _
  write := fun _ _ ↦ hR.refl
  pause := hR.pause
  resume := hR.resume
  close := hR.close
  uvClose := fun _ c ↦ hR.own c _ _ _ _ (c.uvCloses + 1) _ _ _
  onReady := fun _ ↦ hR.refl
  onDestroy := fun c ↦ hR.own c _ _ _ false _ _ _ _

theorem fireDrain (uv : Uv) (c : Conn) (drain : Drain) : R c (fireDrain uv c drain) :=
  hR.trans (hR.own c _ _ _ _ _ _ (c.fired ++ [drain]) _)
    ((hR.within { uv := uv }).onDrain uv drain.len _)

theorem foldl_fireDrain (uv : Uv) (drains : List Drain) (c : Conn) :
    R c (drains.foldl (Conn.fireDrain uv) c) :=
  Conn.foldl_fireDrain (P := R c) (fun drain h ↦ hR.trans h (hR.fireDrain uv _ drain)) drains
    (hR.refl c)

end Allows

theorem udp_streamCall (call : StreamCall) (c : Conn) : (c.streamCall call).udp = c.udp := by
  unfold streamCall
  split_ifs <;> rfl

/-- The UDP pipe is none of the TCP pipe's concern. -/
theorem allows_udp : Allows fun c c' ↦ c'.udp = c.udp where
  refl := fun _ ↦ rfl
  trans := fun h h' ↦ h'.trans h
  own := fun _ _ _ _ _ _ _ _ _ ↦ rfl
  pause := udp_streamCall .pause
  resume := udp_streamCall .resume
  close := udp_streamCall .close

/-- **No event of a TCP connection** but the opening and the reads does anything else. -/
theorem Allows.step {R : Conn → Conn → Prop} (hR : Allows R) {p : TcpPipe} (htcp : c.tcp = some p)
    (hudp : c.udp = none) {e : Event} (he : c.Enabled e) (hopen : ∀ a, e ≠ .streamOpen a)
    (hread : ∀ nread a, e = .read nread a → R c (c.step e)) : R c (c.step e) := by
  cases e with
  | connected status uv => exact (hR.within {}).connectCb uv status c
  | read nread a => exact hread nread a rfl
  | written status => exact (hR.within {}).writeCb status c
  | closed =>
    rw [Conn.step, htcp]
    exact (hR.within {}).closedCb c
  | recv r a =>
    obtain ⟨sock, hsock, -⟩ := he
    rw [hudp] at hsock
    exact absurd hsock (Option.not_mem_none sock)
  | streamOpen a => exact absurd rfl (hopen a)
  | streamData data a =>
    rw [Conn.step, streamDataCb, htcp]
    split_ifs
    · exact hR.refl c
    · exact (hR.within a).onStreamData a.uv data c
  | streamClose =>
    rw [Conn.step, streamCloseCb]
    split_ifs
    · exact hR.refl c
    · have hend : R c (TcpPipe.onStreamClose (tcpHost {}) { c with stream := false }) :=
        hR.trans (hR.own c _ false _ _ _ _ _ _) ((hR.within {}).onStreamClose _)
      simp only [htcp] at hend ⊢
      exact hR.trans hend (hR.own _ _ _ false _ _ _ _ _)
  | drained drain uv =>
    exact hR.trans (hR.own c _ _ _ _ _ (c.drains.erase drain) _ (c.freed ++ [drain]))
      (hR.fireDrain uv _ drain)
  | destroy =>
    have hsame : (TcpPipe.destroy (tcpHost {}) c).udp = none :=
      ((allows_udp.within {}).destroy c).trans hudp
    simp only [Conn.step, Conn.destroy, htcp, hsame]
    exact (hR.within {}).destroy c

end Conn

end HolesailServer

end Holesail
