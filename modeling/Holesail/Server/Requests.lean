import Holesail.Server.Datagrams
import Holesail.Server.Stream

/-!
# What a connection of the server sends to its service

A UDP connection pushes the bytes of its stream into a frame decoder, and sends the service the
datagrams that come out of it, until its pipe is destroyed. Nothing else that happens to it sends
anything or touches the decoder.

## Main results

* `decoded_run`: what the service is sent is what the bytes of the stream decode to.
-/

namespace Holesail

open Run

namespace HolesailServer

namespace Conn

variable {a : Answers} {c c' c'' : Conn} {e : Event} {chunks : List Bytes}

/-! ## What does not concern the service -/

/-- Nothing is sent, and what is left of the pipe was there before. -/
structure Aside (c c' : Conn) : Prop where
  sent : c'.sent = c.sent
  pipe : (c.udp.getD {}).Fades (c'.udp.getD {})

theorem aside_of_udp (hsent : c'.sent = c.sent) (hudp : c'.udp = c.udp) : Aside c c' :=
  ⟨hsent, hudp ▸ .refl _⟩

theorem Aside.trans (h : Aside c c') (h' : Aside c' c'') : Aside c c'' :=
  ⟨h'.sent.trans h.sent, h.pipe.trans h'.pipe⟩

theorem within_aside (a : Answers) : (udpHost a).Within Aside where
  refl := fun _ ↦ aside_of_udp rfl rfl
  trans := Aside.trans
  setPipe := fun hfades ↦ ⟨rfl, hfades⟩
  close := by
    intro c
    refine aside_of_udp ?_ (udp_streamCall .close c)
    simp only [udpHost, makeSide, streamCall]
    split_ifs <;> rfl
  uvClose := fun _ ↦ aside_of_udp rfl rfl
  onDestroy := fun _ ↦ aside_of_udp rfl rfl

theorem aside_write (data : Bytes) (c : Conn) : Aside c ((makeSide a).write data none c).2 := by
  simp only [makeSide, streamWrite]
  split_ifs <;> exact aside_of_udp rfl rfl

theorem aside_streamOpenCb (hdrains : c.pendingDrains = []) (a : Answers) :
    Aside c (c.streamOpenCb a) := by
  simp only [streamOpenCb, flush, streamWrite, releaseDrains]
  split_ifs <;> first
    | exact aside_of_udp rfl rfl
    | simp only [hdrains, List.foldl_nil]; exact aside_of_udp rfl rfl

/-! ## What is sent to the service -/

/-- The chunk that an event pushes into the decoder. -/
def Event.pushes : Event → List Bytes
  | .streamData data _ => if data = [] then [] else [data]
  | _ => []

theorem flatten_pushes (es : List Event) :
    (es.flatMap Event.pushes).flatten = es.flatMap Event.received := by
  induction es with
  | nil => rfl
  | cons e es ih =>
    rw [List.flatMap_cons, List.flatten_append, ih, List.flatMap_cons]
    cases e with
    | streamData data a =>
      by_cases hempty : data = []
      · rw [Event.pushes, if_pos hempty, Event.received, hempty, List.flatten_nil]
      · rw [Event.pushes, if_neg hempty, Event.received, List.flatten_singleton]
    | _ => rfl

/-- The service is sent what the chunks hold, and all of it as long as there is a socket. -/
structure Decoded (chunks : List Bytes) (c : Conn) : Prop where
  ordered : c.sent <+: (FrameDecoder.pushAll chunks).frames
  live : ∀ p ∈ c.udp, p.destroyed = false → p.sock ≠ none →
    c.sent = (FrameDecoder.pushAll chunks).frames ∧
      p.decoder = (FrameDecoder.pushAll chunks).decoder

theorem Decoded.aside (h : Decoded chunks c) (haside : Aside c c') : Decoded chunks c' := by
  refine ⟨haside.sent ▸ h.ordered, fun p' hp' hlive hsock ↦ ?_⟩
  have hfades := haside.pipe
  rw [Option.mem_def.mp hp', Option.getD_some] at hfades
  cases hudp : c.udp with
  | none => exact absurd (by rw [hudp]; rfl) (hfades.sock hsock)
  | some p =>
    rw [hudp, Option.getD_some] at hfades
    obtain ⟨hsent, hsame⟩ := h.live p hudp (hfades.destroyed hlive) (hfades.sock hsock)
    exact ⟨haside.sent.trans hsent, hfades.decoder.trans hsame⟩

theorem Decoded.streamData (h : Decoded chunks c) {p : UdpPipe} (hudp : c.udp = some p)
    {data : Bytes} (hne : data ≠ []) :
    Decoded (chunks ++ [data]) (UdpPipe.onStreamData (udpHost a) data c) := by
  have hpipe := pipe_of_udp (a := a) hudp
  simp only [UdpPipe.onStreamData, UdpPipe.Host.modify, hpipe, foldl_send]
  by_cases hguard : p.destroyed = true ∨ p.sock = none ∨ data = []
  · rw [if_pos hguard]
    refine ⟨h.ordered.trans (FrameDecoder.frames_pushAll_prefix chunks data),
      fun q hq hlive hsock ↦ ?_⟩
    obtain rfl := Option.some.inj (hudp.symm.trans hq)
    rcases hguard with hdestroyed | hnone | hempty
    · exact absurd (hdestroyed.symm.trans hlive) (by decide)
    · exact absurd hnone hsock
    · exact absurd hempty hne
  · rw [if_neg hguard]
    obtain ⟨hlive, hsock, -⟩ := (not_or.mp hguard).imp_right not_or.mp
    obtain ⟨hsent, hdecoder⟩ := h.live p hudp (Bool.of_not_eq_true hlive) hsock
    have hpushed : Decoded (chunks ++ [data])
        { (udpHost a).setPipe { p with decoder := (p.decoder.push data).decoder } c with
          sent := ((udpHost a).setPipe
            { p with decoder := (p.decoder.push data).decoder } c).sent ++
              (p.decoder.push data).frames } := by
      have hall : c.sent ++ (p.decoder.push data).frames
          = (FrameDecoder.pushAll (chunks ++ [data])).frames := by
        rw [FrameDecoder.pushAll_concat, hsent, hdecoder]
      refine ⟨hall ▸ List.prefix_rfl, fun q hq _ _ ↦ ⟨hall, ?_⟩⟩
      obtain rfl := Option.some.inj hq
      rw [FrameDecoder.pushAll_concat, hdecoder]
    split_ifs
    · exact hpushed
    · exact hpushed.aside ((within_aside a).destroy _)

theorem Decoded.step (h : Decoded chunks c) (hsourced : Sourced c) (he : c.Enabled e) :
    Decoded (chunks ++ e.pushes) (c.step e) := by
  have hquiet : ∀ {e : Event}, e.pushes = [] → Aside c (c.step e) →
      Decoded (chunks ++ e.pushes) (c.step e) := by
    intro e hnone haside
    rw [hnone, List.append_nil]
    exact h.aside haside
  have hother := ofTcp_of_noTcp hsourced.noTcp he
  obtain ⟨p, hudp⟩ : ∃ p, c.udp = some p := by
    rcases hsourced.pipe with ⟨p, hudp, -⟩ | ⟨-, p, hudp, -⟩ <;> exact ⟨p, hudp⟩
  cases e with
  | connected _ _ | read _ _ | written _ => exact Bool.noConfusion hother
  | closed =>
    refine hquiet rfl ?_
    simp only [Conn.step, hsourced.noTcp]
    exact (within_aside {}).closedCb c
  | recv r a => exact hquiet rfl ((within_aside a).recvCb aside_write r c)
  | streamOpen a => exact hquiet rfl (aside_streamOpenCb hsourced.noDrains.2 a)
  | streamData data a =>
    have hboxed : ¬c.boxed = false := by
      rw [hsourced.boxed he.1]
      decide
    have hstep : c.step (.streamData data a) = UdpPipe.onStreamData (udpHost a) data c := by
      rw [Conn.step, streamDataCb, if_neg hboxed]
      simp only [hsourced.noTcp, hudp]
    by_cases hempty : data = []
    · refine hquiet (if_pos hempty) ?_
      rw [hstep, UdpPipe.onStreamData, if_pos (Or.inr (Or.inr hempty))]
      exact aside_of_udp rfl rfl
    · rw [hstep, Event.pushes, if_neg hempty]
      exact h.streamData hudp hempty
  | streamClose =>
    refine hquiet rfl ?_
    have hclosed : Aside c { c with stream := false } := aside_of_udp rfl rfl
    rw [Conn.step, streamCloseCb]
    split_ifs
    · exact aside_of_udp rfl rfl
    · dsimp only
      split
      · next t ht => exact absurd (hsourced.noTcp.symm.trans ht) (Option.some_ne_none t).symm
      · exact (hclosed.trans ((within_aside {}).onStreamClose _)).trans (aside_of_udp rfl rfl)
      · next hnone => exact absurd (hudp.symm.trans hnone) (Option.some_ne_none p)
  | drained drain uv =>
    have hmem := he.2
    rw [hsourced.noDrains.1] at hmem
    exact absurd hmem List.not_mem_nil
  | destroy =>
    refine hquiet rfl ?_
    simp only [Conn.step, Conn.destroy, hsourced.noTcp, hudp]
    exact (within_aside {}).destroy c

/-- A connection is accepted, whether or not its socket could be started. -/
theorem decoded_connectionCb (uv : Uv) : Decoded [] (connectionCb true uv) := by
  have hstart : ∀ p : UdpPipe, p.decoder = {} → Decoded []
      { stream := true, boxed := true, keep := true, udp := some p } := by
    intro p hfresh
    refine ⟨List.prefix_rfl, fun q hq _ _ ↦ ⟨rfl, ?_⟩⟩
    obtain rfl := Option.some.inj hq
    exact hfresh
  have hsocket := hstart { onDestroy := true, sock := some {} } rfl
  change Decoded [] (UdpPipe.start (udpHost {}) uv _).2
  simp only [UdpPipe.start]
  split_ifs
  · exact hstart { onDestroy := true } rfl
  · exact hstart { onDestroy := true } rfl
  · exact hstart { onDestroy := true } rfl
  · exact hsocket.aside ((within_aside {}).destroy _)
  · exact hsocket.aside ((within_aside {}).destroy _)
  · exact hstart { onDestroy := true, sock := some { receiving := true } } rfl

/-- **What the service is sent**, in every run: what the bytes of the stream decode to. -/
theorem decoded_run (uv : Uv) {es : List Event}
    (henabled : Along step Enabled (connectionCb true uv) es) :
    Decoded (es.flatMap Event.pushes) (run step (connectionCb true uv) es) := by
  have hboth : (∃ r f, Carried r f (run step (connectionCb true uv) es)) ∧
      Decoded (es.flatMap Event.pushes) (run step (connectionCb true uv) es) := by
    refine history_of_along (G := Enabled)
      (P := fun es c ↦ (∃ r f, Carried r f c) ∧ Decoded (es.flatMap Event.pushes) c)
      ⟨⟨_, _, carried_connectionCb uv⟩, decoded_connectionCb uv⟩ ?_ henabled
    rintro es e ⟨⟨r, f, hcarried⟩, h⟩ he
    rw [List.flatMap_append, List.flatMap_singleton]
    exact ⟨⟨_, _, hcarried.step he⟩, h.step hcarried.sourced he⟩
  exact hboth.2

end Conn

end HolesailServer

end Holesail
