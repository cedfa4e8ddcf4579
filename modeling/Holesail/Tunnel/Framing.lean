import Holesail.Codec.Frame
import Holesail.Theory.Gate

/-!
# Frames through a gate

Either end of a UDP tunnel hands each datagram over as one frame, to a stream that may still have to
open. Until it does, the frames are buffered, and one that would make the buffer too long is dropped
whole. So an end is a gate in the sense of `Holesail.Theory.Gate` whose items are frames, and what
the other end makes of the bytes that come through follows from what such a gate passes on.
-/

namespace Holesail

open Run Incremental

/-- The datagrams `received` were handed, as frames, to a gate with room for `k` bytes, which kept
those in `forwarded` and now stands as described. -/
def Framed (k : ℕ) (received forwarded : List Bytes) (opened : Bool) (pending wire : Bytes) :
    Prop :=
  ∃ es : List (Gate.Event UInt8),
    Gate.written es = received.map frame ∧ Gate.kept k Gate.fresh es = forwarded.map frame ∧
    (run (Gate.step k) Gate.fresh es).opened = opened ∧
    (run (Gate.step k) Gate.fresh es).pending = pending ∧
    (run (Gate.step k) Gate.fresh es).wire = wire

theorem framed_start (k : ℕ) : Framed k [] [] false [] [] := ⟨[], rfl, rfl, rfl, rfl, rfl⟩

namespace Framed

variable {k : ℕ} {received forwarded : List Bytes} {opened : Bool} {pending wire : Bytes}

theorem openUp (h : Framed k received forwarded opened pending wire) :
    Framed k received forwarded true [] (wire ++ pending) := by
  obtain ⟨es, hwritten, hkept, -, hpending, hwire⟩ := h
  refine ⟨es ++ [.openUp], ?_, ?_, ?_, ?_, ?_⟩
  · rw [Gate.written_append, hwritten]
    exact List.append_nil _
  · rw [Gate.kept_concat_openUp, hkept]
  · rw [run_concat]
    rfl
  · rw [run_concat]
    rfl
  · rw [run_concat, ← hwire, ← hpending]
    rfl

theorem keep {es : List (Gate.Event UInt8)} (hwritten : Gate.written es = received.map frame)
    (hkept : Gate.kept k Gate.fresh es = forwarded.map frame) (d : Bytes)
    (hfits : Gate.Fits k (run (Gate.step k) Gate.fresh es) (frame d)) :
    Gate.written (es ++ [.write (frame d)]) = (received ++ [d]).map frame ∧
      Gate.kept k Gate.fresh (es ++ [.write (frame d)]) = (forwarded ++ [d]).map frame := by
  constructor
  · rw [Gate.written_append, hwritten, List.map_append]
    rfl
  · rw [Gate.kept_concat_write, hkept, if_pos hfits, List.map_append]
    rfl

theorem through (h : Framed k received forwarded true pending wire) (d : Bytes) :
    Framed k (received ++ [d]) (forwarded ++ [d]) true pending (wire ++ frame d) := by
  obtain ⟨es, hwritten, hkept, hopened, hpending, hwire⟩ := h
  obtain ⟨hstill, hafter⟩ := Gate.step_write_of_opened (k := k) hopened (frame d)
  obtain ⟨hwritten', hkept'⟩ := keep hwritten hkept d (Gate.fits_of_opened hopened _)
  refine ⟨_, hwritten', hkept', ?_, ?_, ?_⟩
  · rw [run_concat]
    exact hstill
  · rw [run_concat, Gate.State.pending_eq_nil _ hstill, ← hpending,
      Gate.State.pending_eq_nil _ hopened]
  · rw [run_concat, hafter, hwire]

theorem buffer (h : Framed k received forwarded false pending wire) {d : Bytes}
    (hroom : ¬k < pending.length + (frame d).length) :
    Framed k (received ++ [d]) (forwarded ++ [d]) false (pending ++ frame d) wire := by
  obtain ⟨es, hwritten, hkept, hopened, hpending, hwire⟩ := h
  have hfits : Gate.Fits k (run (Gate.step k) Gate.fresh es) (frame d) := by
    refine Or.inr ?_
    rw [hpending]
    exact Nat.le_of_not_lt hroom
  obtain ⟨hstill, hbuffered, hafter⟩ := Gate.step_write_of_fits hopened hfits
  obtain ⟨hwritten', hkept'⟩ := keep hwritten hkept d hfits
  refine ⟨_, hwritten', hkept', ?_, ?_, ?_⟩
  · rw [run_concat]
    exact hstill
  · rw [run_concat, hbuffered, hpending]
  · rw [run_concat, hafter, hwire]

theorem drop (h : Framed k received forwarded false pending wire) {d : Bytes}
    (hfull : k < pending.length + (frame d).length) :
    Framed k (received ++ [d]) forwarded false pending wire := by
  obtain ⟨es, hwritten, hkept, hopened, hpending, hwire⟩ := h
  have hfits : ¬Gate.Fits k (run (Gate.step k) Gate.fresh es) (frame d) := by
    rw [Gate.Fits, hopened, hpending, not_or]
    exact ⟨Bool.false_ne_true, Nat.not_le.mpr hfull⟩
  refine ⟨es ++ [.write (frame d)], ?_, ?_, ?_⟩
  · rw [Gate.written_append, hwritten, List.map_append]
    rfl
  · rw [Gate.kept_concat_write, hkept, if_neg hfits, List.append_nil]
  · rw [run_concat, Gate.step_write_of_not_fits hfits]
    exact ⟨hopened, hpending, hwire⟩

end Framed

theorem frame_injective : Function.Injective frame := by
  intro d d' h
  exact congrArg (List.drop 4) h

/-- What crosses a stream on which `wire` was written for the datagrams `received`: some of them, in
order, each as it was. -/
structure Crosses (received forwarded : List Bytes) (opened : Bool) (pending wire : Bytes) :
    Prop where
  sublist : forwarded.Sublist received
  /-- There are only whole frames on the wire and in the buffer. -/
  whole : wire ++ pending = forwarded.flatMap frame
  unopened : opened = false → wire = []
  /-- Whatever has arrived, in whatever chunks, is accepted and yields the first datagrams. -/
  arrived : ∀ chunks : List Bytes, chunks.flatten <+: wire →
    (FrameDecoder.pushAll chunks).ok = true ∧ (FrameDecoder.pushAll chunks).frames <+: forwarded
  /-- Once all has arrived on an open stream, it yields all of them. -/
  delivered : opened = true → pending = [] ∧ ∀ chunks : List Bytes, chunks.flatten = wire →
    (FrameDecoder.pushAll chunks).outcome = ⟨forwarded, true, []⟩

/-- **What comes through a gate of frames.** -/
theorem Framed.crosses {k : ℕ} {received forwarded : List Bytes} {opened : Bool}
    {pending wire : Bytes} (h : Framed k received forwarded opened pending wire)
    (hsize : ∀ d ∈ received, d.length ≤ kMaxDatagram) :
    Crosses received forwarded opened pending wire := by
  obtain ⟨es, hwritten, hkept, hopened, hpending, hwire⟩ := h
  have hsublist : forwarded.Sublist received := by
    have hkeep := Gate.kept_sublist (k := k) Gate.fresh es
    rw [hwritten, hkept, List.sublist_map_iff] at hkeep
    obtain ⟨l, hl, hmap⟩ := hkeep
    rw [List.map_injective_iff.mpr frame_injective hmap]
    exact hl
  -- What is through and what waits are whole frames only when taken together.
  have hwhole : wire ++ pending = forwarded.flatMap frame := by
    rw [← hwire, ← hpending, Gate.wire_append_pending_run, hkept, List.flatMap_def]
    rfl
  have hparse : frameParser.parse (wire ++ pending) = ⟨forwarded, true, []⟩ := by
    rw [hwhole]
    refine ItemParser.parse_flatMap fun d hd m ↦ head_frame_append (hsize d ?_) m
    exact hsublist.subset hd
  refine ⟨hsublist, hwhole, fun hclosed ↦ ?_, fun chunks hchunks ↦ ?_, fun hopen ↦ ?_⟩
  · have hnot : ¬Gate.Opens es := by
      intro hopens
      rw [(Gate.opened_run Gate.fresh es).mpr (Or.inr hopens)] at hopened
      exact absurd (hopened.trans hclosed) (by decide)
    rw [← hwire]
    exact Gate.wire_run_of_not_opens rfl hnot
  -- Chunks of the wire may end inside a frame, which the decoder then keeps for later.
  · obtain ⟨rest, hrest⟩ := hchunks
    rw [← hrest, List.append_assoc] at hparse
    have hall := FrameDecoder.outcome_pushAll chunks
    have hok : (frameParser.parse chunks.flatten).ok = true :=
      ItemParser.ok_of_append_ok (congrArg Outcome.ok hparse)
    have hitems := frameParser.items_prefix_append chunks.flatten (rest ++ pending)
    rw [hparse, ← hall] at hitems
    rw [← hall] at hok
    exact ⟨hok, hitems⟩
  · have hnone : pending = [] := by
      rw [← hpending]
      exact Gate.State.pending_eq_nil _ (hopened.trans hopen)
    refine ⟨hnone, fun chunks hchunks ↦ ?_⟩
    rw [FrameDecoder.outcome_pushAll, hchunks]
    rw [hnone, List.append_nil] at hparse
    exact hparse

end Holesail
