import Mathlib.Algebra.Group.Nat.Defs
import Mathlib.Tactic.Common
import Holesail.Codec.Bytes
import Holesail.Theory.IncrementalParser

/-!
# Datagram frames

Datagrams cross the reliable stream as `[uint32 big-endian length][payload]`. The sender's half is
`frame`; the receiver's is `FrameDecoder`, which keeps the bytes it cannot use yet and walks an
offset over its buffer.

The decoder is the source's own loop, with its offset, its early break and its two erasures. What
it computes is stated against a second definition, one left-to-right pass over the whole stream
(`frameParser`), and `FrameDecoder.pushAll_eq` says that however the stream was cut into chunks the
two agree. The pass lives in `Holesail.Theory.IncrementalParser` and knows nothing of frames.
-/

namespace Holesail

open Incremental

/-- The largest length a frame header may claim. -/
def kMaxDatagram : ℕ := 65535

/-- One datagram as it crosses the stream. -/
def frame (data : Bytes) : Bytes :=
  let len := data.length
  [(len >>> 24 &&& 0xff).toUInt8, (len >>> 16 &&& 0xff).toUInt8,
    (len >>> 8 &&& 0xff).toUInt8, (len &&& 0xff).toUInt8] ++ data

/-- The length a frame header claims, in the source's 32-bit arithmetic. -/
def headerLen (p₀ p₁ p₂ p₃ : UInt8) : UInt32 :=
  (p₀.toUInt32 <<< 24) ||| (p₁.toUInt32 <<< 16) ||| (p₂.toUInt32 <<< 8) ||| p₃.toUInt32

/-! ## The decoder -/

/-- The receiver's state: the bytes no frame has been made of yet. -/
structure FrameDecoder where
  buffer : Bytes := []
deriving DecidableEq

namespace FrameDecoder

/-- What one `push` does: the frames it hands to `on_frame`, what it returns, and the decoder it
leaves behind. -/
structure Pushed where
  frames : List Bytes
  ok : Bool
  decoder : FrameDecoder
deriving DecidableEq

/-- The `while` loop of `push`, from `offset` on. -/
def pushLoop (buffer : Bytes) (offset : ℕ) : Pushed :=
  match _h : buffer.drop offset with
  | p₀ :: p₁ :: p₂ :: p₃ :: _ =>
    let frameLen := headerLen p₀ p₁ p₂ p₃
    if kMaxDatagram < frameLen.toNat then
      -- Rejected before any of the claimed length is waited for.
      ⟨[], false, ⟨buffer.drop offset⟩⟩
    else
      let total := 4 + frameLen.toNat
      if buffer.length - offset < total then
        ⟨[], true, ⟨if 0 < offset then buffer.drop offset else buffer⟩⟩
      else
        let next := pushLoop buffer (offset + total)
        { next with frames := (buffer.drop (offset + 4)).take frameLen.toNat :: next.frames }
  | _ => ⟨[], true, ⟨if 0 < offset then buffer.drop offset else buffer⟩⟩
termination_by buffer.length - offset
decreasing_by
  have hlen := congrArg List.length ‹_›
  simp only [List.length_drop, List.length_cons] at hlen
  omega

/-- Append a chunk of stream bytes and emit every frame that is now complete. -/
def push (d : FrameDecoder) (data : Bytes) : Pushed := pushLoop (d.buffer ++ data) 0

/-- A sequence of pushes: all frames emitted, and what the last one returned. -/
def pushAll (chunks : List Bytes) : Pushed :=
  chunks.foldl (fun r chunk ↦
    let s := r.decoder.push chunk
    { s with frames := r.frames ++ s.frames }) ⟨[], true, {}⟩

end FrameDecoder

/-! ## Headers -/

theorem toNat_headerLen (p₀ p₁ p₂ p₃ : UInt8) :
    (headerLen p₀ p₁ p₂ p₃).toNat
      = 2 ^ 24 * p₀.toNat + (2 ^ 16 * p₁.toNat + (2 ^ 8 * p₂.toNat + p₃.toNat)) := by
  have h₀ := p₀.toNat_lt
  have h₁ := p₁.toNat_lt
  have h₂ := p₂.toNat_lt
  have h₃ := p₃.toNat_lt
  have h₀' : p₀.toNat <<< 24 % 2 ^ 32 = 2 ^ 24 * p₀.toNat := by rw [Nat.shiftLeft_eq]; omega
  have h₁' : p₁.toNat <<< 16 % 2 ^ 32 = 2 ^ 16 * p₁.toNat := by rw [Nat.shiftLeft_eq]; omega
  have h₂' : p₂.toNat <<< 8 % 2 ^ 32 = 2 ^ 8 * p₂.toNat := by rw [Nat.shiftLeft_eq]; omega
  rw [headerLen]
  simp only [UInt32.toNat_or, UInt32.toNat_shiftLeft, UInt8.toNat_toUInt32, UInt32.reduceToNat,
    Nat.reduceMod, h₀', h₁', h₂', Nat.or_assoc]
  rw [← Nat.two_pow_add_eq_or_of_lt h₃ p₂.toNat,
    ← Nat.two_pow_add_eq_or_of_lt (i := 16) (by omega) p₁.toNat,
    ← Nat.two_pow_add_eq_or_of_lt (i := 24) (by omega) p₀.toNat]

private theorem toNat_lowByte (n : ℕ) : (n &&& 0xff).toUInt8.toNat = n % 256 := by
  rw [Nat.and_two_pow_sub_one_eq_mod n 8, Nat.toUInt8_eq, UInt8.toNat_ofNat']
  omega

theorem toNat_headerLen_frame {n : ℕ} (h : n < 2 ^ 32) :
    (headerLen (n >>> 24 &&& 0xff).toUInt8 (n >>> 16 &&& 0xff).toUInt8 (n >>> 8 &&& 0xff).toUInt8
      (n &&& 0xff).toUInt8).toNat = n := by
  rw [toNat_headerLen, toNat_lowByte, toNat_lowByte, toNat_lowByte, toNat_lowByte,
    Nat.shiftRight_eq_div_pow, Nat.shiftRight_eq_div_pow, Nat.shiftRight_eq_div_pow]
  omega

/-! ## The reference pass -/

/-- The verdict on the head of a stream of frames: the grammar
`[uint32 big-endian length ≤ 65535][payload]`. -/
def frameHead : Bytes → Head UInt8 Bytes
  | p₀ :: p₁ :: p₂ :: p₃ :: rest =>
    if kMaxDatagram < (headerLen p₀ p₁ p₂ p₃).toNat then .reject
    else if rest.length < (headerLen p₀ p₁ p₂ p₃).toNat then .more
    else .item (rest.take (headerLen p₀ p₁ p₂ p₃).toNat) (rest.drop (headerLen p₀ p₁ p₂ p₃).toNat)
  | _ => .more

/-- Four bytes are enough to tell a rejected header; an item is told by its own bytes. -/
def frameParser : ItemParser UInt8 Bytes where
  head := frameHead
  head_nil := rfl
  length_lt := by
    intro l v r h
    unfold frameHead at h
    split at h
    · split_ifs at h
      cases h
      simp only [List.length_drop, List.length_cons]
      omega
    · exact nomatch h
  item_append := by
    intro l v r h m
    unfold frameHead at h
    split at h
    · next p₀ p₁ p₂ p₃ rest =>
      split_ifs at h with hbig hshort
      cases h
      have hle := Nat.le_of_not_lt hshort
      simp only [List.cons_append, frameHead]
      rw [if_neg hbig, if_neg (by rw [List.length_append]; omega),
        List.take_append_of_le_length hle, List.drop_append_of_le_length hle]
    · exact nomatch h
  reject_append := by
    intro l h m
    unfold frameHead at h
    split at h
    · split_ifs at h with hbig
      simp only [List.cons_append, frameHead]
      rw [if_pos hbig]
    · exact nomatch h

theorem head_frame_append {data : Bytes} (h : data.length ≤ kMaxDatagram) (m : Bytes) :
    frameParser.head (frame data ++ m) = .item data m := by
  have hlt : data.length < 2 ^ 32 := Nat.lt_of_le_of_lt h (by decide)
  simp only [frameParser, frame, List.cons_append, List.nil_append, frameHead,
    toNat_headerLen_frame hlt]
  rw [if_neg (Nat.not_lt.mpr h), if_neg (by rw [List.length_append]; omega), List.take_left,
    List.drop_left]

/-- An item at the head of a stream is the frame of its payload. -/
theorem eq_frame_append_of_head {l v r : Bytes} (h : frameParser.head l = .item v r) :
    v.length ≤ kMaxDatagram ∧ l = frame v ++ r := by
  simp only [frameParser] at h
  unfold frameHead at h
  split at h
  · next p₀ p₁ p₂ p₃ rest =>
    split_ifs at h with hbig hshort
    obtain ⟨rfl, rfl⟩ : rest.take _ = v ∧ rest.drop _ = r := by
      simpa only [Head.item.injEq] using h
    have hlen : (rest.take (headerLen p₀ p₁ p₂ p₃).toNat).length
        = (headerLen p₀ p₁ p₂ p₃).toNat := by
      rw [List.length_take]
      omega
    have h₀ := p₀.toNat_lt
    have h₁ := p₁.toNat_lt
    have h₂ := p₂.toNat_lt
    have h₃ := p₃.toNat_lt
    refine ⟨by omega, ?_⟩
    rw [frame, hlen, List.append_assoc, List.take_append_drop, toNat_headerLen]
    simp only [List.cons_append, List.nil_append, List.cons.injEq, and_true]
    simp only [← UInt8.toNat_inj, toNat_lowByte, Nat.shiftRight_eq_div_pow]
    omega
  · exact nomatch h

/-- **A pass only ever finds frames**: the input is the frames found, one after the other, with
the leftovers behind them. -/
theorem flatMap_frame_append_rest (l : Bytes) :
    (∀ d ∈ (frameParser.parse l).items, d.length ≤ kMaxDatagram) ∧
      (frameParser.parse l).items.flatMap frame ++ (frameParser.parse l).rest = l := by
  induction l using frameParser.parse_induction with
  | more l h =>
    rw [ItemParser.parse_more h]
    exact ⟨fun d hd ↦ absurd hd List.not_mem_nil, rfl⟩
  | reject l h =>
    rw [ItemParser.parse_reject h]
    exact ⟨fun d hd ↦ absurd hd List.not_mem_nil, rfl⟩
  | item l v r h ih =>
    obtain ⟨hv, hl⟩ := eq_frame_append_of_head h
    rw [ItemParser.parse_item h]
    refine ⟨fun d hd ↦ ?_, ?_⟩
    · rcases List.mem_cons.mp hd with rfl | hd
      · exact hv
      · exact ih.1 d hd
    · calc (v :: (frameParser.parse r).items).flatMap frame ++ (frameParser.parse r).rest
          = frame v ++ ((frameParser.parse r).items.flatMap frame
              ++ (frameParser.parse r).rest) := by rw [List.flatMap_cons, List.append_assoc]
        _ = frame v ++ r := by rw [ih.2]
        _ = l := hl.symm

theorem length_lt_of_head_more {l : Bytes} (h : frameParser.head l = .more) :
    l.length < 4 + kMaxDatagram := by
  simp only [frameParser] at h
  unfold frameHead at h
  split at h
  · split_ifs at h with hbig hshort
    simp only [List.length_cons]
    omega
  · next hshort =>
    by_contra hlen
    have hk : 4 ≤ l.length := by omega
    obtain ⟨p₀, p₁, p₂, p₃, rest, rfl⟩ : ∃ p₀ p₁ p₂ p₃ rest, l = p₀ :: p₁ :: p₂ :: p₃ :: rest := by
      match l, hk with
      | p₀ :: p₁ :: p₂ :: p₃ :: rest, _ => exact ⟨p₀, p₁, p₂, p₃, rest, rfl⟩
    exact hshort _ _ _ _ _ rfl

/-! ## The decoder computes the reference pass -/

namespace FrameDecoder

/-- A push, read as the outcome of a pass. -/
def Pushed.outcome (r : Pushed) : Outcome UInt8 Bytes := ⟨r.frames, r.ok, r.decoder.buffer⟩

private theorem erase_eq_drop (buffer : Bytes) (offset : ℕ) :
    (if 0 < offset then buffer.drop offset else buffer) = buffer.drop offset := by
  split_ifs with h
  · rfl
  · rw [Nat.eq_zero_of_not_pos h, List.drop_zero]

/-- **The loop is the pass** over what lies behind the offset. -/
theorem outcome_pushLoop (buffer : Bytes) (offset : ℕ) :
    (pushLoop buffer offset).outcome = frameParser.parse (buffer.drop offset) := by
  fun_induction pushLoop buffer offset with
  | case1 offset p₀ p₁ p₂ p₃ rest hdrop frameLen hbig =>
    -- A header that announces too much ends the pass.
    have hhead : frameParser.head (buffer.drop offset) = .reject := by
      simp only [frameParser, hdrop, frameHead]
      exact if_pos hbig
    rw [ItemParser.parse_reject hhead]
    rfl
  | case2 offset p₀ p₁ p₂ p₃ rest hdrop frameLen hbig total hshort =>
    -- The frame is not there in full.
    have hlen := congrArg List.length hdrop
    simp only [List.length_drop, List.length_cons] at hlen
    have hhead : frameParser.head (buffer.drop offset) = .more := by
      simp only [frameParser, hdrop, frameHead]
      rw [if_neg hbig, if_pos (show rest.length < frameLen.toNat by omega)]
    rw [ItemParser.parse_more hhead, erase_eq_drop]
    rfl
  | case3 offset p₀ p₁ p₂ p₃ rest hdrop frameLen hbig total hshort next ih =>
    have hlen := congrArg List.length hdrop
    simp only [List.length_drop, List.length_cons] at hlen
    -- The frame is there, and the loop goes on behind it.
    have hrest : buffer.drop (offset + 4) = rest := by
      rw [← List.drop_drop, hdrop]
      rfl
    have hnext : buffer.drop (offset + total) = rest.drop frameLen.toNat := by
      rw [← hrest, List.drop_drop]
      congr 1
      omega
    have hhead : frameParser.head (buffer.drop offset)
        = .item (rest.take frameLen.toNat) (rest.drop frameLen.toNat) := by
      simp only [frameParser, hdrop, frameHead]
      rw [if_neg hbig, if_neg (show ¬rest.length < frameLen.toNat by omega)]
    rw [ItemParser.parse_item hhead, ← hnext, ← ih, hrest]
    rfl
  | case4 offset hdrop =>
    -- Not even a header is there.
    have hhead : frameParser.head (buffer.drop offset) = .more := by
      simp only [frameParser]
      unfold frameHead
      split
      · next heq => exact absurd heq (hdrop _ _ _ _ _)
      · rfl
    rw [ItemParser.parse_more hhead, erase_eq_drop]
    rfl

theorem outcome_push (d : FrameDecoder) (data : Bytes) :
    (d.push data).outcome = frameParser.parse (d.buffer ++ data) := by
  rw [push, outcome_pushLoop, List.drop_zero]

theorem pushAll_concat (chunks : List Bytes) (data : Bytes) :
    pushAll (chunks ++ [data]) =
      { (pushAll chunks).decoder.push data with
        frames := (pushAll chunks).frames ++ ((pushAll chunks).decoder.push data).frames } := by
  rw [pushAll, List.foldl_append]
  rfl

theorem frames_pushAll_prefix (chunks : List Bytes) (data : Bytes) :
    (pushAll chunks).frames <+: (pushAll (chunks ++ [data])).frames := by
  rw [pushAll_concat]
  exact List.prefix_append _ _

theorem outcome_pushAll (chunks : List Bytes) :
    (pushAll chunks).outcome = frameParser.parse chunks.flatten := by
  have hstep : ∀ r : Pushed, ∀ cs : List Bytes,
      (cs.foldl (fun r chunk ↦
        let s := r.decoder.push chunk
        { s with frames := r.frames ++ s.frames }) r).outcome
      = cs.foldl frameParser.feed r.outcome := by
    intro r cs
    induction cs generalizing r with
    | nil => rfl
    | cons c cs ih =>
      rw [List.foldl_cons, List.foldl_cons, ih]
      congr 1
      rw [ItemParser.feed, show r.outcome.rest = r.decoder.buffer from rfl, ← outcome_push]
      rfl
  rw [pushAll, hstep, ← ItemParser.feedAll_eq_parse]
  rfl

/-- **Chunking independence.** Whatever the chunks, the frames emitted, the last verdict and the
bytes left buffered are those of one left-to-right pass over the whole stream. In particular a
stream of frames gives back exactly its datagrams, a rejection is final, and after an accepting
push less than one longest frame stays buffered. -/
theorem pushAll_independent_of_chunking (chunks : List Bytes) :
    (pushAll chunks).outcome = frameParser.parse chunks.flatten ∧
    (∀ ds : List Bytes, (∀ d ∈ ds, d.length ≤ kMaxDatagram) →
      chunks.flatten = ds.flatMap frame → (pushAll chunks).outcome = ⟨ds, true, []⟩) ∧
    ((pushAll chunks).ok = false → ∀ later : List Bytes,
      (pushAll (chunks ++ later)).frames = (pushAll chunks).frames ∧
        (pushAll (chunks ++ later)).ok = false) ∧
    ((pushAll chunks).ok = true → (pushAll chunks).decoder.buffer.length < 4 + kMaxDatagram) := by
  have hparse := outcome_pushAll chunks
  refine ⟨hparse, ?_, ?_, ?_⟩
  · intro ds hds hflat
    rw [hparse, hflat]
    exact ItemParser.parse_flatMap fun d hd m ↦ head_frame_append (hds d hd) m
  · intro hok later
    have hok' : (frameParser.parse chunks.flatten).ok = false := by rw [← hparse]; exact hok
    have hall := outcome_pushAll (chunks ++ later)
    rw [List.flatten_append, ItemParser.parse_append, ItemParser.parse_append_of_not_ok hok',
      ← hparse] at hall
    have hframes := congrArg Outcome.items hall
    have hlast := congrArg Outcome.ok hall
    exact ⟨hframes.trans (List.append_nil _), hlast⟩
  · intro hok
    have hrest : frameParser.head (pushAll chunks).outcome.rest = .more := by
      rw [hparse]
      refine ItemParser.head_rest_of_ok _ ?_
      rw [← hparse]
      exact hok
    exact length_lt_of_head_more hrest

/-- Two datagrams, one of them empty, cut in the middle of a header; and a header of `0xffffffff`
behind a good frame. -/
theorem pushAll_independent_of_chunking_at :
    (pushAll [[0, 0], [0, 2, 7], [9, 0, 0], [], [0, 0]]).outcome = ⟨[[7, 9], []], true, []⟩ ∧
    (pushAll ([[0, 0, 0, 1, 7, 255, 255], [255, 255]] ++ [[], [1, 2]])).frames
      = (pushAll [[0, 0, 0, 1, 7, 255, 255], [255, 255]]).frames :=
  ⟨(pushAll_independent_of_chunking [[0, 0], [0, 2, 7], [9, 0, 0], [], [0, 0]]).2.1
      [[7, 9], []] (by decide) (by decide),
    ((pushAll_independent_of_chunking [[0, 0, 0, 1, 7, 255, 255], [255, 255]]).2.2.1
      (by decide +kernel) [[], [1, 2]]).1⟩

end FrameDecoder

end Holesail
