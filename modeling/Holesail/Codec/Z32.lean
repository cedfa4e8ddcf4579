import Holesail.Codec.Keys
import Mathlib.Data.Set.Card

/-!
# z-base-32 as a code

What `Keys` shows of the two loops, put together: which byte strings the decoder reads and as what,
which of them the encoder writes, and how many it reads as the same bytes.

A string of symbols comes to five bits a symbol. The decoder takes the whole bytes from the front
and never looks at the bits left over, so of the strings that it reads as the same bytes only one is
what the encoder writes: the one with fewer than five bits left over, all of them zero.

## Main results

* `z32Decode_eq`: what the decoder reads.
* `z32Encode_eq_iff`: which strings the encoder writes.
* `ncard_names`: a 32-byte key is named by sixteen strings.
-/

namespace Holesail

open BitGroups

/-! ## Strings of symbols -/

/-- Every character is in the alphabet. -/
def Spelled (s : Bytes) : Prop := ∀ c ∈ s, c ∈ kAlphabet

instance (s : Bytes) : Decidable (Spelled s) := inferInstanceAs (Decidable (∀ c ∈ s, _))

/-- The bits of a string, five to a symbol: those of its position in the alphabet. -/
def symbolBits (s : Bytes) : List Bool := s.flatMap fun c ↦ bits 5 (kAlphabet.idxOf c)

def wholeBytes (s : Bytes) : ℕ := 5 * s.length / 8

/-- The bits behind the last whole byte. -/
def leftover (s : Bytes) : List Bool := (symbolBits s).drop (8 * wholeBytes s)

theorem length_symbolBits (s : Bytes) : (symbolBits s).length = 5 * s.length := by
  induction s with
  | nil => rfl
  | cons c s ih =>
    rw [symbolBits, List.flatMap_cons, List.length_append, length_bits, List.length_cons,
      Nat.mul_succ, Nat.add_comm]
    exact congrArg (· + 5) ih

theorem symbolOf_idxOf {c : UInt8} (h : c ∈ kAlphabet) : symbolOf (kAlphabet.idxOf c) = c := by
  have hlt := List.idxOf_lt_length_of_mem h
  rw [symbolOf, List.getD_eq_getElem _ _ hlt, List.getElem_idxOf]

theorem idxOf_symbolOf {v : ℕ} (h : v < 32) : kAlphabet.idxOf (symbolOf v) = v := by
  interval_cases v <;> decide

theorem Spelled.exists_symbols {s : Bytes} (h : Spelled s) :
    ∃ vs : List ℕ, (∀ v ∈ vs, v < 2 ^ 5) ∧ s = vs.map symbolOf := by
  refine ⟨s.map kAlphabet.idxOf, fun v hv ↦ ?_, ?_⟩
  · obtain ⟨c, hc, rfl⟩ := List.mem_map.mp hv
    exact List.idxOf_lt_length_of_mem (h c hc)
  · rw [List.map_map]
    exact (List.map_id s).symm.trans (List.map_congr_left fun c hc ↦ (symbolOf_idxOf (h c hc)).symm)

theorem spelled_map_symbolOf {vs : List ℕ} (h : ∀ v ∈ vs, v < 2 ^ 5) :
    Spelled (vs.map symbolOf) := by
  intro c hc
  obtain ⟨v, hv, rfl⟩ := List.mem_map.mp hc
  have hlt : v < kAlphabet.length := h v hv
  rw [symbolOf, List.getD_eq_getElem _ _ hlt]
  exact List.getElem_mem hlt

theorem symbolBits_map_symbolOf {vs : List ℕ} (h : ∀ v ∈ vs, v < 2 ^ 5) :
    symbolBits (vs.map symbolOf) = vs.flatMap (bits 5) := by
  rw [symbolBits, List.flatMap_map]
  exact List.flatMap_congr fun v hv ↦ by rw [idxOf_symbolOf (h v hv)]

theorem Spelled.eq_of_symbolBits {s t : Bytes} (hs : Spelled s) (ht : Spelled t)
    (h : symbolBits s = symbolBits t) : s = t := by
  obtain ⟨vs, hvs, rfl⟩ := hs.exists_symbols
  obtain ⟨us, hus, rfl⟩ := ht.exists_symbols
  have hlen := congrArg List.length h
  rw [length_symbolBits, length_symbolBits, List.length_map, List.length_map] at hlen
  rw [symbolBits_map_symbolOf hvs, symbolBits_map_symbolOf hus] at h
  rw [flatMap_bits_injective hvs hus (by omega) h]

/-! ## The decoder -/

theorem words_byteBits (data : Bytes) (left : List Bool) :
    (words 8 data.length (byteBits data ++ left)).map Nat.toUInt8 = data := by
  have hlt : ∀ n ∈ data.map UInt8.toNat, n < 2 ^ 8 := by
    intro n hn
    obtain ⟨b, -, rfl⟩ := List.mem_map.mp hn
    exact b.toNat_lt
  have hwords := words_flatMap hlt left
  rw [List.length_map] at hwords
  rw [byteBits, hwords, List.map_map]
  exact (List.map_congr_left fun b _ ↦ UInt8.ofNat_toNat).trans (List.map_id data)

/-- **A string of symbols is read** as the bytes its bits come to, up to fewer than eight bits. -/
theorem Spelled.exists_decode {s : Bytes} (h : Spelled s) :
    ∃ data left, z32Decode s = some data ∧ data.length = wholeBytes s ∧ left = leftover s ∧
      byteBits data ++ left = symbolBits s := by
  obtain ⟨vs, hvs, rfl⟩ := h.exists_symbols
  obtain ⟨data, left, hdec, hleft, hbits⟩ := z32DecodeLoop_spec vs hvs 0 (k := 0) (by decide) []
  rw [show bits 0 (UInt32.toNat 0) = [] from rfl, List.nil_append,
    ← symbolBits_map_symbolOf hvs] at hbits
  have hlen := congrArg List.length hbits
  rw [List.length_append, length_byteBits, length_symbolBits] at hlen
  have hcount : data.length = wholeBytes (vs.map symbolOf) := by
    rw [wholeBytes]
    omega
  refine ⟨data, left, hdec, hcount, ?_, hbits⟩
  rw [leftover, ← hcount, ← length_byteBits, ← hbits, List.drop_left]

theorem z32DecodeLoop_of_not_spelled {s : Bytes} (h : ¬Spelled s) (acc : UInt32) (k : ℕ)
    (out : Bytes) : z32DecodeLoop acc k out s = none := by
  induction s generalizing acc k out with
  | nil => exact absurd (fun c hc ↦ absurd hc List.not_mem_nil) h
  | cons c s ih =>
    rw [z32DecodeLoop]
    cases hc : quintetOf c with
    | none => rfl
    | some v =>
      have hmem : c ∈ kAlphabet := by
        by_contra hnot
        rw [quintetOf, List.idxOf?_eq_none_iff.mpr hnot] at hc
        exact absurd hc.symm (Option.some_ne_none v)
      have hrest : ¬Spelled s := fun hs ↦ h fun d hd ↦
        (List.mem_cons.mp hd).elim (fun hd ↦ hd ▸ hmem) (hs d)
      dsimp only
      split_ifs
      · exact ih hrest _ _ _
      · exact ih hrest _ _ _

/-- **What the decoder reads**: the strings of symbols, as the whole bytes that their bits come
to. -/
theorem z32Decode_eq (s : Bytes) : z32Decode s =
    if Spelled s then some ((words 8 (wholeBytes s) (symbolBits s)).map Nat.toUInt8) else none := by
  split_ifs with h
  · obtain ⟨data, left, hdec, hcount, -, hbits⟩ := h.exists_decode
    rw [hdec, ← hcount, ← hbits, words_byteBits]
  · exact z32DecodeLoop_of_not_spelled h 0 0 []

/-- A key of 32 bytes takes 52 symbols, and 52 symbols are always a key. -/
theorem decodes_key_iff (s : Bytes) :
    (∃ key : Bytes32, z32Decode s = some key.1) ↔ Spelled s ∧ s.length = 52 := by
  by_cases h : Spelled s
  · obtain ⟨data, -, hdec, hcount, -⟩ := h.exists_decode
    have hwhole : data.length = 32 ↔ s.length = 52 := by
      rw [hcount, wholeBytes]
      omega
    rw [and_iff_right h, ← hwhole]
    constructor
    · rintro ⟨key, hkey⟩
      rw [Option.some.inj (hdec.symm.trans hkey), key.2]
    · exact fun hlen ↦ ⟨⟨data, hlen⟩, hdec⟩
  · refine iff_of_false ?_ fun hs ↦ h hs.1
    rintro ⟨key, hkey⟩
    rw [z32Decode_eq, if_neg h] at hkey
    exact Option.some_ne_none _ hkey.symm

/-! ## The encoder -/

/-- **What the encoder writes**: a string of symbols, whose bits are those of the bytes with fewer
than five zeros behind them. -/
theorem exists_encode (data : Bytes) : Spelled (z32Encode data) ∧
    ∃ p < 5, symbolBits (z32Encode data) = byteBits data ++ List.replicate p false := by
  obtain ⟨vs, p, hvs, hp, henc, hbits⟩ := z32Encode_spec data
  rw [henc, symbolBits_map_symbolOf hvs]
  exact ⟨spelled_map_symbolOf hvs, p, hp, hbits⟩

/-- **Which strings the encoder writes**: those whose leftover bits are fewer than five, and all
zero. -/
theorem z32Encode_eq_iff (s : Bytes) : (z32Decode s).map z32Encode = some s ↔
    Spelled s ∧ (leftover s).length < 5 ∧ ∀ b ∈ leftover s, b = false := by
  by_cases h : Spelled s
  · obtain ⟨data, left, hdec, -, rfl, hbits⟩ := h.exists_decode
    obtain ⟨hspelled, p, hp, hpad⟩ := exists_encode data
    rw [hdec, Option.map_some, Option.some.injEq, and_iff_right h]
    constructor
    · intro henc
      rw [henc, ← hbits, List.append_cancel_left_eq] at hpad
      rw [hpad, List.length_replicate]
      exact ⟨hp, fun b ↦ List.eq_of_mem_replicate⟩
    · rintro ⟨hfew, hzero⟩
      -- Both strings come to whole symbols, and so the two paddings are equally long.
      have hleft := List.eq_replicate_of_mem hzero
      have hlen := congrArg List.length hpad
      have hlen' := congrArg List.length hbits
      rw [List.length_append, length_symbolBits, List.length_replicate] at hlen
      rw [List.length_append, length_symbolBits] at hlen'
      have hp' : p = (leftover s).length := by omega
      refine hspelled.eq_of_symbolBits h ?_
      rw [hpad, hp', ← hleft, hbits]
  · rw [z32Decode_eq, if_neg h]
    exact iff_of_false (fun hnone ↦ Option.some_ne_none s hnone.symm) fun hs ↦ h hs.1

/-! ## The names of a key -/

/-- The string that names a key with the bits of `i` left over. -/
def keyName (key : Bytes32) (i : Fin 16) : Bytes :=
  (words 5 52 (byteBits key.1 ++ bits 4 i)).map symbolOf

theorem spelled_keyName (key : Bytes32) (i : Fin 16) : Spelled (keyName key i) :=
  spelled_map_symbolOf fun _ ↦ lt_of_mem_words

theorem symbolBits_keyName (key : Bytes32) (i : Fin 16) :
    symbolBits (keyName key i) = byteBits key.1 ++ bits 4 i := by
  have hlen : (byteBits key.1 ++ bits 4 i).length = 5 * 52 := by
    rw [List.length_append, length_byteBits, length_bits, key.2]
  rw [keyName, symbolBits_map_symbolOf fun _ ↦ lt_of_mem_words,
    flatMap_words (Nat.le_of_eq hlen.symm), ← hlen, List.take_length]

/-- The bits of a name are those of the key with four behind them, so it is read as the key. -/
theorem decode_eq_iff {key : Bytes32} {s : Bytes} (h : Spelled s) :
    z32Decode s = some key.1 ↔ ∃ i : Fin 16, symbolBits s = byteBits key.1 ++ bits 4 i := by
  obtain ⟨data, left, hdec, hcount, rfl, hbits⟩ := h.exists_decode
  have hlen := congrArg List.length hbits
  rw [List.length_append, length_byteBits, length_symbolBits] at hlen
  rw [wholeBytes] at hcount
  rw [hdec, Option.some.injEq]
  constructor
  · rintro rfl
    have hfour : (leftover s).length = 4 := by
      have hkey := key.2
      omega
    have hlt := word_lt (leftover s)
    have hleft := bits_word (leftover s)
    rw [hfour] at hlt hleft
    exact ⟨⟨word (leftover s), hlt⟩, by rw [hleft, hbits]⟩
  · rintro ⟨i, hi⟩
    have hlen' := congrArg List.length hi
    rw [List.length_append, length_byteBits, length_bits, key.2, length_symbolBits] at hlen'
    have hcount' : data.length = key.1.length := by
      rw [key.2]
      omega
    refine byteBits_injective hcount' (List.append_inj (hbits.trans hi) ?_).1
    rw [length_byteBits, length_byteBits, hcount']

theorem keyName_injective (key : Bytes32) : Function.Injective (keyName key) := by
  intro i j h
  have hbits := symbolBits_keyName key j
  rw [← h, symbolBits_keyName, List.append_cancel_left_eq] at hbits
  exact Fin.ext (eq_of_bits_eq i.2 j.2 hbits)

/-- **A key has sixteen names.** -/
theorem ncard_names (key : Bytes32) : {s | z32Decode s = some key.1}.ncard = 16 := by
  have hrange : {s | z32Decode s = some key.1} = Set.range (keyName key) := by
    ext s
    constructor
    · intro hs
      have hspelled : Spelled s := by
        by_contra hnot
        exact Option.some_ne_none _ (hs.symm.trans ((z32Decode_eq s).trans (if_neg hnot)))
      obtain ⟨i, hi⟩ := (decode_eq_iff hspelled).mp hs
      exact ⟨i, (spelled_keyName key i).eq_of_symbolBits hspelled
        ((symbolBits_keyName key i).trans hi.symm)⟩
    · rintro ⟨i, rfl⟩
      exact (decode_eq_iff (spelled_keyName key i)).mpr ⟨i, symbolBits_keyName key i⟩
  rw [hrange, Set.ncard_range_of_injective (keyName_injective key), Nat.card_eq_fintype_card,
    Fintype.card_fin]

/-- **z-base-32 is a faithful code.** What is written is read back; what is read, and as what; which
strings are keys; which strings are written; and how many strings are read as the same key. -/
theorem z32_faithful :
    (∀ data, z32Decode (z32Encode data) = some data) ∧
      (∀ s, z32Decode s = if Spelled s then
        some ((words 8 (wholeBytes s) (symbolBits s)).map Nat.toUInt8) else none) ∧
      (∀ s, (∃ key : Bytes32, z32Decode s = some key.1) ↔ Spelled s ∧ s.length = 52) ∧
      (∀ s, (z32Decode s).map z32Encode = some s ↔
        Spelled s ∧ (leftover s).length < 5 ∧ ∀ b ∈ leftover s, b = false) ∧
      ∀ key : Bytes32, {s | z32Decode s = some key.1}.ncard = 16 :=
  ⟨z32Decode_z32Encode, z32Decode_eq, decodes_key_iff, z32Encode_eq_iff, ncard_names⟩

end Holesail
