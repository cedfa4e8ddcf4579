import Holesail.Codec.Hex
import Holesail.Theory.BitGroups

/-!
# Keys

z-base-32, the `hs://` url and the two hash functions everything else is derived from.

Both z-base-32 loops carry a 32-bit accumulator that wraps, with a count of the bits still pending
in it. What each loop writes is stated through `BitGroups.bits`: the encoder's quintets come to the
bits of its bytes followed by fewer than five zeros, and the decoder's bytes come to the bits of its
quintets with fewer than eight left over. The round trip is then a statement about bit strings.
-/

namespace Holesail

open BitGroups

/-! ## The z-base-32 loops -/

/-- The alphabet, the symbol for `v` at position `v`. -/
def kAlphabet : Bytes := ascii "ybndrfg8ejkmcpqxot1uwisza345h769"

def symbolOf (v : ℕ) : UInt8 := kAlphabet.getD v 0

/-- The quintet that the symbol `c` writes. The source's `-1` is `none`. -/
def quintetOf (c : UInt8) : Option ℕ := kAlphabet.idxOf? c

/-- The inner loop of `z32_encode`: write quintets while five bits are pending. -/
def encodeDrain (acc : UInt32) (bits : ℕ) (out : Bytes) : ℕ × Bytes :=
  if 5 ≤ bits then
    encodeDrain acc (bits - 5)
      (out ++ [symbolOf (acc >>> (bits - 5).toUInt32 &&& 0x1f).toNat])
  else (bits, out)

/-- The outer loop of `z32_encode`. -/
def z32EncodeLoop (acc : UInt32) (bits : ℕ) (out : Bytes) : Bytes → UInt32 × ℕ × Bytes
  | [] => (acc, bits, out)
  | b :: data =>
    let acc := acc <<< 8 ||| b.toUInt32
    let drained := encodeDrain acc (bits + 8) out
    z32EncodeLoop acc drained.1 drained.2 data

def z32Encode (data : Bytes) : Bytes :=
  let (acc, bits, out) := z32EncodeLoop 0 0 [] data
  if 0 < bits then out ++ [symbolOf (acc <<< (5 - bits).toUInt32 &&& 0x1f).toNat] else out

def z32DecodeLoop (acc : UInt32) (bits : ℕ) (out : Bytes) : Bytes → Option Bytes
  | [] => some out
  | c :: s =>
    match quintetOf c with
    | none => none
    | some v =>
      let acc := acc <<< 5 ||| v.toUInt32
      let bits := bits + 5
      if 8 ≤ bits then
        z32DecodeLoop acc (bits - 8)
          (out ++ [(acc >>> (bits - 8).toUInt32 &&& 0xff).toNat.toUInt8]) s
      else z32DecodeLoop acc bits out s

def z32Decode (s : Bytes) : Option Bytes := z32DecodeLoop 0 0 [] s

/-! ## The accumulator, read as bits -/

theorem quintetOf_symbolOf {v : ℕ} (h : v < 32) : quintetOf (symbolOf v) = some v := by
  interval_cases v <;> decide

theorem toNat_absorb (acc w : UInt32) {n : UInt32} (hn : n.toNat < 32) :
    (acc <<< n ||| w).toNat = (acc.toNat <<< n.toNat ||| w.toNat) % 2 ^ 32 := by
  rw [UInt32.toNat_or, UInt32.toNat_shiftLeft, Nat.mod_eq_of_lt hn, Nat.or_mod_two_pow,
    Nat.mod_eq_of_lt w.toNat_lt]

theorem toNat_emit (acc : UInt32) {k : ℕ} (hk : k < 32) {m : UInt32} {w : ℕ}
    (hmask : m.toNat = 2 ^ w - 1) :
    (acc >>> k.toUInt32 &&& m).toNat = (acc.toNat >>> k) % 2 ^ w := by
  have hshift : k.toUInt32.toNat % 32 = k := by
    rw [Nat.toUInt32_eq, UInt32.toNat_ofNat']
    omega
  rw [UInt32.toNat_and, UInt32.toNat_shiftRight, hshift, hmask, Nat.and_two_pow_sub_one_eq_mod]

/-- The inner loop writes the pending bits down to fewer than five. -/
theorem encodeDrain_spec (acc : UInt32) {k : ℕ} (hk : k ≤ 32) (out : Bytes) :
    ∃ vs : List ℕ, (∀ v ∈ vs, v < 2 ^ 5) ∧ (encodeDrain acc k out).1 < 5 ∧
      (encodeDrain acc k out).2 = out ++ vs.map symbolOf ∧
      vs.flatMap (bits 5) ++ bits (encodeDrain acc k out).1 acc.toNat = bits k acc.toNat := by
  fun_induction encodeDrain acc k out with
  | case1 k out hlarge ih =>
    obtain ⟨vs, hlt, hleft, hout, hbits⟩ := ih (by omega)
    have hemit := toNat_emit acc (k := k - 5) (by omega) (m := 0x1f) (w := 5) rfl
    refine ⟨(acc.toNat >>> (k - 5)) % 2 ^ 5 :: vs, ?_, hleft, ?_, ?_⟩
    · intro v hv
      rcases List.mem_cons.mp hv with rfl | hv
      · exact Nat.mod_lt _ (by decide)
      · exact hlt v hv
    · rw [hout, hemit, List.append_assoc, List.map_cons, List.singleton_append]
    · have hsplit := bits_emit (k := k - 5) (w := 5) acc.toNat
      rw [show 5 + (k - 5) = k by omega] at hsplit
      rw [List.flatMap_cons, List.append_assoc, hbits, hsplit]
  | case2 k out hsmall =>
    exact ⟨[], fun v hv ↦ absurd hv List.not_mem_nil, Nat.lt_of_not_le hsmall,
      (List.append_nil out).symm, rfl⟩

def byteBits (data : Bytes) : List Bool := (data.map UInt8.toNat).flatMap (bits 8)

@[simp] theorem byteBits_cons (b : UInt8) (data : Bytes) :
    byteBits (b :: data) = bits 8 b.toNat ++ byteBits data := rfl

theorem length_byteBits (data : Bytes) : (byteBits data).length = 8 * data.length := by
  rw [byteBits, length_flatMap_bits, List.length_map]

theorem byteBits_injective {a b : Bytes} (hlen : a.length = b.length)
    (h : byteBits a = byteBits b) : a = b := by
  have hlt : ∀ c : Bytes, ∀ n ∈ c.map UInt8.toNat, n < 2 ^ 8 := by
    intro c n hn
    obtain ⟨d, -, rfl⟩ := List.mem_map.mp hn
    exact d.toNat_lt
  have hmap :=
    flatMap_bits_injective (hlt a) (hlt b) (by rw [List.length_map, List.length_map, hlen]) h
  exact List.map_injective_iff.mpr (fun _ _ ↦ UInt8.toNat_inj.mp) hmap

/-- The outer loop carries fewer than five bits over from one byte to the next. -/
theorem z32EncodeLoop_spec (data : Bytes) (acc : UInt32) {k : ℕ} (hk : k < 5) (out : Bytes) :
    ∃ vs : List ℕ, (∀ v ∈ vs, v < 2 ^ 5) ∧ (z32EncodeLoop acc k out data).2.1 < 5 ∧
      (z32EncodeLoop acc k out data).2.2 = out ++ vs.map symbolOf ∧
      vs.flatMap (bits 5) ++ bits (z32EncodeLoop acc k out data).2.1
          (z32EncodeLoop acc k out data).1.toNat
        = bits k acc.toNat ++ byteBits data := by
  induction data generalizing acc k out with
  | nil =>
    exact ⟨[], fun v hv ↦ absurd hv List.not_mem_nil, hk, (List.append_nil out).symm,
      (List.append_nil _).symm⟩
  | cons b data ih =>
    rw [z32EncodeLoop]
    obtain ⟨us, hus, hleft, hout, hubits⟩ :=
      encodeDrain_spec (acc <<< 8 ||| b.toUInt32) (k := k + 8) (by omega) out
    obtain ⟨vs, hvs, hlast, hout', hvbits⟩ := ih (acc <<< 8 ||| b.toUInt32) hleft
      (encodeDrain (acc <<< 8 ||| b.toUInt32) (k + 8) out).2
    have habsorb : bits (k + 8) (acc <<< 8 ||| b.toUInt32).toNat
        = bits k acc.toNat ++ bits 8 b.toNat := by
      rw [toNat_absorb acc _ (n := 8) (by decide), UInt8.toNat_toUInt32]
      exact bits_absorb (by omega) acc.toNat b.toNat_lt
    refine ⟨us ++ vs, ?_, hlast, ?_, ?_⟩
    · intro v hv
      rcases List.mem_append.mp hv with hv | hv
      · exact hus v hv
      · exact hvs v hv
    · rw [hout', hout, List.append_assoc, List.map_append]
    · rw [List.flatMap_append, List.append_assoc, hvbits, ← List.append_assoc, hubits, habsorb,
        List.append_assoc, byteBits_cons]

/-- **What the encoder writes**: quintets whose bits are those of the bytes, followed by fewer than
five zeros. -/
theorem z32Encode_spec (data : Bytes) :
    ∃ (vs : List ℕ) (p : ℕ), (∀ v ∈ vs, v < 2 ^ 5) ∧ p < 5 ∧
      z32Encode data = vs.map symbolOf ∧
      vs.flatMap (bits 5) = byteBits data ++ List.replicate p false := by
  obtain ⟨vs, hvs, hlt, hout, hbits⟩ := z32EncodeLoop_spec data 0 (k := 0) (by decide) []
  rw [z32Encode]
  generalize hloop : z32EncodeLoop 0 0 [] data = res at hlt hout hbits
  obtain ⟨acc, k, out⟩ := res
  simp only at hlt hout hbits ⊢
  rw [List.nil_append] at hout
  rw [show bits 0 (UInt32.toNat 0) = [] from rfl, List.nil_append] at hbits
  -- Bits left over make one more quintet, padded with zeros on the right.
  by_cases hk : 0 < k
  · have hpad : (acc <<< (5 - k).toUInt32 &&& 0x1f).toNat = (acc.toNat <<< (5 - k)) % 2 ^ 5 := by
      have hshift : (5 - k).toUInt32.toNat % 32 = 5 - k := by
        rw [Nat.toUInt32_eq, UInt32.toNat_ofNat']
        omega
      rw [UInt32.toNat_and, UInt32.toNat_shiftLeft, hshift]
      change _ &&& (2 ^ 5 - 1) = _
      rw [Nat.and_two_pow_sub_one_eq_mod]
      exact Nat.mod_mod_of_dvd _ (by decide)
    have hzeros := bits_pad k (5 - k) acc.toNat
    rw [show k + (5 - k) = 5 by omega] at hzeros
    refine ⟨vs ++ [(acc.toNat <<< (5 - k)) % 2 ^ 5], 5 - k, ?_, by omega, ?_, ?_⟩
    · intro v hv
      rcases List.mem_append.mp hv with hv | hv
      · exact hvs v hv
      · rw [List.mem_singleton.mp hv]
        exact Nat.mod_lt _ (by decide)
    · rw [if_pos hk, hout, hpad, List.map_append]
      rfl
    · rw [List.flatMap_append, List.flatMap_singleton, hzeros, ← List.append_assoc, hbits]
  · obtain rfl : k = 0 := Nat.eq_zero_of_not_pos hk
    refine ⟨vs, 0, hvs, by decide, ?_, ?_⟩
    · rw [if_neg hk, hout]
    · rw [List.replicate_zero, List.append_nil, ← hbits, show bits 0 acc.toNat = [] from rfl,
        List.append_nil]

/-- **What the decoder writes**: bytes whose bits are those of the quintets, with fewer than eight
left over. -/
theorem z32DecodeLoop_spec (vs : List ℕ) (hvs : ∀ v ∈ vs, v < 2 ^ 5) (acc : UInt32) {k : ℕ}
    (hk : k < 8) (out : Bytes) :
    ∃ (bs : Bytes) (left : List Bool),
      z32DecodeLoop acc k out (vs.map symbolOf) = some (out ++ bs) ∧ left.length < 8 ∧
      byteBits bs ++ left = bits k acc.toNat ++ vs.flatMap (bits 5) := by
  -- By induction on the quintets: the low `k` bits of the accumulator are still to be written.
  induction vs generalizing acc k out with
  | nil =>
    refine ⟨[], bits k acc.toNat, ?_, by rw [length_bits]; exact hk, ?_⟩
    · rw [List.append_nil]
      rfl
    · rw [List.flatMap_nil, List.append_nil]
      rfl
  | cons v vs ih =>
    have hv : v < 32 := hvs v List.mem_cons_self
    have hvs' := fun w hw ↦ hvs w (List.mem_cons_of_mem v hw)
    have habsorb : bits (k + 5) (acc <<< 5 ||| v.toUInt32).toNat
        = bits k acc.toNat ++ bits 5 v := by
      have hword : v.toUInt32.toNat = v := by
        rw [Nat.toUInt32_eq, UInt32.toNat_ofNat']
        omega
      rw [toNat_absorb acc _ (n := 5) (by decide), hword]
      exact bits_absorb (by omega) acc.toNat hv
    rw [List.map_cons, z32DecodeLoop, quintetOf_symbolOf hv]
    simp only
    generalize acc <<< 5 ||| v.toUInt32 = acc' at habsorb
    -- With five bits more there is a byte to be written, or not yet.
    by_cases hfull : 8 ≤ k + 5
    · rw [if_pos hfull]
      have hemit := toNat_emit acc' (k := k + 5 - 8) (by omega) (m := 0xff) (w := 8) rfl
      generalize (acc' >>> (k + 5 - 8).toUInt32 &&& 0xff).toNat = b at hemit
      obtain ⟨bs, left, hdec, hleft, hbits⟩ := ih hvs' acc' (k := k + 5 - 8) (by omega)
        (out ++ [b.toUInt8])
      have hbyte : b.toUInt8.toNat = b := by
        rw [Nat.toUInt8_eq, UInt8.toNat_ofNat', hemit, Nat.mod_mod]
      have hsplit := bits_emit (k := k + 5 - 8) (w := 8) acc'.toNat
      rw [show 8 + (k + 5 - 8) = k + 5 by omega] at hsplit
      refine ⟨b.toUInt8 :: bs, left, ?_, hleft, ?_⟩
      · rw [hdec, List.append_assoc, List.singleton_append]
      · calc byteBits (b.toUInt8 :: bs) ++ left
            = bits 8 b ++ (byteBits bs ++ left) := by
              rw [byteBits_cons, hbyte, List.append_assoc]
          _ = bits 8 b ++ bits (k + 5 - 8) acc'.toNat ++ vs.flatMap (bits 5) := by
              rw [hbits, List.append_assoc]
          _ = bits k acc.toNat ++ (v :: vs).flatMap (bits 5) := by
              rw [hemit, ← hsplit, habsorb, List.append_assoc, List.flatMap_cons]
    · rw [if_neg hfull]
      obtain ⟨bs, left, hdec, hleft, hbits⟩ := ih hvs' acc' (k := k + 5) (by omega) out
      refine ⟨bs, left, hdec, hleft, ?_⟩
      rw [hbits, habsorb, List.append_assoc, List.flatMap_cons]

/-- **The z-base-32 round trip.** -/
@[simp] theorem z32Decode_z32Encode (data : Bytes) : z32Decode (z32Encode data) = some data := by
  obtain ⟨vs, p, hvs, hp, henc, hbits⟩ := z32Encode_spec data
  obtain ⟨bs, left, hdec, hleft, hbits'⟩ := z32DecodeLoop_spec vs hvs 0 (k := 0) (by decide) []
  rw [show bits 0 (UInt32.toNat 0) = [] from rfl, List.nil_append, hbits] at hbits'
  have hlen := congrArg List.length hbits'
  rw [List.length_append, List.length_append, length_byteBits, length_byteBits,
    List.length_replicate] at hlen
  have hcount : bs.length = data.length := by omega
  have hbytes : bs = data := by
    refine byteBits_injective hcount (List.append_inj hbits' ?_).1
    rw [length_byteBits, length_byteBits, hcount]
  rw [z32Decode, henc, hdec, List.nil_append, hbytes]

/-! ## Hashing -/

abbrev Bytes32 := { b : Bytes // b.length = 32 }

/-- A DHT keypair. Only the public half is ever looked at. -/
structure Keypair where
  publicKey : Bytes32
deriving DecidableEq

/-- The two functions the identities are derived with: `crypto_hash_sha256` and
`hyperdht_keypair_from_seed`. Nothing is assumed of them but that they are functions. -/
structure Crypto where
  sha256 : Bytes → Bytes32
  keypairFromSeed : Bytes32 → Keypair

/-- `random_hex32`, given the bytes `randombytes_buf` put in the buffer. -/
def randomHex32 (buf : Bytes32) : Bytes := toHex buf.1

/-! ## The url -/

/-- What `parse_url` finds. `secure` is `none` where the url does not determine it. -/
structure ParsedUrl where
  key : Bytes
  secure : Option Bool := none
deriving DecidableEq

/-- `parse_url`: strip an `hs://` prefix with its four-character mode field, and sniff `secure`
from the character at index 5, prefixed or not. -/
def parseUrl (url : Bytes) : ParsedUrl where
  key := if 9 ≤ url.length ∧ url.take 5 = ascii "hs://" then url.drop 9 else url
  secure := if 5 < url.length ∧ url[5]? = some 0x73 then some true else none

def makeUrl (secure : Bool) (key : Bytes) : Bytes :=
  (if secure then ascii "hs://s000" else ascii "hs://0000") ++ key

/-- **A url the program prints is read back as it was made**, whatever the key. -/
theorem parseUrl_makeUrl (secure : Bool) (key : Bytes) :
    parseUrl (makeUrl secure key) = ⟨key, if secure then some true else none⟩ := by
  have hprefix : ∃ m : Bytes, m.length = 4 ∧ makeUrl secure key = ascii "hs://" ++ (m ++ key) ∧
      (m ++ key)[0]? = some (if secure then 0x73 else 0x30) := by
    cases secure with
    | true => exact ⟨ascii "s000", rfl, rfl, rfl⟩
    | false => exact ⟨ascii "0000", rfl, rfl, rfl⟩
  obtain ⟨m, hm, hurl, hsniff⟩ := hprefix
  have hfive : (ascii "hs://").length = 5 := rfl
  have hlen : (makeUrl secure key).length = 9 + key.length := by
    rw [hurl, List.length_append, List.length_append, hm, hfive]
    omega
  have htake : (makeUrl secure key).take 5 = ascii "hs://" := by
    rw [hurl, ← hfive, List.take_left]
  have hdrop : (makeUrl secure key).drop 9 = key := by
    rw [hurl, ← List.append_assoc, List.drop_append_of_le_length (by simp [hm, hfive])]
    rw [List.drop_eq_nil_of_le (by simp [hm, hfive]), List.nil_append]
  have hat : (makeUrl secure key)[5]? = some (if secure then 0x73 else 0x30) := by
    rw [hurl, List.getElem?_append_right (by rw [hfive]), hfive]
    exact hsniff
  rw [parseUrl, if_pos ⟨by omega, htake⟩, hdrop, hat]
  cases secure with
  | true => rw [if_pos ⟨by omega, rfl⟩]; rfl
  | false => rw [if_neg fun h ↦ absurd h.2 (by decide)]; rfl

/-! ## A test vector -/

/-- The key string of the key-derivation vector, and its hash and public key. -/
def vectorKey : Bytes := ascii "this-is-a-32-char-holesail-key!!"

/-- The hash of `vectorKey`. -/
def vectorSeed : Bytes32 := ⟨[
  0xa4, 0xe1, 0x50, 0x4a, 0xf3, 0x32, 0x3f, 0x76, 0x65, 0xdd, 0x1e, 0xa7, 0x45, 0xc7, 0xf6, 0xf8,
  0x6d, 0x3a, 0xd3, 0x2a, 0x0e, 0xca, 0x59, 0x88, 0xfb, 0xac, 0x19, 0xf0, 0xd3, 0x13, 0x76, 0xf0],
  rfl⟩

def vectorPublicKey : Bytes32 := ⟨[
  0xc5, 0xff, 0xfd, 0x40, 0x7e, 0xa7, 0xd8, 0x30, 0x56, 0xda, 0x8e, 0x19, 0x3f, 0x33, 0x96, 0x7b,
  0x2d, 0x9d, 0x42, 0xb5, 0xf4, 0xa9, 0xd5, 0x47, 0x57, 0xf0, 0x25, 0x3a, 0x1c, 0xe5, 0x6a, 0x30],
  rfl⟩

/-- Two functions that answer as the real ones do on the test vector. -/
def vectorCrypto : Crypto where
  sha256 := fun _ ↦ vectorSeed
  keypairFromSeed := fun _ ↦ ⟨vectorPublicKey⟩

end Holesail
