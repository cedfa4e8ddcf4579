import Mathlib.Data.Bool.AllAny
import Mathlib.Data.List.DropRight
import Holesail.Codec.Hex
import Holesail.Theory.Digits

/-!
# The published record

The mutable DHT record a server publishes, `encode_record`, and the hand-written reader a client
applies to it, `decode_record`. The reader's cursor `size_t& i` is carried here as the part of the
input that is still ahead of it, so each reading function returns what it read together with what
is left.

The reader has no notion of a grammar: it accepts what its loops accept. What is proved about it
here is the round trip with the writer.
-/

namespace Holesail

open Decimal

/-- What a record says. An absent host is the empty one. -/
structure Record where
  host : Bytes := []
  udp : Option Bool := none
  port : Option UInt16 := none
deriving DecidableEq

/-! ## The writer -/

/-- What `append_escaped` appends for one byte. -/
def escapeByte (c : UInt8) : Bytes :=
  if c = 0x22 then ascii "\\\""
  else if c = 0x5c then ascii "\\\\"
  else if c = 0x0a then ascii "\\n"
  else if c = 0x0d then ascii "\\r"
  else if c = 0x09 then ascii "\\t"
  else if c < 0x20 then ascii "\\u00" ++ [hexDigit (c >>> 4 &&& 0x0f), hexDigit (c &&& 0x0f)]
  else [c]

def appendEscaped (out s : Bytes) : Bytes := s.foldl (fun out c ↦ out ++ escapeByte c) out

/-- `std::to_string`. -/
def toDecimal (n : ℕ) : Bytes := ascii (Nat.repr n)

/-- `encode_record`: the fields in the order host, udp, port, with an absent `udp` left out. -/
def encodeRecord (host : Bytes) (udp : Option Bool) (port : UInt16) : Bytes :=
  let out := appendEscaped (ascii "\x7b\"host\":\"") host ++ ascii "\""
  let out := match udp with
    | some b => out ++ ascii ",\"udp\":" ++ (if b then ascii "true" else ascii "false")
    | none => out
  out ++ ascii ",\"port\":" ++ toDecimal port.toNat ++ ascii "\x7d"

/-! ## The reader -/

/-- The four characters `skip_ws` skips and `read_scalar` trims. -/
def isWs (c : UInt8) : Bool := c = 0x20 || c = 0x09 || c = 0x0a || c = 0x0d

def skipWs (s : Bytes) : Bytes := s.dropWhile isWs

/-- The two-character escapes of `read_string`. -/
def unescape (e : UInt8) : Option UInt8 :=
  if e = 0x22 then some 0x22
  else if e = 0x5c then some 0x5c
  else if e = 0x2f then some 0x2f
  else if e = 0x6e then some 0x0a
  else if e = 0x72 then some 0x0d
  else if e = 0x74 then some 0x09
  else if e = 0x62 then some 0x08
  else if e = 0x66 then some 0x0c
  else none

/-- The code a `\u` escape spells. -/
def hexCode (h₀ h₁ h₂ h₃ : UInt8) : Option ℕ := do
  let v₀ ← nibbleOf h₀
  let v₁ ← nibbleOf h₁
  let v₂ ← nibbleOf h₂
  let v₃ ← nibbleOf h₃
  return ((v₀ <<< 4 ||| v₁) <<< 4 ||| v₂) <<< 4 ||| v₃

/-- The loop of `read_string`, behind the opening quote. -/
def readStringLoop (out : Bytes) : Bytes → Option (Bytes × Bytes)
  | [] => none
  | c :: s =>
    if c = 0x22 then some (out, s)
    else if c ≠ 0x5c then readStringLoop (out ++ [c]) s
    else match s with
      | [] => none
      | e :: s =>
        if e = 0x75 then
          match s with
          | h₀ :: h₁ :: h₂ :: h₃ :: s =>
            match hexCode h₀ h₁ h₂ h₃ with
            -- Anything above ASCII reads as a literal `?`.
            | some code => readStringLoop (out ++ [if code < 0x80 then code.toUInt8 else 0x3f]) s
            | none => none
          | _ => none
        else match unescape e with
          | some b => readStringLoop (out ++ [b]) s
          | none => none

/-- `read_string`: the string and what follows its closing quote. -/
def readString : Bytes → Option (Bytes × Bytes)
  | [] => none
  | c :: s => if c = 0x22 then readStringLoop [] s else none

def endsScalar (c : UInt8) : Bool := c = 0x2c || c = 0x7d

/-- `read_scalar`: the raw text of one scalar, trimmed on the right, and what follows it. -/
def readScalar (s : Bytes) : Option (Bytes × Bytes) :=
  let raw := (s.takeWhile fun c ↦ !endsScalar c).rdropWhile isWs
  if raw = [] then none else some (raw, s.dropWhile fun c ↦ !endsScalar c)

/-- `isspace` in the C locale. -/
def isSpace (c : UInt8) : Bool := c = 0x20 || (0x09 ≤ c && c ≤ 0x0d)

/-- `std::strtol(text.c_str(), &end, 10)`: the value, clamped to `long`, and the C string at `end`.
Without a digit nothing is converted and `end` is the start. -/
def strtol (text : Bytes) : ℤ × Bytes :=
  let cstr := text.takeWhile (· ≠ 0)
  let s := cstr.dropWhile isSpace
  let (negative, s) := match s with
    | c :: t => if c = 0x2d then (true, t) else if c = 0x2b then (false, t) else (false, s)
    | [] => (false, s)
  let ds := s.takeWhile isDigit
  if ds = [] then (0, cstr)
  else
    let v : ℤ := if negative then -digitsValue ds else digitsValue ds
    (max (-2 ^ 63) (min v (2 ^ 63 - 1)), s.dropWhile isDigit)

/-- What a scalar member does to the record. Unknown keys and odd values leave it alone. -/
def setScalar (r : Record) (key raw : Bytes) : Record :=
  if key = ascii "udp" then
    if raw = ascii "true" then { r with udp := some true }
    else if raw = ascii "false" then { r with udp := some false }
    else r
  else if key = ascii "port" then
    let (v, stop) := strtol raw
    if stop = [] ∧ 1 ≤ v ∧ v ≤ 65535 then { r with port := some v.toNat.toUInt16 } else r
  else r

/-- The value of one member, from its first byte on. -/
def readValue (r : Record) (key : Bytes) : Bytes → Option (Record × Bytes)
  | [] => none
  | c :: s =>
    if c = 0x22 then
      match readString (c :: s) with
      | some (value, s) => some (if key = ascii "host" then { r with host := value } else r, s)
      | none => none
    else match readScalar (c :: s) with
      | some (raw, s) => some (setScalar r key raw, s)
      | none => none

/-- One turn of `decode_record`'s loop, up to the delimiter behind the member. -/
def readMember (r : Record) (s : Bytes) : Option (Record × Bytes) :=
  match readString (skipWs s) with
  | none => none
  | some (key, s) =>
    match skipWs s with
    | [] => none
    | c :: s =>
      if c ≠ 0x3a then none
      else match readValue r key (skipWs s) with
        | none => none
        | some (r, s) => some (r, skipWs s)

/-! ### Every turn of the loop consumes input -/

theorem length_skipWs_le (s : Bytes) : (skipWs s).length ≤ s.length :=
  (List.dropWhile_sublist _).length_le

theorem length_of_readStringLoop {out s v r : Bytes} (h : readStringLoop out s = some (v, r)) :
    r.length < s.length := by
  fun_induction readStringLoop out s with
  | case1 => exact nomatch h
  | case2 out s =>
    cases h
    exact Nat.lt_succ_self _
  | case3 out c s _ _ ih => exact Nat.lt_succ_of_lt (ih h)
  | case4 => exact nomatch h
  | case5 out _ _ h₀ h₁ h₂ h₃ s _ code _ ih =>
    have := ih h
    simp only [List.length_cons]
    omega
  | case6 => exact nomatch h
  | case7 => exact nomatch h
  | case8 _ _ _ _ _ _ _ _ _ ih =>
    have := ih h
    simp only [List.length_cons]
    omega
  | case9 => exact nomatch h

theorem length_of_readString {s v r : Bytes} (h : readString s = some (v, r)) :
    r.length < s.length := by
  cases s with
  | nil => exact nomatch h
  | cons c s =>
    rw [readString] at h
    split_ifs at h
    exact Nat.lt_succ_of_lt (length_of_readStringLoop h)

theorem length_of_readScalar {s v r : Bytes} (h : readScalar s = some (v, r)) :
    r.length ≤ s.length := by
  simp only [readScalar] at h
  split_ifs at h
  cases h
  exact (List.dropWhile_sublist _).length_le

theorem length_of_readValue {r r' : Record} {key s t : Bytes}
    (h : readValue r key s = some (r', t)) : t.length ≤ s.length := by
  cases s with
  | nil => exact nomatch h
  | cons c s =>
    rw [readValue] at h
    by_cases hc : c = 0x22
    · rw [if_pos hc] at h
      split at h
      · next value t' hs =>
        cases h
        exact (length_of_readString hs).le
      · exact nomatch h
    · rw [if_neg hc] at h
      split at h
      · next raw t' hs =>
        cases h
        exact length_of_readScalar hs
      · exact nomatch h

theorem length_of_readMember {r r' : Record} {s t : Bytes} (h : readMember r s = some (r', t)) :
    t.length < s.length := by
  rw [readMember] at h
  split at h
  · exact nomatch h
  · next key s₁ hkey =>
    have h₁ := length_of_readString hkey
    have h₀ := length_skipWs_le s
    split at h
    · exact nomatch h
    · next c s₂ hcolon =>
      have h₂ := length_skipWs_le s₁
      rw [hcolon, List.length_cons] at h₂
      split_ifs at h
      split at h
      · exact nomatch h
      · next r₁ s₃ hvalue =>
        cases h
        have h₃ := length_of_readValue hvalue
        have h₄ := length_skipWs_le s₂
        have h₅ := length_skipWs_le s₃
        omega

def decodeLoop (r : Record) (s : Bytes) : Option Record :=
  if s = [] then none
  else match _h : readMember r s with
    | some (r, c :: s) =>
      if c = 0x2c then decodeLoop r s
      else if c = 0x7d then some r
      else none
    | _ => none
termination_by s.length
decreasing_by
  have := length_of_readMember ‹_›
  simp only [List.length_cons] at this
  omega

/-- `decode_record`. What follows the closing brace is not looked at. -/
def decodeRecord (json : Bytes) : Option Record :=
  match skipWs json with
  | [] => none
  | c :: s =>
    if c ≠ 0x7b then none
    else match skipWs s with
      | c :: t => if c = 0x7d then some {} else decodeLoop {} (c :: t)
      | [] => decodeLoop {} []

/-! ## Strings survive the two escape tables -/

theorem appendEscaped_eq (out s : Bytes) : appendEscaped out s = out ++ s.flatMap escapeByte := by
  induction s generalizing out with
  | nil => exact (List.append_nil out).symm
  | cons c s ih =>
    rw [appendEscaped, List.foldl_cons, ← appendEscaped, ih, List.flatMap_cons,
      List.append_assoc]

/-! The four ways one turn of the string loop goes on. -/

theorem readStringLoop_quote (out s : Bytes) :
    readStringLoop out (0x22 :: s) = some (out, s) := by
  rw [readStringLoop.eq_def]
  exact if_pos rfl

theorem readStringLoop_plain (out : Bytes) {c : UInt8} (hquote : c ≠ 0x22) (hslash : c ≠ 0x5c)
    (s : Bytes) : readStringLoop out (c :: s) = readStringLoop (out ++ [c]) s := by
  rw [readStringLoop.eq_def]
  simp only [if_neg hquote, if_pos hslash]

theorem readStringLoop_unescape (out : Bytes) {e b : UInt8} (hu : e ≠ 0x75)
    (hb : unescape e = some b) (s : Bytes) :
    readStringLoop out (0x5c :: e :: s) = readStringLoop (out ++ [b]) s := by
  rw [readStringLoop.eq_def]
  simp only [if_neg (show (0x5c : UInt8) ≠ 0x22 by decide),
    if_neg (show ¬(0x5c : UInt8) ≠ 0x5c by decide), if_neg hu, hb]

theorem readStringLoop_unicode (out : Bytes) {h₀ h₁ h₂ h₃ : UInt8} {code : ℕ}
    (hcode : hexCode h₀ h₁ h₂ h₃ = some code) (hascii : code < 0x80) (s : Bytes) :
    readStringLoop out (0x5c :: 0x75 :: h₀ :: h₁ :: h₂ :: h₃ :: s)
      = readStringLoop (out ++ [code.toUInt8]) s := by
  rw [readStringLoop.eq_def]
  simp only [if_neg (show (0x5c : UInt8) ≠ 0x22 by decide),
    if_neg (show ¬(0x5c : UInt8) ≠ 0x5c by decide), if_true, hcode, if_pos hascii]

theorem hexCode_control {c : UInt8} (h : c < 0x20) :
    hexCode 0x30 0x30 (hexDigit (c >>> 4 &&& 0x0f)) (hexDigit (c &&& 0x0f)) = some c.toNat := by
  have hc : c.toNat < 32 := h
  have hlow := nibbleOf_lowDigit (c >>> 4)
  rw [toNat_highNibble, Nat.mod_eq_of_lt (by omega)] at hlow
  have hz : nibbleOf 0x30 = some 0 := rfl
  have hor : (c.toNat / 16) <<< 4 ||| c.toNat % 16 = c.toNat := by
    rw [← Nat.shiftLeft_add_eq_or_of_lt (i := 4) (by omega), Nat.shiftLeft_eq]
    omega
  rw [hexCode, hz, hlow, nibbleOf_lowDigit]
  change some (((0 <<< 4 ||| 0) <<< 4 ||| c.toNat / 16) <<< 4 ||| c.toNat % 16) = some c.toNat
  rw [Nat.zero_shiftLeft, Nat.or_zero, Nat.zero_shiftLeft, Nat.zero_or, hor]

/-- One escaped byte is read back as that byte, whatever the table entry that wrote it. -/
theorem readStringLoop_escapeByte (out : Bytes) (c : UInt8) (s : Bytes) :
    readStringLoop out (escapeByte c ++ s) = readStringLoop (out ++ [c]) s := by
  unfold escapeByte
  split_ifs with hquote hslash hn hr ht hcontrol
  · rw [hquote]
    exact readStringLoop_unescape out (by decide) rfl s
  · rw [hslash]
    exact readStringLoop_unescape out (by decide) rfl s
  · rw [hn]
    exact readStringLoop_unescape out (by decide) rfl s
  · rw [hr]
    exact readStringLoop_unescape out (by decide) rfl s
  · rw [ht]
    exact readStringLoop_unescape out (by decide) rfl s
  · have hc : c.toNat < 32 := hcontrol
    have hback : c.toNat.toUInt8 = c := by rw [Nat.toUInt8_eq, UInt8.ofNat_toNat]
    have hread := readStringLoop_unicode out (hexCode_control hcontrol) (by omega) s
    rw [hback] at hread
    exact hread
  · exact readStringLoop_plain out hquote hslash s

theorem readStringLoop_escaped (host out s : Bytes) :
    readStringLoop out (host.flatMap escapeByte ++ 0x22 :: s) = some (out ++ host, s) := by
  induction host generalizing out with
  | nil =>
    rw [List.append_nil]
    exact readStringLoop_quote out s
  | cons c host ih =>
    rw [List.flatMap_cons, List.append_assoc, readStringLoop_escapeByte, ih, List.append_assoc,
      List.singleton_append]

/-! ## Numbers survive `to_string` and `strtol` -/

theorem isDigit_of_mem_toDecimal {n : ℕ} {d : UInt8} (h : d ∈ toDecimal n) :
    0x30 ≤ d.toNat ∧ d.toNat ≤ 0x39 := by
  rw [toDecimal, ascii, Nat.toList_repr, List.mem_map] at h
  obtain ⟨c, hc, rfl⟩ := h
  have hdigit := Nat.isDigit_of_mem_toDigits (by decide) (by decide) hc
  rw [Char.isDigit_iff_toNat] at hdigit
  have hlow : 48 ≤ c.toNat := hdigit.1
  have hhigh : c.toNat ≤ 57 := hdigit.2
  rw [Nat.toUInt8_eq, UInt8.toNat_ofNat']
  omega

theorem toDecimal_ne_nil (n : ℕ) : toDecimal n ≠ [] := by
  rw [toDecimal, ascii, Nat.toList_repr, Ne, List.map_eq_nil_iff]
  exact Nat.toDigits_ne_nil

theorem digitsValue_toDecimal (n : ℕ) : digitsValue (toDecimal n) = n := by
  have hfold : ∀ (cs : List Char) (v : ℕ), (∀ c ∈ cs, c.toNat < 256) →
      (cs.map fun c ↦ c.toNat.toUInt8).foldl (fun v d ↦ 10 * v + (d.toNat - 0x30)) v
        = Nat.ofDigitChars 10 cs v := by
    intro cs
    induction cs with
    | nil => intro v _; rw [List.map_nil, List.foldl_nil, Nat.ofDigitChars_nil]
    | cons c cs ih =>
      intro v h
      have hc : c.toNat.toUInt8.toNat = c.toNat := by
        rw [Nat.toUInt8_eq, UInt8.toNat_ofNat']
        exact Nat.mod_eq_of_lt (h c List.mem_cons_self)
      rw [List.map_cons, List.foldl_cons, hc, ih _ fun c hc ↦ h c (List.mem_cons_of_mem _ hc),
        Nat.ofDigitChars_cons]
      rfl
  rw [digitsValue, toDecimal, ascii, Nat.toList_repr, hfold, Nat.ofDigitChars_ten_toDigits]
  intro c hc
  have hdigit := Nat.isDigit_of_mem_toDigits (by decide) (by decide) hc
  rw [Char.isDigit_iff_toNat] at hdigit
  exact Nat.lt_of_le_of_lt hdigit.2 (by decide)

theorem isSpace_of_isDigit {c : UInt8} (h : isDigit c = true) : isSpace c = false := by
  have hlow := (isDigit_eq_true_iff.1 h).1
  rw [isSpace, decide_eq_false (ne_of_isDigit h (d := 0x20) rfl), Bool.false_or,
    Bool.and_eq_false_iff]
  refine Or.inr (decide_eq_false fun hle ↦ ?_)
  have : c.toNat ≤ 13 := hle
  omega

/-- On a number, `strtol` converts the digits and stops behind them. -/
theorem strtol_append {minus int rest : Bytes} (hminus : minus = [] ∨ minus = [0x2d])
    (hne : int ≠ []) (hint : ∀ c ∈ int, isDigit c = true)
    (hrest : ∀ c ∈ rest.head?, isDigit c = false) (hzero : ∀ c ∈ rest, c ≠ 0) :
    strtol (minus ++ (int ++ rest))
      = (max (-2 ^ 63) (min (if minus = [] then (digitsValue int : ℤ) else -digitsValue int)
          (2 ^ 63 - 1)), rest) := by
  have htake : (int ++ rest).takeWhile isDigit = int := by
    rw [List.takeWhile_append_of_pos hint]
    cases rest with
    | nil => exact List.append_nil int
    | cons c rest => rw [List.takeWhile_cons_of_neg (by simp [hrest c rfl]), List.append_nil]
  have hdrop : (int ++ rest).dropWhile isDigit = rest := by
    rw [List.dropWhile_append_of_pos hint]
    cases rest with
    | nil => rfl
    | cons c rest => exact List.dropWhile_cons_of_neg (by simp [hrest c rfl])
  -- There is no zero byte, so the C string is the whole text.
  have hcstr : ∀ c ∈ int ++ rest, decide (c ≠ 0) = true := by
    intro c hc
    rcases List.mem_append.1 hc with hc | hc
    · exact decide_eq_true (ne_of_isDigit (hint c hc) rfl)
    · exact decide_eq_true (hzero c hc)
  rcases hminus with rfl | rfl
  · obtain ⟨d, ds, rfl⟩ := List.exists_cons_of_ne_nil hne
    have hd := hint d List.mem_cons_self
    rw [List.cons_append] at htake hdrop hcstr
    simp only [strtol, List.nil_append, List.cons_append, List.takeWhile_eq_self_iff.2 hcstr,
      List.dropWhile_cons_of_neg (show ¬isSpace d = true by simp [isSpace_of_isDigit hd]),
      if_neg (ne_of_isDigit hd (d := 0x2d) rfl), if_neg (ne_of_isDigit hd (d := 0x2b) rfl), htake,
      if_neg hne, hdrop, Bool.false_eq_true, if_false, if_true]
  · have hcstr' : ∀ c ∈ 0x2d :: (int ++ rest), decide (c ≠ 0) = true :=
      List.forall_mem_cons.2 ⟨rfl, hcstr⟩
    simp only [strtol, List.singleton_append, List.takeWhile_eq_self_iff.2 hcstr',
      List.dropWhile_cons_of_neg (show ¬isSpace 0x2d = true by decide), if_true, htake, if_neg hne,
      hdrop, if_neg (List.cons_ne_nil (0x2d : UInt8) [])]

theorem strtol_toDecimal {n : ℕ} (h : n < 2 ^ 63) : strtol (toDecimal n) = ((n : ℤ), []) := by
  have hconvert : strtol ([] ++ (toDecimal n ++ [])) = _ :=
    strtol_append (Or.inl rfl) (toDecimal_ne_nil n)
      (fun d hd ↦ isDigit_eq_true_iff.2 (isDigit_of_mem_toDecimal hd))
      (fun c hc ↦ absurd hc (Option.not_mem_none c)) (fun c hc ↦ absurd hc List.not_mem_nil)
  rw [List.nil_append, List.append_nil, if_pos rfl, digitsValue_toDecimal] at hconvert
  rw [hconvert, min_eq_left (by omega), max_eq_right (by omega)]

/-! ## The round trip -/

theorem skipWs_cons {c : UInt8} (h : isWs c = false) (s : Bytes) : skipWs (c :: s) = c :: s :=
  List.dropWhile_cons_of_neg (by simp [h])

/-- A scalar without blanks or delimiters is read up to the delimiter that ends it. -/
theorem readScalar_append {raw : Bytes} (hne : raw ≠ [])
    (hraw : ∀ c ∈ raw, endsScalar c = false ∧ isWs c = false) {d : UInt8}
    (hd : endsScalar d = true) (s : Bytes) : readScalar (raw ++ d :: s) = some (raw, d :: s) := by
  have hpos : ∀ c ∈ raw, (!endsScalar c) = true := fun c hc ↦ by rw [(hraw c hc).1]; rfl
  have htrim : raw.rdropWhile isWs = raw := by
    rw [List.rdropWhile_eq_self_iff]
    intro hl
    rw [(hraw _ (List.getLast_mem hl)).2]
    exact Bool.false_ne_true
  have htake : (raw ++ d :: s).takeWhile (fun c ↦ !endsScalar c) = raw := by
    rw [List.takeWhile_append_of_pos hpos, List.takeWhile_cons_of_neg (by simp [hd]),
      List.append_nil]
  have hdrop : (raw ++ d :: s).dropWhile (fun c ↦ !endsScalar c) = d :: s := by
    rw [List.dropWhile_append_of_pos hpos, List.dropWhile_cons_of_neg (by simp [hd])]
  simp only [readScalar, htake, hdrop, htrim, if_neg hne]

theorem readString_plain {key : Bytes} (hkey : ∀ c ∈ key, c ≠ 0x22 ∧ c ≠ 0x5c) (s : Bytes) :
    readString (0x22 :: (key ++ 0x22 :: s)) = some (key, s) := by
  have hloop : ∀ out, readStringLoop out (key ++ 0x22 :: s) = some (out ++ key, s) := by
    induction key with
    | nil =>
      intro out
      rw [List.nil_append, readStringLoop_quote, List.append_nil]
    | cons c key ih =>
      intro out
      obtain ⟨hquote, hslash⟩ := hkey c List.mem_cons_self
      rw [List.cons_append, readStringLoop_plain out hquote hslash,
        ih fun c hc ↦ hkey c (List.mem_cons_of_mem _ hc), List.append_assoc, List.singleton_append]
  rw [readString, if_pos rfl, hloop, List.nil_append]

/-- A member as the writer lays it out: a plain key, a colon, and a value with no blank in
front. -/
theorem readMember_of_readValue {r r' : Record} {key : Bytes}
    (hkey : ∀ c ∈ key, c ≠ 0x22 ∧ c ≠ 0x5c) {c : UInt8} (hc : isWs c = false) {s t : Bytes}
    (hvalue : readValue r key (c :: s) = some (r', t)) :
    readMember r (0x22 :: (key ++ 0x22 :: 0x3a :: c :: s)) = some (r', skipWs t) := by
  rw [readMember, skipWs_cons (by decide), readString_plain hkey]
  simp only [skipWs_cons (show isWs 0x3a = false by decide), skipWs_cons hc, hvalue]
  exact if_neg (by decide)

theorem readMember_host (r : Record) (host s : Bytes) :
    readMember r (ascii "\"host\":\"" ++ (host.flatMap escapeByte ++ 0x22 :: s))
      = some ({ r with host := host }, skipWs s) := by
  have hread : readString (0x22 :: (host.flatMap escapeByte ++ 0x22 :: s)) = some (host, s) := by
    rw [readString, if_pos rfl, readStringLoop_escaped, List.nil_append]
  have hvalue : readValue r (ascii "host") (0x22 :: (host.flatMap escapeByte ++ 0x22 :: s))
      = some ({ r with host := host }, s) := by
    rw [readValue, if_pos rfl, hread]
    exact congrArg (fun r ↦ some (r, s)) (if_pos rfl)
  have hmember := readMember_of_readValue (List.all_iff_forall_prop.1 (by decide))
    (by decide) hvalue
  have hlit : ascii "\"host\":\"" = 0x22 :: (ascii "host" ++ [0x22, 0x3a, 0x22]) := rfl
  rw [hlit, List.cons_append, List.append_assoc]
  exact hmember

theorem readMember_scalar (r : Record) (key : Bytes) (hkey : ∀ c ∈ key, c ≠ 0x22 ∧ c ≠ 0x5c)
    {c : UInt8} (raw : Bytes) (hquote : c ≠ 0x22)
    (hraw : ∀ b ∈ c :: raw, endsScalar b = false ∧ isWs b = false) {d : UInt8}
    (hd : endsScalar d = true) (hws : isWs d = false) (s : Bytes) :
    readMember r (0x22 :: (key ++ 0x22 :: 0x3a :: (c :: raw ++ d :: s)))
      = some (setScalar r key (c :: raw), d :: s) := by
  have hread := readScalar_append (List.cons_ne_nil c raw) hraw hd s
  have hvalue : readValue r key (c :: (raw ++ d :: s))
      = some (setScalar r key (c :: raw), d :: s) := by
    rw [readValue, if_neg hquote, ← List.cons_append, hread]
  have hmember := readMember_of_readValue hkey (hraw c List.mem_cons_self).2 hvalue
  rw [skipWs_cons hws] at hmember
  exact hmember

theorem decodeLoop_of_readMember {r r' : Record} {s t : Bytes} {c : UInt8}
    (h : readMember r s = some (r', c :: t)) :
    decodeLoop r s = if c = 0x2c then decodeLoop r' t else if c = 0x7d then some r' else none := by
  have hs : s ≠ [] := by
    rintro rfl
    exact absurd (length_of_readMember h) (Nat.not_lt_zero _)
  rw [decodeLoop, if_neg hs]
  split
  · next r'' c' t' h' =>
    rw [h] at h'
    cases h'
    rfl
  · next hnot => exact absurd h (hnot _ _ _)

theorem decodeLoop_of_forall_ne {r : Record} {s : Bytes}
    (h : ∀ r' c t, readMember r s ≠ some (r', c :: t)) : decodeLoop r s = none := by
  rw [decodeLoop]
  split_ifs
  · rfl
  · split
    · next r' c t h' => exact absurd h' (h r' c t)
    · rfl

theorem decodeLoop_comma {r r' : Record} {s t : Bytes} (h : readMember r s = some (r', 0x2c :: t)) :
    decodeLoop r s = decodeLoop r' t :=
  (decodeLoop_of_readMember h).trans (if_pos rfl)

theorem decodeLoop_brace {r r' : Record} {s t : Bytes} (h : readMember r s = some (r', 0x7d :: t)) :
    decodeLoop r s = some r' :=
  (decodeLoop_of_readMember h).trans ((if_neg (by decide)).trans (if_pos rfl))

/-- The port member, which the writer always puts last. -/
theorem decodeLoop_port (r : Record) {port : UInt16} (hport : 1 ≤ port.toNat) :
    decodeLoop r (ascii "\"port\":" ++ (toDecimal port.toNat ++ [0x7d]))
      = some { r with port := some port } := by
  have hlt := port.toNat_lt
  have hset : setScalar r (ascii "port") (toDecimal port.toNat) = { r with port := some port } := by
    have hback : (port.toNat : ℤ).toNat.toUInt16 = port := by
      rw [Int.toNat_natCast, Nat.toUInt16_eq, UInt16.ofNat_toNat]
    rw [setScalar, if_neg (by decide), if_pos rfl, strtol_toDecimal (by omega)]
    simp only
    rw [if_pos ⟨trivial, by omega, by omega⟩, hback]
  have hdigit := fun d hd ↦ isDigit_of_mem_toDecimal (n := port.toNat) (d := d) hd
  -- Digits neither end a scalar nor are trimmed from it.
  have hplain : ∀ b ∈ toDecimal port.toNat, endsScalar b = false ∧ isWs b = false := by
    intro b hb
    obtain ⟨hlow, hhigh⟩ := hdigit b hb
    have hne : ∀ e : UInt8, e.toNat < 0x30 ∨ 0x39 < e.toNat → b ≠ e := by
      rintro e he rfl
      omega
    rw [endsScalar, isWs]
    simp only [decide_eq_false (hne 0x2c (by decide)), decide_eq_false (hne 0x7d (by decide)),
      decide_eq_false (hne 0x20 (by decide)), decide_eq_false (hne 0x09 (by decide)),
      decide_eq_false (hne 0x0a (by decide)), decide_eq_false (hne 0x0d (by decide)),
      Bool.or_self, and_self]
  have hlit : ascii "\"port\":" = 0x22 :: (ascii "port" ++ [0x22, 0x3a]) := rfl
  cases htext : toDecimal port.toNat with
  | nil => exact absurd htext (toDecimal_ne_nil _)
  | cons d ds =>
    rw [htext] at hdigit hplain hset
    have hquote : d ≠ 0x22 := by
      rintro rfl
      exact absurd (hdigit 0x22 List.mem_cons_self).1 (by decide)
    have hmember := readMember_scalar r (ascii "port")
      (List.all_iff_forall_prop.1 (by decide)) ds hquote hplain (d := 0x7d) (by decide)
      (by decide) []
    rw [hset] at hmember
    rw [hlit, List.cons_append, List.append_assoc]
    exact decodeLoop_brace hmember

theorem decodeLoop_udp (r : Record) (b : Bool) (s : Bytes) :
    decodeLoop r (ascii "\"udp\":" ++ ((if b then ascii "true" else ascii "false") ++ 0x2c :: s))
      = decodeLoop { r with udp := some b } s := by
  have hlit : ascii "\"udp\":" = 0x22 :: (ascii "udp" ++ [0x22, 0x3a]) := rfl
  rw [hlit, List.cons_append, List.append_assoc]
  cases b with
  | true =>
    exact decodeLoop_comma (readMember_scalar r (ascii "udp")
      (List.all_iff_forall_prop.1 (by decide)) (c := 0x74) (ascii "rue") (by decide)
      (List.all_iff_forall_prop.1 (by decide)) (by decide) (by decide) s)
  | false =>
    exact decodeLoop_comma (readMember_scalar r (ascii "udp")
      (List.all_iff_forall_prop.1 (by decide)) (c := 0x66) (ascii "alse") (by decide)
      (List.all_iff_forall_prop.1 (by decide)) (by decide) (by decide) s)

/-- What the writer puts behind the host and its comma. -/
def encodeTail (udp : Option Bool) (port : UInt16) : Bytes :=
  let last := ascii "\"port\":" ++ (toDecimal port.toNat ++ [0x7d])
  match udp with
  | some b => ascii "\"udp\":" ++ ((if b then ascii "true" else ascii "false") ++ 0x2c :: last)
  | none => last

theorem encodeRecord_eq (host : Bytes) (udp : Option Bool) (port : UInt16) :
    encodeRecord host udp port = 0x7b :: (ascii "\"host\":\""
      ++ (host.flatMap escapeByte ++ 0x22 :: 0x2c :: encodeTail udp port)) := by
  have hopen : ascii "\x7b\"host\":\"" = 0x7b :: ascii "\"host\":\"" := rfl
  have hport : ascii ",\"port\":" = 0x2c :: ascii "\"port\":" := rfl
  have hudp : ascii ",\"udp\":" = 0x2c :: ascii "\"udp\":" := rfl
  have hquote : ascii "\"" = [0x22] := rfl
  have hclose : ascii "\x7d" = [0x7d] := rfl
  cases udp <;> simp only [encodeRecord, encodeTail, appendEscaped_eq, hopen, hport, hudp, hquote,
    hclose, List.append_assoc, List.cons_append, List.nil_append]

theorem decodeLoop_encodeTail (host : Bytes) (udp : Option Bool) {port : UInt16}
    (hport : 1 ≤ port.toNat) :
    decodeLoop { host := host } (encodeTail udp port) = some ⟨host, udp, some port⟩ := by
  cases udp with
  | none => exact decodeLoop_port _ hport
  | some b =>
    rw [encodeTail]
    exact (decodeLoop_udp _ b _).trans (decodeLoop_port _ hport)

/-- **The round trip.** Whatever bytes the host is made of. -/
theorem decodeRecord_encodeRecord (host : Bytes) (udp : Option Bool) {port : UInt16}
    (hport : 1 ≤ port.toNat) :
    decodeRecord (encodeRecord host udp port) = some ⟨host, udp, some port⟩ := by
  have hhost := readMember_host {} host (0x2c :: encodeTail udp port)
  rw [skipWs_cons (by decide)] at hhost
  have hloop := (decodeLoop_comma hhost).trans (decodeLoop_encodeTail host udp hport)
  have hlit : ascii "\"host\":\"" = 0x22 :: ascii "host\":\"" := rfl
  rw [encodeRecord_eq, decodeRecord, skipWs_cons (by decide)]
  simp only
  rw [if_neg (by decide)]
  rw [hlit, List.cons_append] at hloop ⊢
  rw [skipWs_cons (by decide)]
  simp only
  rw [if_neg (by decide), hloop]

end Holesail
