import Holesail.Codec.Record

/-!
# The record and `JSON.stringify`

`record.hpp` promises that `encode_record` writes, byte for byte, what `JSON.stringify` writes in
JavaScript. `JSON.stringify` is written down here for objects that are not nested, and compared with
`encode_record` on the hosts that are UTF-8.

The two go through the host side by side: `JSON.stringify` by characters, `append_escaped` by bytes.
Beyond ASCII both leave everything alone, and on ASCII they differ on two characters, which
`append_escaped` writes the long way. So a record is never shorter than what `JSON.stringify`
writes, and it is the same exactly if it is as long.

## Main results

* `escape_cases`: the two tables agree on all but two characters.
* `encodeRecord_eq_stringify_iff`: which hosts are written as `JSON.stringify` writes them.
-/

namespace Holesail

/-! ## `JSON.stringify` -/

/-- A value that is not nested. -/
inductive JsValue where
  | undefined
  | bool (b : Bool)
  | number (n : ℕ)
  | string (s : String)

/-- How a character is written in a string. -/
def escapeChar (c : Char) : List Char :=
  if c.toNat = 0x22 then "\\\"".toList
  else if c.toNat = 0x5c then "\\\\".toList
  else if c.toNat = 0x08 then "\\b".toList
  else if c.toNat = 0x09 then "\\t".toList
  else if c.toNat = 0x0a then "\\n".toList
  else if c.toNat = 0x0c then "\\f".toList
  else if c.toNat = 0x0d then "\\r".toList
  else if c.toNat < 0x20 then
    "\\u00".toList ++ [Nat.digitChar (c.toNat / 16), Nat.digitChar (c.toNat % 16)]
  else [c]

def quoted (s : String) : List Char :=
  "\"".toList ++ (s.toList.flatMap escapeChar ++ "\"".toList)

/-- A value, if it is written at all. -/
def JsValue.text : JsValue → Option (List Char)
  | undefined => none
  | bool b => some (if b then "true".toList else "false".toList)
  | number n => some (Nat.repr n).toList
  | string s => some (quoted s)

/-- One member of an object, if it is written at all. -/
def memberText (member : String × JsValue) : Option (List Char) :=
  member.2.text.map fun text ↦ quoted member.1 ++ (":".toList ++ text)

/-- `JSON.stringify`, for an object with these members. -/
def stringify (members : List (String × JsValue)) : String :=
  String.ofList ("\x7b".toList ++ ",".toList.intercalate (members.filterMap memberText)
    ++ "\x7d".toList)

/-- What the JavaScript server publishes. -/
def jsRecord (host : String) (udp : Option Bool) (port : UInt16) : String :=
  stringify [("host", .string host), ("udp", (udp.map .bool).getD .undefined),
    ("port", .number port.toNat)]

def utf8 (s : String) : Bytes := s.toUTF8.data.toList

example : utf8 (jsRecord "127.0.0.1" none 8080)
    = ascii "\x7b\"host\":\"127.0.0.1\",\"port\":8080\x7d" := by decide +kernel

/-! ## UTF-8 -/

def utf8Chars (l : List Char) : Bytes := l.flatMap String.utf8EncodeChar

theorem utf8_ofList (l : List Char) : utf8 (String.ofList l) = utf8Chars l := by
  rw [utf8, String.toUTF8_eq_toByteArray, String.toByteArray_ofList, List.utf8Encode,
    List.data_toByteArray, utf8Chars]

theorem utf8_eq (s : String) : utf8 s = utf8Chars s.toList := by
  rw [← utf8_ofList, String.ofList_toList]

theorem utf8Chars_append (l l' : List Char) : utf8Chars (l ++ l') = utf8Chars l ++ utf8Chars l' :=
  List.flatMap_append

theorem utf8EncodeChar_of_ascii {c : Char} (h : c.toNat < 0x80) :
    String.utf8EncodeChar c = [c.toNat.toUInt8] :=
  if_pos (Nat.le_of_lt_succ h)

theorem utf8EncodeChar_of_not_ascii {c : Char} (h : 0x80 ≤ c.toNat) :
    ∀ b ∈ String.utf8EncodeChar c, 0x80 ≤ b.toNat := by
  -- Every byte is some bits of the code with a marker above them.
  have hbyte : ∀ {m n : ℕ}, 0x80 ≤ n → m + n < 256 → 0x80 ≤ (UInt8.ofNat (m + n)).toNat := by
    intro m n hn hlt
    rw [UInt8.toNat_ofNat', Nat.mod_eq_of_lt hlt]
    omega
  have hascii : ¬c.val.toNat ≤ 0x7f := fun hle ↦ absurd (Nat.le_trans h hle) (by decide)
  intro b hb
  rw [String.utf8EncodeChar, if_neg hascii] at hb
  split_ifs at hb
  all_goals
    simp only [List.mem_cons, List.not_mem_nil, or_false] at hb
    rcases hb with rfl | rfl | rfl | rfl
  all_goals exact hbyte (by decide) (by omega)

/-! ## One character -/

theorem flatMap_escapeByte_of_not_ascii {l : Bytes} (h : ∀ b ∈ l, 0x80 ≤ b.toNat) :
    l.flatMap escapeByte = l := by
  have hself : ∀ b ∈ l, escapeByte b = [b] := by
    intro b hb
    have hne : ∀ c : UInt8, c.toNat < 0x80 → b ≠ c := by
      rintro c hc rfl
      exact absurd (h b hb) (Nat.not_le.mpr hc)
    have hlarge : ¬b < 0x20 := by
      rw [UInt8.lt_iff_toNat_lt]
      exact Nat.not_lt.mpr (Nat.le_trans (by decide) (h b hb))
    rw [escapeByte, if_neg (hne _ (by decide)), if_neg (hne _ (by decide)),
      if_neg (hne _ (by decide)), if_neg (hne _ (by decide)), if_neg (hne _ (by decide)),
      if_neg hlarge]
  rw [List.flatMap_congr hself, List.flatMap_singleton']

theorem escapeChar_of_not_ascii {c : Char} (h : 0x80 ≤ c.toNat) : escapeChar c = [c] := by
  have hne : ∀ n < 0x80, c.toNat ≠ n := by
    rintro n hn rfl
    exact absurd h (Nat.not_le.mpr hn)
  rw [escapeChar, if_neg (hne _ (by decide)), if_neg (hne _ (by decide)),
    if_neg (hne _ (by decide)), if_neg (hne _ (by decide)), if_neg (hne _ (by decide)),
    if_neg (hne _ (by decide)), if_neg (hne _ (by decide)),
    if_neg fun hlt ↦ absurd (Nat.le_trans h hlt.le) (by decide)]

/-- Backspace and form feed, which `append_escaped` has no escape of their own for. -/
def NoShortForm (c : Char) : Prop := c.toNat = 0x08 ∨ c.toNat = 0x0c

instance : DecidablePred NoShortForm := fun _ ↦ inferInstanceAs (Decidable (_ ∨ _))

/-- **The two tables** agree on a character, or `append_escaped` is longer. -/
theorem escape_cases (c : Char) :
    ¬NoShortForm c ∧ utf8Chars (escapeChar c) = (String.utf8EncodeChar c).flatMap escapeByte ∨
      NoShortForm c ∧ (utf8Chars (escapeChar c)).length
        < ((String.utf8EncodeChar c).flatMap escapeByte).length := by
  by_cases hascii : c.toNat < 0x80
  · have hall : ∀ n < 0x80, ¬NoShortForm (Char.ofNat n) ∧ utf8Chars (escapeChar (Char.ofNat n))
          = (String.utf8EncodeChar (Char.ofNat n)).flatMap escapeByte ∨
        NoShortForm (Char.ofNat n) ∧ (utf8Chars (escapeChar (Char.ofNat n))).length
          < ((String.utf8EncodeChar (Char.ofNat n)).flatMap escapeByte).length := by
      decide +kernel
    have hc := hall c.toNat hascii
    rw [Char.ofNat_toNat] at hc
    exact hc
  · have hlarge : 0x80 ≤ c.toNat := Nat.le_of_not_lt hascii
    refine Or.inl ⟨?_, ?_⟩
    · rintro (h | h)
      · exact absurd (h.symm.trans_ge hlarge) (by decide)
      · exact absurd (h.symm.trans_ge hlarge) (by decide)
    · rw [escapeChar_of_not_ascii hlarge, utf8Chars, List.flatMap_singleton,
        flatMap_escapeByte_of_not_ascii (utf8EncodeChar_of_not_ascii hlarge)]

/-! ## Records -/

/-- Two writers, one of which is never shorter on a character: what they write is the same exactly
if it is on every character. -/
theorem flatMap_eq_flatMap_iff {α β : Type} {f g : α → List β} {l : List α}
    (h : ∀ c ∈ l, f c = g c ∨ (f c).length < (g c).length) :
    l.flatMap f = l.flatMap g ↔ ∀ c ∈ l, f c = g c := by
  have hle : ∀ l : List α, (∀ c ∈ l, f c = g c ∨ (f c).length < (g c).length) →
      (l.flatMap f).length ≤ (l.flatMap g).length := by
    intro l h
    induction l with
    | nil => exact Nat.le_refl _
    | cons c l ih =>
      have hc := (h c List.mem_cons_self).elim (fun heq ↦ (congrArg List.length heq).le) le_of_lt
      rw [List.flatMap_cons, List.flatMap_cons, List.length_append, List.length_append]
      exact Nat.add_le_add hc (ih fun d hd ↦ h d (List.mem_cons_of_mem c hd))
  refine ⟨fun heq ↦ ?_, List.flatMap_congr⟩
  induction l with
  | nil => exact fun c hc ↦ absurd hc List.not_mem_nil
  | cons c l ih =>
    have htail := fun d hd ↦ h d (List.mem_cons_of_mem c hd)
    rw [List.flatMap_cons, List.flatMap_cons] at heq
    rcases h c List.mem_cons_self with hc | hc
    · rw [hc, List.append_cancel_left_eq] at heq
      exact List.forall_mem_cons.mpr ⟨hc, ih htail heq⟩
    · have hlen := congrArg List.length heq
      rw [List.length_append, List.length_append] at hlen
      have hrest := hle l htail
      omega

theorem utf8Chars_toList_ascii {s : String} (h : ∀ c ∈ s.toList, c.toNat < 0x80) :
    utf8Chars s.toList = ascii s := by
  rw [utf8Chars, ascii, ← List.flatMap_singleton' (s.toList.map _), List.flatMap_map]
  exact List.flatMap_congr fun c hc ↦ utf8EncodeChar_of_ascii (h c hc)

theorem utf8Chars_repr (n : ℕ) : utf8Chars (Nat.repr n).toList = toDecimal n := by
  refine utf8Chars_toList_ascii fun c hc ↦ ?_
  rw [Nat.toList_repr] at hc
  have hdigit := Nat.isDigit_of_mem_toDigits (by decide) (by decide) hc
  rw [Char.isDigit_iff_toNat] at hdigit
  exact Nat.lt_of_le_of_lt hdigit.2 (by decide)

theorem filterMap_memberText (host : String) (udp : Option Bool) (port : UInt16) :
    [("host", .string host), ("udp", (udp.map .bool).getD .undefined),
        ("port", .number port.toNat)].filterMap memberText
      = (quoted "host" ++ (":".toList ++ quoted host)) ::
        (udp.elim [] fun b ↦ [quoted "udp" ++ (":".toList ++
          if b then "true".toList else "false".toList)]) ++
        [quoted "port" ++ (":".toList ++ (Nat.repr port.toNat).toList)] := by
  cases udp <;> rfl

theorem utf8_jsRecord (host : String) (udp : Option Bool) (port : UInt16) :
    utf8 (jsRecord host udp port) = 0x7b :: (ascii "\"host\":\""
      ++ (host.toList.flatMap (fun c ↦ utf8Chars (escapeChar c))
        ++ 0x22 :: 0x2c :: encodeTail udp port)) := by
  have hhost : utf8Chars (host.toList.flatMap escapeChar)
      = host.toList.flatMap fun c ↦ utf8Chars (escapeChar c) := List.flatMap_assoc
  unfold encodeTail
  rw [jsRecord, stringify, utf8_ofList, ← hhost, ← utf8Chars_repr, filterMap_memberText]
  cases udp with
  | none =>
    simp only [List.intercalate, List.intersperse, List.flatten_cons, List.flatten_nil, quoted,
      utf8Chars_append, List.append_assoc, List.append_nil, Option.elim, List.cons_append,
      List.nil_append]
    rfl
  | some b =>
    simp only [List.intercalate, List.intersperse, List.flatten_cons, List.flatten_nil, quoted,
      utf8Chars_append, List.append_assoc, List.append_nil, Option.elim, List.cons_append,
      List.nil_append]
    cases b <;> rfl

/-- **When a record is what `JSON.stringify` writes**: when there is no backspace and no form feed
in the host. -/
theorem encodeRecord_eq_stringify_iff (host : String) (udp : Option Bool) (port : UInt16) :
    encodeRecord (utf8 host) udp port = utf8 (jsRecord host udp port) ↔
      ∀ c ∈ host.toList, ¬NoShortForm c := by
  rw [encodeRecord_eq, utf8_jsRecord, List.cons_inj_right, List.append_cancel_left_eq,
    List.append_cancel_right_eq, utf8_eq, utf8Chars, List.flatMap_assoc, eq_comm,
    flatMap_eq_flatMap_iff fun c _ ↦ (escape_cases c).imp And.right And.right]
  refine forall₂_congr fun c _ ↦ ?_
  rcases escape_cases c with ⟨hshort, heq⟩ | ⟨hlong, hlt⟩
  · exact iff_of_true heq hshort
  · exact iff_of_false (fun heq ↦ absurd (congrArg List.length heq) hlt.ne) (not_not.mpr hlong)

/-- **A backspace.** It is written in six bytes, and in two by `JSON.stringify`. -/
theorem encodeRecord_backspace :
    ¬∀ (host : String) (udp : Option Bool) (port : UInt16),
      encodeRecord (utf8 host) udp port = utf8 (jsRecord host udp port) :=
  fun h ↦ absurd (h "\x08" none 8080) (by decide +kernel)

end Holesail
