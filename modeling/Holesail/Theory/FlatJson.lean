import Holesail.Theory.Digits
import Holesail.Theory.FlatObject

/-!
# Flat JSON objects

The grammar `json` of JSON objects whose values are strings, numbers, `true`, `false` or `null`, as
one of the grammars of `FlatObject`. It works on bytes: a byte beyond ASCII may stand for itself in
a string, whatever character it is a part of.

Besides the grammar there is what its leaves mean: the bytes a string spells, and the number an
integer literal denotes.
-/

namespace FlatObject

open Decimal

/-! ## Literals -/

/-- One digit or more. -/
def IsDigits (t : Text) : Prop := t ≠ [] ∧ ∀ c ∈ t, isDigit c = true

/-- Digits that start with a zero only if they are `0`. -/
def IsInt (t : Text) : Prop := IsDigits t ∧ (t.head? = some 0x30 → t = [0x30])

/-- Nothing, or a point and digits. -/
def IsFraction (t : Text) : Prop := t = [] ∨ ∃ ds, IsDigits ds ∧ t = 0x2e :: ds

/-- Nothing, or `e` or `E`, a sign or none, and digits. -/
def IsExponent (t : Text) : Prop :=
  t = [] ∨ ∃ e sign ds, (e = 0x65 ∨ e = 0x45) ∧ (sign = [] ∨ sign = [0x2b] ∨ sign = [0x2d]) ∧
    IsDigits ds ∧ t = e :: (sign ++ ds)

def IsNumber (t : Text) : Prop :=
  ∃ minus int fraction exponent, (minus = [] ∨ minus = [0x2d]) ∧ IsInt int ∧ IsFraction fraction ∧
    IsExponent exponent ∧ t = minus ++ (int ++ (fraction ++ exponent))

/-- `true`. -/
def trueText : Text := [0x74, 0x72, 0x75, 0x65]

/-- `false`. -/
def falseText : Text := [0x66, 0x61, 0x6c, 0x73, 0x65]

/-- `null`. -/
def nullText : Text := [0x6e, 0x75, 0x6c, 0x6c]

/-- What may stand as a value without quotes. -/
def IsLiteral (t : Text) : Prop := t = trueText ∨ t = falseText ∨ t = nullText ∨ IsNumber t

/-- JSON objects without nested values. -/
def json : Grammar where
  plain c := 0x20 ≤ c ∧ c ≠ 0x22 ∧ c ≠ 0x5c
  scalar := IsLiteral
  tail := Blank

instance (t : Text) : Decidable (IsDigits t) :=
  decidable_of_iff (t ≠ [] ∧ t.all isDigit = true) (and_congr_right fun _ ↦ List.all_eq_true)

instance (t : Text) : Decidable (IsInt t) := inferInstanceAs (Decidable (_ ∧ _))

instance : DecidablePred (Piece.In json)
  | .plain c => inferInstanceAs (Decidable (0x20 ≤ c ∧ c ≠ 0x22 ∧ c ≠ 0x5c))
  | .escape _ => inferInstanceAs (Decidable (_ = true))
  | .unicode _ _ _ _ => inferInstanceAs (Decidable (_ = true))

/-! ## Meaning -/

/-- The byte a piece stands for, if it is one: a `\\u` escape beyond ASCII is more than a byte. -/
def Piece.byte : Piece → Option UInt8
  | .plain c => some c
  | .escape e => escapeValue e
  | .unicode h₀ h₁ h₂ h₃ =>
    (codeValue h₀ h₁ h₂ h₃).bind fun code ↦ if code < 0x80 then some code.toUInt8 else none

def spelling (ps : List Piece) : Option Text := ps.mapM Piece.byte

def integerOf : Text → Option ℤ
  | [] => none
  | c :: ds =>
    if c = 0x2d then if IsInt ds then some (-digitsValue ds) else none
    else if IsInt (c :: ds) then some (digitsValue (c :: ds)) else none

/-- A `\\u` escape, if it is one, below `\\u0080`. -/
def Piece.Ascii : Piece → Prop
  | .unicode h₀ h₁ h₂ h₃ => ∀ code ∈ codeValue h₀ h₁ h₂ h₃, code < 0x80
  | _ => True

instance : DecidablePred Piece.Ascii
  | .plain _ => inferInstanceAs (Decidable True)
  | .escape _ => inferInstanceAs (Decidable True)
  | .unicode h₀ h₁ h₂ h₃ =>
    decidable_of_iff ((codeValue h₀ h₁ h₂ h₃).all (fun code ↦ decide (code < 0x80)) = true) (by
      rw [Option.all_eq_true]
      exact forall₂_congr fun code _ ↦ decide_eq_true_iff)

/-- No `\\u` escape of a key or a string from `\\u0080` on. -/
def Object.Ascii (x : Object) : Prop :=
  ∀ m ∈ x.members, (∀ p ∈ m.key, p.Ascii) ∧ ∀ ps, m.value = .string ps → ∀ p ∈ ps, p.Ascii

/-! ## Literals are tokens -/

/-- The bytes numbers and words are made of, among others: neither quotes nor delimiters, and
nothing up to the space. -/
def isWord (c : UInt8) : Bool := 0x20 < c && c ≠ 0x22 && !isEnd c

theorem isBlank_of_isWord {c : UInt8} (h : isWord c = true) : isBlank c = false := by
  refine Bool.eq_false_iff.2 fun hb ↦ ?_
  simp only [isBlank, Bool.or_eq_true, decide_eq_true_eq] at hb
  rcases hb with ((rfl | rfl) | rfl) | rfl <;> exact absurd h (by decide)

theorem isToken_of_isWord {t : Text} (hne : t ≠ []) (h : ∀ c ∈ t, isWord c = true) : IsToken t := by
  have hword : ∀ c ∈ t, (0x20 < c ∧ c ≠ 0x22) ∧ isEnd c = false := by
    intro c hc
    simpa only [isWord, Bool.and_eq_true, decide_eq_true_eq, Bool.not_eq_true'] using h c hc
  refine ⟨fun c hc ↦ ?_, fun c hc ↦ ?_, hne, fun c hc ↦ (hword c hc).2⟩
  · have hmem := List.mem_of_mem_head? hc
    exact ⟨(hword c hmem).1.2, isBlank_of_isWord (h c hmem)⟩
  · exact isBlank_of_isWord (h c (List.mem_of_mem_getLast? hc))

theorem isWord_of_isDigit {c : UInt8} (h : isDigit c = true) : isWord c = true := by
  have hne : ∀ d, isDigit d = false → decide (c = d) = false :=
    fun d hd ↦ decide_eq_false (ne_of_isDigit h hd)
  have hlow : 0x20 < c := by
    have : 0x30 ≤ c.toNat := (isDigit_eq_true_iff.1 h).1
    exact Nat.lt_of_lt_of_le (by decide) this
  rw [isWord, isEnd, hne 0x2c rfl, hne 0x7d rfl, decide_eq_true (ne_of_isDigit h (d := 0x22) rfl),
    decide_eq_true hlow]
  rfl

theorem IsDigits.isWord {t : Text} (h : IsDigits t) : ∀ c ∈ t, isWord c = true :=
  fun c hc ↦ isWord_of_isDigit (h.2 c hc)

theorem IsFraction.isWord {t : Text} (h : IsFraction t) : ∀ c ∈ t, isWord c = true := by
  rcases h with rfl | ⟨ds, hds, rfl⟩
  · exact fun c hc ↦ absurd hc List.not_mem_nil
  · exact List.forall_mem_cons.2 ⟨rfl, hds.isWord⟩

theorem IsExponent.isWord {t : Text} (h : IsExponent t) : ∀ c ∈ t, isWord c = true := by
  rcases h with rfl | ⟨e, sign, ds, he, hsign, hds, rfl⟩
  · exact fun c hc ↦ absurd hc List.not_mem_nil
  · refine List.forall_mem_cons.2 ⟨?_, List.forall_mem_append.2 ⟨?_, hds.isWord⟩⟩
    · rcases he with rfl | rfl <;> rfl
    · rcases hsign with rfl | rfl | rfl
      · exact fun c hc ↦ absurd hc List.not_mem_nil
      · exact List.forall_mem_singleton.2 rfl
      · exact List.forall_mem_singleton.2 rfl

theorem IsNumber.isToken {t : Text} (h : IsNumber t) : IsToken t := by
  obtain ⟨minus, int, fraction, exponent, hminus, hint, hfraction, hexponent, rfl⟩ := h
  apply isToken_of_isWord
  · intro hnil
    exact hint.1.1 (List.append_eq_nil_iff.1 (List.append_eq_nil_iff.1 hnil).2).1
  · have hsign : ∀ c ∈ minus, FlatObject.isWord c = true := by
      rcases hminus with rfl | rfl
      · exact fun c hc ↦ absurd hc List.not_mem_nil
      · exact List.forall_mem_singleton.2 rfl
    exact List.forall_mem_append.2 ⟨hsign, List.forall_mem_append.2 ⟨hint.1.isWord,
      List.forall_mem_append.2 ⟨hfraction.isWord, hexponent.isWord⟩⟩⟩

theorem isToken_word {t : Text} (hne : t ≠ []) (h : t.all isWord = true) : IsToken t :=
  isToken_of_isWord hne (List.all_eq_true.1 h)

theorem IsLiteral.isToken {t : Text} (h : IsLiteral t) : IsToken t := by
  rcases h with rfl | rfl | rfl | h
  · exact isToken_word (List.cons_ne_nil _ _) rfl
  · exact isToken_word (List.cons_ne_nil _ _) rfl
  · exact isToken_word (List.cons_ne_nil _ _) rfl
  · exact h.isToken

theorem json_le_lenient : json.Le lenient :=
  ⟨fun _ h ↦ h.2, fun _ h ↦ h.isToken, fun _ _ ↦ trivial⟩

/-- What JSON asks of an object that can be read at all. -/
structure Object.Clean (x : Object) : Prop where
  /-- Nothing but blanks behind the closing brace. -/
  tail : Blank x.tail
  /-- No control characters in keys and strings. -/
  strings : ∀ m ∈ x.members, ∀ ps, ps = m.key ∨ m.value = .string ps →
    ∀ c, .plain c ∈ ps → 0x20 ≤ c
  /-- No scalars but numbers, `true`, `false` and `null`. -/
  scalars : ∀ m ∈ x.members, ∀ t, m.value = .scalar t → IsLiteral t

theorem Object.in_json_iff {x : Object} : x.In json ↔ x.In lenient ∧ x.Clean := by
  constructor
  · refine fun hx ↦ ⟨hx.mono json_le_lenient, hx.tail, fun m hm ps hps c hc ↦ ?_,
      fun m hm t ht ↦ ?_⟩
    · rcases hps with rfl | hps
      · exact ((hx.members m hm).key _ hc).1
      · have hvalue := (hx.members m hm).value
        rw [hps] at hvalue
        exact (hvalue _ hc).1
    · have hvalue := (hx.members m hm).value
      rw [ht] at hvalue
      exact hvalue
  · rintro ⟨hx, hclean⟩
    -- The two grammars differ in plain bytes only; escapes are the same.
    have hpiece : ∀ {ps : List Piece}, (∀ p ∈ ps, p.In lenient) → (∀ c, .plain c ∈ ps → 0x20 ≤ c) →
        ∀ p ∈ ps, p.In json := by
      intro ps hps hc p hp
      cases p with
      | plain c => exact ⟨hc c hp, hps _ hp⟩
      | escape e => exact hps _ hp
      | unicode h₀ h₁ h₂ h₃ => exact hps _ hp
    refine ⟨hx.lead, hx.inner, hx.unpadded, fun m hm ↦ ?_, hclean.tail⟩
    have hmember := hx.members m hm
    refine ⟨hmember.before, ?_, hmember.beforeColon, hmember.afterColon, ?_, hmember.after⟩
    · exact hpiece hmember.key (hclean.strings m hm _ (Or.inl rfl))
    · have hvalue := hmember.value
      cases hv : m.value with
      | string ps =>
        rw [hv] at hvalue
        exact hpiece hvalue (hclean.strings m hm ps (Or.inr hv))
      | scalar t => exact hclean.scalars m hm t hv

/-! ## Integer literals -/

/-- What follows the digits of a number does not go on with digits. -/
theorem head?_fraction_exponent {fraction exponent : Text} (hf : IsFraction fraction)
    (he : IsExponent exponent) : ∀ c ∈ (fraction ++ exponent).head?, isDigit c = false := by
  rcases hf with rfl | ⟨ds, -, rfl⟩
  · rcases he with rfl | ⟨e, sign, ds, he, -, -, rfl⟩
    · exact fun c hc ↦ absurd hc (Option.not_mem_none c)
    · intro c hc
      rw [List.nil_append, List.head?_cons, Option.mem_some_iff] at hc
      rcases he with rfl | rfl <;> exact hc ▸ rfl
  · intro c hc
    rw [List.cons_append, List.head?_cons, Option.mem_some_iff] at hc
    exact hc ▸ rfl

/-- Digits with something else behind them are an integer only if there is nothing behind them. -/
theorem isInt_append_iff {int rest : Text} (hint : IsInt int)
    (hrest : ∀ c ∈ rest.head?, isDigit c = false) : IsInt (int ++ rest) ↔ rest = [] := by
  constructor
  · intro h
    cases rest with
    | nil => rfl
    | cons c rest =>
      have hc := h.1.2 c (List.mem_append_right int List.mem_cons_self)
      rw [hrest c rfl] at hc
      exact absurd hc Bool.false_ne_true
  · rintro rfl
    rwa [List.append_nil]

/-- The integer literals among the numbers are those without a fraction and an exponent. -/
theorem integerOf_number {minus int rest : Text} (hminus : minus = [] ∨ minus = [0x2d])
    (hint : IsInt int) (hrest : ∀ c ∈ rest.head?, isDigit c = false) :
    integerOf (minus ++ (int ++ rest))
      = if rest = [] then some (if minus = [] then (digitsValue int : ℤ) else -digitsValue int)
        else none := by
  rcases hminus with rfl | rfl
  · obtain ⟨c, ds, rfl⟩ := List.exists_cons_of_ne_nil hint.1.1
    have hc : c ≠ 0x2d := ne_of_isDigit (hint.1.2 c List.mem_cons_self) rfl
    have hiff := isInt_append_iff hint hrest
    rw [List.cons_append] at hiff
    rw [List.nil_append, List.cons_append, integerOf, if_neg hc]
    by_cases h : rest = []
    · rw [if_pos (hiff.2 h), if_pos h, if_pos rfl, h, List.append_nil]
    · rw [if_neg (mt hiff.1 h), if_neg h]
  · rw [List.singleton_append, integerOf, if_pos rfl]
    by_cases h : rest = []
    · rw [if_pos ((isInt_append_iff hint hrest).2 h), if_pos h, if_neg (List.cons_ne_nil _ _), h,
        List.append_nil]
    · rw [if_neg (mt (isInt_append_iff hint hrest).1 h), if_neg h]

/-! ## Strings -/

theorem spelling_nil : spelling [] = some [] := rfl

theorem spelling_cons (p : Piece) (ps : List Piece) :
    spelling (p :: ps) = p.byte.bind fun b ↦ (spelling ps).map (b :: ·) := by
  rw [spelling, List.mapM_cons]
  cases p.byte with
  | none => rfl
  | some b => exact (Option.map_eq_bind (f := (b :: ·)) (x := spelling ps)).symm

theorem Piece.byte_ne_none {G : Grammar} {p : Piece} (hp : p.In G) (hascii : p.Ascii) :
    p.byte ≠ none := by
  cases p with
  | plain c => exact Option.some_ne_none c
  | escape e => exact Option.isSome_iff_ne_none.1 hp
  | unicode h₀ h₁ h₂ h₃ =>
    obtain ⟨code, hcode⟩ := Option.isSome_iff_exists.1 hp
    rw [Piece.byte, hcode, Option.bind_some, if_pos (hascii code hcode)]
    exact Option.some_ne_none _

end FlatObject
