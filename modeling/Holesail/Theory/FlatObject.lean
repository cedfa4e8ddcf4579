import Mathlib.Data.List.DropRight
import Mathlib.Data.Bool.AllAny

/-!
# Flat objects as text

A flat object is a list of members, each a key and a value that is a string or a scalar, written the
way JSON writes objects. The syntax tree keeps every blank and every escape, so that a text and its
tree say the same.

Which bytes may stand for themselves in a string, which texts are scalars, and what may follow the
closing brace, is left to a `Grammar`. The most generous one that can still be read without looking
back is `lenient`: strings end at their quote, scalars at the next comma or brace, and anything
may follow.

## Main result

`parse_eq_some_iff`: `parse` reads exactly the texts of `lenient`, each to the one tree it is the
text of.
-/

namespace FlatObject

abbrev Text := List UInt8

/-! ## Syntax -/

inductive Piece where
  /-- A byte that stands for itself. -/
  | plain (c : UInt8)
  /-- A backslash and one more byte. -/
  | escape (e : UInt8)
  /-- `\\u` and four hexadecimal digits. -/
  | unicode (h₀ h₁ h₂ h₃ : UInt8)
deriving DecidableEq

inductive Value where
  | string (ps : List Piece)
  | scalar (t : Text)
deriving DecidableEq

/-- A member, with the blanks around its parts. -/
structure Member where
  before : Text
  key : List Piece
  beforeColon : Text
  afterColon : Text
  value : Value
  after : Text
deriving DecidableEq

/-- An object, with what surrounds it. -/
structure Object where
  lead : Text
  /-- The blanks between the braces of an object without members. -/
  inner : Text
  members : List Member
  tail : Text
deriving DecidableEq

/-- Spaces, tabs and line ends. -/
def isBlank (c : UInt8) : Bool := c = 0x20 || c = 0x09 || c = 0x0a || c = 0x0d

/-- What ends a scalar: a comma or a closing brace. -/
def isEnd (c : UInt8) : Bool := c = 0x2c || c = 0x7d

/-- The byte an escape stands for. -/
def escapeValue (e : UInt8) : Option UInt8 :=
  [(0x22, 0x22), (0x5c, 0x5c), (0x2f, 0x2f), (0x6e, 0x0a), (0x72, 0x0d), (0x74, 0x09), (0x62, 0x08),
    (0x66, 0x0c)].lookup e

def hexValue (h : UInt8) : Option ℕ :=
  if 0x30 ≤ h ∧ h ≤ 0x39 then some (h.toNat - 0x30)
  else if 0x61 ≤ h ∧ h ≤ 0x66 then some (h.toNat - 0x61 + 10)
  else if 0x41 ≤ h ∧ h ≤ 0x46 then some (h.toNat - 0x41 + 10)
  else none

/-- The code that four hexadecimal digits spell. -/
def codeValue (h₀ h₁ h₂ h₃ : UInt8) : Option ℕ := do
  let v₀ ← hexValue h₀
  let v₁ ← hexValue h₁
  let v₂ ← hexValue h₂
  let v₃ ← hexValue h₃
  return 16 * (16 * (16 * v₀ + v₁) + v₂) + v₃

/-! ## Text -/

def Piece.text : Piece → Text
  | .plain c => [c]
  | .escape e => [0x5c, e]
  | .unicode h₀ h₁ h₂ h₃ => [0x5c, 0x75, h₀, h₁, h₂, h₃]

/-- A string up to its closing quote, which is included. -/
def closing (ps : List Piece) : Text := ps.flatMap Piece.text ++ [0x22]

def Value.text : Value → Text
  | .string ps => 0x22 :: closing ps
  | .scalar t => t

def Member.text (m : Member) : Text :=
  m.before ++ 0x22 :: (closing m.key ++ (m.beforeColon ++
    0x3a :: (m.afterColon ++ (m.value.text ++ m.after))))

/-- The text of members, with commas between them. -/
def membersText : List Member → Text
  | [] => []
  | [m] => m.text
  | m :: ms => m.text ++ 0x2c :: membersText ms

/-- The text of an object. -/
def Object.text (x : Object) : Text :=
  x.lead ++ 0x7b :: (x.inner ++ (membersText x.members ++ 0x7d :: x.tail))

/-! ## Grammars -/

/-- What a grammar of flat objects is free in. -/
structure Grammar where
  /-- The bytes that may stand for themselves in a string. -/
  plain : UInt8 → Prop
  scalar : Text → Prop
  /-- What may follow the closing brace. -/
  tail : Text → Prop

/-- Nothing but blanks. -/
def Blank (s : Text) : Prop := ∀ c ∈ s, isBlank c = true

instance (s : Text) : Decidable (Blank s) := List.decidableBAll _ s

variable (G : Grammar)

def Piece.In : Piece → Prop
  | .plain c => G.plain c
  | .escape e => (escapeValue e).isSome = true
  | .unicode h₀ h₁ h₂ h₃ => (codeValue h₀ h₁ h₂ h₃).isSome = true

def Value.In : Value → Prop
  | .string ps => ∀ p ∈ ps, p.In G
  | .scalar t => G.scalar t

structure Member.In (m : Member) : Prop where
  before : Blank m.before
  key : ∀ p ∈ m.key, p.In G
  beforeColon : Blank m.beforeColon
  afterColon : Blank m.afterColon
  value : m.value.In G
  after : Blank m.after

structure Object.In (x : Object) : Prop where
  lead : Blank x.lead
  inner : Blank x.inner
  /-- Blanks belong to the members if there are any. -/
  unpadded : x.members ≠ [] → x.inner = []
  members : ∀ m ∈ x.members, m.In G
  tail : G.tail x.tail

/-- A text that can stand for a scalar: what is read as one, up to the blanks behind it. -/
structure IsToken (t : Text) : Prop where
  first : ∀ c ∈ t.head?, c ≠ 0x22 ∧ isBlank c = false
  last : ∀ c ∈ t.getLast?, isBlank c = false
  ne_nil : t ≠ []
  inside : ∀ c ∈ t, isEnd c = false

def lenient : Grammar where
  plain c := c ≠ 0x22 ∧ c ≠ 0x5c
  scalar := IsToken
  tail _ := True

/-- `G'` allows whatever `G` does. -/
structure Grammar.Le (G G' : Grammar) : Prop where
  plain : ∀ c, G.plain c → G'.plain c
  scalar : ∀ t, G.scalar t → G'.scalar t
  tail : ∀ t, G.tail t → G'.tail t

section Le

variable {G} {G' : Grammar} (h : G.Le G')

include h

theorem Piece.In.mono {p : Piece} (hp : p.In G) : p.In G' := by
  cases p with
  | plain c => exact h.plain c hp
  | escape e => exact hp
  | unicode h₀ h₁ h₂ h₃ => exact hp

theorem Value.In.mono {v : Value} (hv : v.In G) : v.In G' := by
  cases v with
  | string ps => exact fun p hp ↦ (hv p hp).mono h
  | scalar t => exact h.scalar t hv

theorem Member.In.mono {m : Member} (hm : m.In G) : m.In G' :=
  ⟨hm.before, fun p hp ↦ (hm.key p hp).mono h, hm.beforeColon, hm.afterColon, hm.value.mono h,
    hm.after⟩

theorem Object.In.mono {x : Object} (hx : x.In G) : x.In G' :=
  ⟨hx.lead, hx.inner, hx.unpadded, fun m hm ↦ (hx.members m hm).mono h, h.tail _ hx.tail⟩

end Le

/-! ## Blanks and tokens -/

theorem blank_nil : Blank [] := fun _ hc ↦ absurd hc List.not_mem_nil

theorem blank_takeWhile (s : Text) : Blank (s.takeWhile isBlank) :=
  fun _ hc ↦ List.mem_takeWhile_imp hc

/-- A text that does not start with a blank. -/
def Bare (s : Text) : Prop := ∀ c ∈ s.head?, isBlank c = false

theorem bare_cons {c : UInt8} (hc : isBlank c = false) (s : Text) : Bare (c :: s) := by
  intro d hd
  rw [List.head?_cons, Option.mem_some_iff] at hd
  rw [← hd, hc]

theorem Bare.dropWhile {s : Text} (hs : Bare s) : s.dropWhile isBlank = s := by
  cases s with
  | nil => rfl
  | cons c s => exact List.dropWhile_cons_of_neg (by simp [hs c rfl])

theorem Bare.takeWhile {s : Text} (hs : Bare s) : s.takeWhile isBlank = [] := by
  cases s with
  | nil => rfl
  | cons c s => exact List.takeWhile_cons_of_neg (by simp [hs c rfl])

theorem bare_dropWhile (s : Text) : Bare (s.dropWhile isBlank) := by
  intro c hc
  have hd := List.head?_dropWhile_not isBlank s
  rw [Option.mem_def.1 hc] at hd
  exact hd

theorem dropWhile_append {b s : Text} (hb : Blank b) (hs : Bare s) :
    (b ++ s).dropWhile isBlank = s := by
  rw [List.dropWhile_append_of_pos hb, hs.dropWhile]

theorem takeWhile_append {b s : Text} (hb : Blank b) (hs : Bare s) :
    (b ++ s).takeWhile isBlank = b := by
  rw [List.takeWhile_append_of_pos hb, hs.takeWhile, List.append_nil]

/-- Reads blanks and one given byte: the blanks and what follows. -/
def token (c : UInt8) (s : Text) : Option (Text × Text) :=
  match s.dropWhile isBlank with
  | d :: r => if d = c then some (s.takeWhile isBlank, r) else none
  | [] => none

theorem token_sound {c : UInt8} {s b r : Text} (h : token c s = some (b, r)) :
    Blank b ∧ s = b ++ c :: r := by
  rw [token.eq_def] at h
  split at h
  · next d t hd =>
    split_ifs at h with hdc
    cases h
    refine ⟨blank_takeWhile s, ?_⟩
    rw [← hdc, ← hd, List.takeWhile_append_dropWhile]
  · exact nomatch h

theorem token_append {c : UInt8} (hc : isBlank c = false) {b : Text} (hb : Blank b) (r : Text) :
    token c (b ++ c :: r) = some (b, r) := by
  rw [token.eq_def, dropWhile_append hb (bare_cons hc r), takeWhile_append hb (bare_cons hc r)]
  exact if_pos rfl

/-! ## Strings -/

/-- Reads a string behind its opening quote: the pieces and what follows the closing quote. -/
def readPieces : Text → Option (List Piece × Text)
  | [] => none
  | c :: s =>
    if c = 0x22 then some ([], s)
    else if c ≠ 0x5c then (readPieces s).map fun q ↦ (.plain c :: q.1, q.2)
    else match s with
      | [] => none
      | e :: s =>
        if e = 0x75 then
          match s with
          | h₀ :: h₁ :: h₂ :: h₃ :: s =>
            if (codeValue h₀ h₁ h₂ h₃).isSome then
              (readPieces s).map fun q ↦ (.unicode h₀ h₁ h₂ h₃ :: q.1, q.2)
            else none
          | _ => none
        else if (escapeValue e).isSome then
          (readPieces s).map fun q ↦ (.escape e :: q.1, q.2)
        else none

theorem closing_cons (p : Piece) (ps : List Piece) : closing (p :: ps) = p.text ++ closing ps := by
  rw [closing, List.flatMap_cons, List.append_assoc, closing]

private theorem readPieces_cons {p : Piece} (hp : p.In lenient) {s : Text} {q : List Piece × Text}
    (hq : (∀ p ∈ q.1, p.In lenient) ∧ s = closing q.1 ++ q.2) :
    (∀ p' ∈ p :: q.1, p'.In lenient) ∧ p.text ++ s = closing (p :: q.1) ++ q.2 := by
  rw [closing_cons, List.append_assoc, ← hq.2]
  exact ⟨List.forall_mem_cons.2 ⟨hp, hq.1⟩, rfl⟩

theorem readPieces_sound {s : Text} {q : List Piece × Text} (h : readPieces s = some q) :
    (∀ p ∈ q.1, p.In lenient) ∧ s = closing q.1 ++ q.2 := by
  fun_induction readPieces s generalizing q with
  | case1 => exact nomatch h
  | case2 s =>
    cases h
    exact ⟨fun p hp ↦ absurd hp List.not_mem_nil, rfl⟩
  | case3 c s hquote hslash ih =>
    obtain ⟨q', hq, rfl⟩ := Option.map_eq_some_iff.1 h
    exact readPieces_cons (p := .plain c) ⟨hquote, hslash⟩ (ih hq)
  | case4 => exact nomatch h
  | case5 c hquote hslash h₀ h₁ h₂ h₃ s hcode ih =>
    obtain ⟨q', hq, rfl⟩ := Option.map_eq_some_iff.1 h
    rw [not_not.1 hslash]
    exact readPieces_cons (p := .unicode h₀ h₁ h₂ h₃) hcode (ih hq)
  | case6 => exact nomatch h
  | case7 => exact nomatch h
  | case8 c hquote hslash e s hu he ih =>
    obtain ⟨q', hq, rfl⟩ := Option.map_eq_some_iff.1 h
    rw [not_not.1 hslash]
    exact readPieces_cons (p := .escape e) he (ih hq)
  | case9 => exact nomatch h

theorem readPieces_closing {ps : List Piece} (h : ∀ p ∈ ps, p.In lenient) (r : Text) :
    readPieces (closing ps ++ r) = some (ps, r) := by
  have hslash : ¬(0x5c : UInt8) = 0x22 := by decide
  have hne : ¬(0x5c : UInt8) ≠ 0x5c := not_not.2 rfl
  induction ps with
  | nil => exact (readPieces.eq_def _).trans (if_pos rfl)
  | cons p ps ih =>
    obtain ⟨hp, hps⟩ := List.forall_mem_cons.1 h
    rw [closing_cons, List.append_assoc]
    cases p with
    | plain c =>
      refine (readPieces.eq_def _).trans ?_
      simp only [Piece.text, List.singleton_append, if_neg hp.1, if_pos hp.2, ih hps,
        Option.map_some]
    | escape e =>
      have hu : e ≠ 0x75 := by
        rintro rfl
        exact absurd (show (escapeValue 0x75).isSome = true from hp) (by decide)
      have he : (escapeValue e).isSome = true := hp
      refine (readPieces.eq_def _).trans ?_
      simp only [Piece.text, List.cons_append, List.nil_append, if_neg hslash, if_neg hne,
        if_neg hu, if_pos he, ih hps, Option.map_some]
    | unicode h₀ h₁ h₂ h₃ =>
      have hcode : (codeValue h₀ h₁ h₂ h₃).isSome = true := hp
      refine (readPieces.eq_def _).trans ?_
      simp only [Piece.text, List.cons_append, List.nil_append, if_neg hslash, if_neg hne,
        if_pos hcode, if_true, ih hps, Option.map_some]

/-! ## Values -/

/-- Reads a scalar, without the blanks behind it. -/
def readScalar (s : Text) : Option (Text × Text) :=
  let t := (s.takeWhile fun c ↦ !isEnd c).rdropWhile isBlank
  if t = [] then none else some (t, s.drop t.length)

def readValue (s : Text) : Option (Value × Text) :=
  if s.head? = some 0x22 then (readPieces s.tail).map fun q ↦ (.string q.1, q.2)
  else (readScalar s).map fun q ↦ (.scalar q.1, q.2)

theorem readScalar_sound {s : Text} (hbare : Bare s) (hquote : s.head? ≠ some 0x22)
    {q : Text × Text} (h : readScalar s = some q) : IsToken q.1 ∧ s = q.1 ++ q.2 := by
  rw [readScalar] at h
  split_ifs at h with hne
  cases h
  -- `u` are the blanks that were trimmed.
  obtain ⟨u, hu⟩ := List.rdropWhile_prefix isBlank (s.takeWhile fun c ↦ !isEnd c)
  have hlast := List.rdropWhile_last_not isBlank (s.takeWhile fun c ↦ !isEnd c)
  have hs : s = (s.takeWhile fun c ↦ !isEnd c).rdropWhile isBlank
      ++ (u ++ s.dropWhile fun c ↦ !isEnd c) := by
    rw [← List.append_assoc, hu, List.takeWhile_append_dropWhile]
  generalize (s.takeWhile fun c ↦ !isEnd c).rdropWhile isBlank = t at *
  refine ⟨⟨?_, ?_, hne, ?_⟩, ?_⟩
  · intro c hc
    have hhead : s.head? = some c := by
      rw [hs, List.head?_append, Option.mem_def.1 hc, Option.some_or]
    exact ⟨fun h22 ↦ hquote (h22 ▸ hhead), hbare c hhead⟩
  · intro c hc
    rw [List.getLast?_eq_some_getLast hne, Option.mem_some_iff] at hc
    exact Bool.eq_false_iff.2 (hc ▸ hlast hne)
  · intro c hc
    have hmem : c ∈ s.takeWhile fun c ↦ !isEnd c := hu ▸ List.mem_append_left u hc
    have hnot : (!isEnd c) = true := List.mem_takeWhile_imp (p := fun c ↦ !isEnd c) hmem
    rwa [Bool.not_eq_true'] at hnot
  · rw [hs, List.drop_left]

theorem isEnd_of_isBlank {c : UInt8} (h : isBlank c = true) : isEnd c = false := by
  simp only [isBlank, Bool.or_eq_true, decide_eq_true_eq] at h
  rcases h with ((rfl | rfl) | rfl) | rfl <;> rfl

theorem isBlank_of_isEnd {d : UInt8} (h : isEnd d = true) : isBlank d = false := by
  refine Bool.eq_false_iff.2 fun hb ↦ ?_
  rw [isEnd_of_isBlank hb] at h
  exact Bool.false_ne_true h

theorem readScalar_append {t b r : Text} (ht : IsToken t) (hb : Blank b) {d : UInt8}
    (hd : isEnd d = true) : readScalar (t ++ (b ++ d :: r)) = some (t, b ++ d :: r) := by
  have hinside : ∀ c ∈ t ++ b, (!isEnd c) = true := by
    intro c hc
    rcases List.mem_append.1 hc with hc | hc
    · rw [ht.inside c hc, Bool.not_false]
    · rw [isEnd_of_isBlank (hb c hc), Bool.not_false]
  have htake : (t ++ (b ++ d :: r)).takeWhile (fun c ↦ !isEnd c) = t ++ b := by
    rw [← List.append_assoc, List.takeWhile_append_of_pos hinside,
      List.takeWhile_cons_of_neg (by simp [hd]), List.append_nil]
  have htrim : (t ++ b).rdropWhile isBlank = t := by
    have hself : t.rdropWhile isBlank = t := by
      refine List.rdropWhile_eq_self_iff.2 fun hne ↦ ?_
      exact Bool.eq_false_iff.1 (ht.last _ (List.getLast?_eq_some_getLast hne))
    rw [List.rdropWhile, List.reverse_append,
      List.dropWhile_append_of_pos fun c hc ↦ hb c (List.mem_reverse.1 hc)]
    exact hself
  simp only [readScalar, htake, htrim, if_neg ht.ne_nil, List.drop_left]

theorem readValue_sound {s : Text} (hbare : Bare s) {q : Value × Text}
    (h : readValue s = some q) : q.1.In lenient ∧ s = q.1.text ++ q.2 := by
  rw [readValue] at h
  split_ifs at h with hquote
  · obtain ⟨q', hq, rfl⟩ := Option.map_eq_some_iff.1 h
    obtain ⟨hin, htext⟩ := readPieces_sound hq
    refine ⟨hin, ?_⟩
    rw [Value.text, List.cons_append, ← htext]
    exact (List.cons_head?_tail hquote).symm
  · obtain ⟨q', hq, rfl⟩ := Option.map_eq_some_iff.1 h
    exact readScalar_sound hbare hquote hq

theorem Value.bare_text {v : Value} (hv : v.In lenient) (r : Text) : Bare (v.text ++ r) := by
  cases v with
  | string ps => exact bare_cons rfl _
  | scalar t =>
    intro c hc
    cases t with
    | nil => exact absurd rfl hv.ne_nil
    | cons d t => exact (hv.first c hc).2

theorem readValue_text {v : Value} (hv : v.In lenient) {b r : Text} (hb : Blank b) {d : UInt8}
    (hd : isEnd d = true) : readValue (v.text ++ (b ++ d :: r)) = some (v, b ++ d :: r) := by
  rw [readValue]
  cases v with
  | string ps =>
    rw [Value.text, List.cons_append, List.head?_cons, if_pos rfl, List.tail_cons,
      readPieces_closing hv]
    rfl
  | scalar t =>
    have hquote : (t ++ (b ++ d :: r)).head? ≠ some 0x22 := by
      intro h
      cases t with
      | nil => exact hv.ne_nil rfl
      | cons c t => exact (hv.first c rfl).1 (Option.some_inj.1 h)
    rw [Value.text, if_neg hquote, readScalar_append hv hb hd]
    rfl

/-! ## Members -/

/-- Reads a member with the blanks around it. -/
def readMember (s : Text) : Option (Member × Text) :=
  match token 0x22 s with
  | none => none
  | some (before, s) =>
    match readPieces s with
    | none => none
    | some (key, s) =>
      match token 0x3a s with
      | none => none
      | some (beforeColon, s) =>
        match readValue (s.dropWhile isBlank) with
        | none => none
        | some (value, t) =>
          some (⟨before, key, beforeColon, s.takeWhile isBlank, value, t.takeWhile isBlank⟩,
            t.dropWhile isBlank)

theorem readMember_sound {s : Text} {q : Member × Text} (h : readMember s = some q) :
    q.1.In lenient ∧ s = q.1.text ++ q.2 := by
  rw [readMember.eq_def] at h
  split at h
  · exact nomatch h
  · next before s₁ hbefore =>
    split at h
    · exact nomatch h
    · next key s₂ hkey =>
      split at h
      · exact nomatch h
      · next beforeColon s₃ hcolon =>
        split at h
        · exact nomatch h
        · next value s₄ hvalue =>
          cases h
          obtain ⟨hb, rfl⟩ := token_sound hbefore
          obtain ⟨hk, rfl⟩ := readPieces_sound hkey
          obtain ⟨hbc, rfl⟩ := token_sound hcolon
          obtain ⟨hv, htext⟩ := readValue_sound (bare_dropWhile s₃) hvalue
          refine ⟨⟨hb, hk, hbc, blank_takeWhile s₃, hv, blank_takeWhile s₄⟩, ?_⟩
          have hs₃ : s₃ = s₃.takeWhile isBlank ++ (value.text ++ (s₄.takeWhile isBlank
              ++ s₄.dropWhile isBlank)) := by
            rw [List.takeWhile_append_dropWhile, ← htext, List.takeWhile_append_dropWhile]
          conv_lhs => rw [hs₃]
          simp only [Member.text, List.append_assoc, List.cons_append]

theorem readMember_text {m : Member} (hm : m.In lenient) {d : UInt8} (hd : isEnd d = true)
    (r : Text) : readMember (m.text ++ d :: r) = some (m, d :: r) := by
  have hbare := bare_cons (isBlank_of_isEnd hd) r
  have hbefore := token_append (c := 0x22) rfl hm.before
  have hkey := readPieces_closing hm.key
  have hcolon := token_append (c := 0x3a) rfl hm.beforeColon
  have hstart := Value.bare_text hm.value (m.after ++ d :: r)
  have hvalue := readValue_text hm.value (r := r) hm.after hd
  simp only [Member.text, List.append_assoc, List.cons_append, readMember, hbefore, hkey, hcolon,
    dropWhile_append hm.afterColon hstart, takeWhile_append hm.afterColon hstart, hvalue,
    dropWhile_append hm.after hbare, takeWhile_append hm.after hbare]

theorem Member.text_ne_nil (m : Member) : m.text ≠ [] := by
  intro h
  rw [Member.text] at h
  exact List.cons_ne_nil _ _ (List.append_eq_nil_iff.1 h).2

theorem length_of_readMember {s : Text} {q : Member × Text} (h : readMember s = some q) :
    q.2.length < s.length := by
  have hpos := List.length_pos_iff.2 q.1.text_ne_nil
  rw [(readMember_sound h).2, List.length_append]
  omega

/-- Reads members up to the closing brace: the members and what follows it. -/
def readMembers (s : Text) : Option (List Member × Text) :=
  match _h : readMember s with
  | some (m, c :: s) =>
    if c = 0x2c then (readMembers s).map fun q ↦ (m :: q.1, q.2)
    else if c = 0x7d then some ([m], s)
    else none
  | _ => none
termination_by s.length
decreasing_by
  have := length_of_readMember ‹_›
  simp only [List.length_cons] at this
  omega

theorem readMembers_of_readMember {s t : Text} {m : Member} {c : UInt8}
    (h : readMember s = some (m, c :: t)) : readMembers s
      = if c = 0x2c then (readMembers t).map fun q ↦ (m :: q.1, q.2)
        else if c = 0x7d then some ([m], t) else none := by
  rw [readMembers]
  split
  · next m' c' t' h' =>
    rw [h] at h'
    cases h'
    rfl
  · next hnot => exact absurd h (hnot m c t)

theorem membersText_cons (m : Member) {ms : List Member} (h : ms ≠ []) :
    membersText (m :: ms) = m.text ++ 0x2c :: membersText ms := by
  cases ms with
  | nil => exact absurd rfl h
  | cons m' ms => rfl

theorem readMembers_sound {s : Text} {q : List Member × Text} (h : readMembers s = some q) :
    q.1 ≠ [] ∧ (∀ m ∈ q.1, m.In lenient) ∧ s = membersText q.1 ++ 0x7d :: q.2 := by
  fun_induction readMembers s generalizing q with
  | case1 s m t hm ih =>
    obtain ⟨q', hq, rfl⟩ := Option.map_eq_some_iff.1 h
    obtain ⟨hin, htext⟩ := readMember_sound hm
    obtain ⟨hne, hins, rfl⟩ := ih hq
    refine ⟨List.cons_ne_nil _ _, List.forall_mem_cons.2 ⟨hin, hins⟩, ?_⟩
    rw [membersText_cons m hne, List.append_assoc, List.cons_append]
    exact htext
  | case2 s m t hm _ =>
    cases h
    obtain ⟨hin, htext⟩ := readMember_sound hm
    exact ⟨List.cons_ne_nil _ _, List.forall_mem_singleton.2 hin, htext⟩
  | case3 => exact nomatch h
  | case4 => exact nomatch h

theorem readMembers_text {ms : List Member} (hne : ms ≠ []) (h : ∀ m ∈ ms, m.In lenient)
    (r : Text) : readMembers (membersText ms ++ 0x7d :: r) = some (ms, r) := by
  induction ms with
  | nil => exact absurd rfl hne
  | cons m ms ih =>
    obtain ⟨hm, hms⟩ := List.forall_mem_cons.1 h
    -- The last member is followed by the brace, any other by a comma.
    by_cases hlast : ms = []
    · rw [hlast, membersText, readMembers_of_readMember (readMember_text hm (d := 0x7d) rfl r)]
      rfl
    · rw [membersText_cons m hlast, List.append_assoc, List.cons_append,
        readMembers_of_readMember (readMember_text hm (d := 0x2c) rfl _), if_pos rfl,
        ih hlast hms, Option.map_some]

/-! ## Objects -/

def parse (s : Text) : Option Object :=
  match token 0x7b s with
  | none => none
  | some (lead, s) =>
    match token 0x7d s with
    | some (inner, tail) => some ⟨lead, inner, [], tail⟩
    | none => (readMembers s).map fun q ↦ ⟨lead, [], q.1, q.2⟩

theorem parse_sound {s : Text} {x : Object} (h : parse s = some x) :
    x.In lenient ∧ x.text = s := by
  rw [parse.eq_def] at h
  split at h
  · exact nomatch h
  · next lead s₁ hlead =>
    obtain ⟨hl, rfl⟩ := token_sound hlead
    split at h
    · next inner tail hinner =>
      cases h
      obtain ⟨hi, rfl⟩ := token_sound hinner
      exact ⟨⟨hl, hi, fun hne ↦ absurd rfl hne, fun m hm ↦ absurd hm List.not_mem_nil, trivial⟩,
        rfl⟩
    · obtain ⟨q, hq, rfl⟩ := Option.map_eq_some_iff.1 h
      obtain ⟨-, hins, rfl⟩ := readMembers_sound hq
      exact ⟨⟨hl, blank_nil, fun _ ↦ rfl, hins, trivial⟩, rfl⟩

/-- A member starts with its key, so it is not taken for the closing brace. -/
theorem token_brace_membersText {m : Member} (hm : m.In lenient) (ms : List Member) (r : Text) :
    token 0x7d (membersText (m :: ms) ++ r) = none := by
  obtain ⟨t, ht⟩ : ∃ t, membersText (m :: ms) ++ r = m.before ++ 0x22 :: t := by
    cases ms with
    | nil => exact ⟨_, by rw [membersText, Member.text, List.append_assoc, List.cons_append]⟩
    | cons m' ms =>
      exact ⟨_, by rw [membersText_cons m (List.cons_ne_nil _ _), Member.text, List.append_assoc,
        List.append_assoc, List.cons_append]⟩
  rw [ht, token.eq_def, dropWhile_append hm.before (bare_cons rfl t)]
  exact if_neg (by decide)

theorem parse_text {x : Object} (hx : x.In lenient) : parse x.text = some x := by
  obtain ⟨lead, inner, ms, tail⟩ := x
  rw [parse, Object.text, token_append rfl hx.lead]
  simp only
  cases ms with
  | nil =>
    simp only [membersText, List.nil_append, token_append (c := 0x7d) rfl hx.inner]
  | cons m ms =>
    have hne := List.cons_ne_nil m ms
    obtain rfl : inner = [] := hx.unpadded hne
    have hm : m.In lenient := hx.members m List.mem_cons_self
    rw [List.nil_append, token_brace_membersText hm]
    simp only [readMembers_text hne hx.members, Option.map_some]

/-- **Reading.** `parse` reads the texts of `lenient` and no others, and each in one way. -/
theorem parse_eq_some_iff {s : Text} {x : Object} :
    parse s = some x ↔ x.In lenient ∧ x.text = s := by
  constructor
  · exact parse_sound
  · rintro ⟨hx, rfl⟩
    exact parse_text hx

theorem Object.text_inj {x y : Object} (hx : x.In lenient) (hy : y.In lenient)
    (h : x.text = y.text) : x = y :=
  Option.some_inj.1 ((parse_text hx).symm.trans ((congrArg parse h).trans (parse_text hy)))

end FlatObject
