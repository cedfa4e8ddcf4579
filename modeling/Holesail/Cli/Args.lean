import Holesail.Codec.Record
import Holesail.Theory.LastWins

/-!
# The argument vector

`parse_argv` goes through the tokens once. An option comes as `--name=value`, as `--name value` or
as `--name` alone; the last of these is what a token means only when the next one is a long option,
or there is none. Values and bare options are kept apart, in `values` and `flags`.

`Reads` writes the same down as a grammar, for which the order of the tokens and the last mention of
an option are all there is, and `given_iff` says that `parse_argv` reads an argument vector as the
grammar does.
-/

namespace Holesail.Cli

open Decimal LastWins

/-! ## Numbers -/

/-- `std::from_chars` into a `long`: the value and the bytes behind it, or its error. -/
def fromChars (text : Bytes) : Option (ℤ × Bytes) :=
  let negative := text.head? = some 0x2d
  let s := if negative then text.tail else text
  let ds := s.takeWhile isDigit
  if ds = [] then none
  else
    let v : ℤ := if negative then -digitsValue ds else digitsValue ds
    if -2 ^ 63 ≤ v ∧ v ≤ 2 ^ 63 - 1 then some (v, s.dropWhile isDigit) else none

/-- `text` is a decimal integer, and `n` is its value. -/
inductive Numeral : Bytes → ℤ → Prop
  | digits {ds : Bytes} (hne : ds ≠ []) (hdigit : ∀ d ∈ ds, isDigit d = true) :
    Numeral ds (digitsValue ds)
  | minus {ds : Bytes} (hne : ds ≠ []) (hdigit : ∀ d ∈ ds, isDigit d = true) :
    Numeral (0x2d :: ds) (-digitsValue ds)

theorem Numeral.ne_nil {text : Bytes} {n : ℤ} (h : Numeral text n) : text ≠ [] := by
  cases h with
  | digits hne => exact hne
  | minus => exact List.cons_ne_nil _ _

theorem digits_eq_some_nil_iff (sign : ℤ → ℤ) {s : Bytes} {n : ℤ} :
    (if s.takeWhile isDigit = [] then none
      else if -2 ^ 63 ≤ sign (digitsValue (s.takeWhile isDigit))
          ∧ sign (digitsValue (s.takeWhile isDigit)) ≤ 2 ^ 63 - 1 then
        some (sign (digitsValue (s.takeWhile isDigit)), s.dropWhile isDigit)
      else none) = some (n, [])
      ↔ s ≠ [] ∧ (∀ d ∈ s, isDigit d = true) ∧ n = sign (digitsValue s)
        ∧ -2 ^ 63 ≤ n ∧ n ≤ 2 ^ 63 - 1 := by
  by_cases hdigit : ∀ d ∈ s, isDigit d = true
  · rw [List.takeWhile_eq_self_iff.mpr hdigit, List.dropWhile_eq_nil_iff.mpr hdigit]
    split_ifs with hnil hrange
    · exact iff_of_false (by simp) fun h ↦ h.1 hnil
    · constructor
      · intro h
        obtain rfl : sign (digitsValue s) = n := congrArg Prod.fst (Option.some.inj h)
        exact ⟨hnil, hdigit, rfl, hrange⟩
      · rintro ⟨-, -, rfl, -⟩
        rfl
    · refine iff_of_false (by simp) ?_
      rintro ⟨-, -, rfl, hfits⟩
      exact hrange hfits
  · refine iff_of_false (fun h ↦ hdigit ?_) fun h ↦ hdigit h.2.1
    split_ifs at h
    exact List.dropWhile_eq_nil_iff.mp (congrArg Prod.snd (Option.some.inj h))

/-- `from_chars` takes all of a text exactly if it is a decimal integer that fits. -/
theorem fromChars_eq_some_nil_iff {text : Bytes} {n : ℤ} :
    fromChars text = some (n, []) ↔ Numeral text n ∧ -2 ^ 63 ≤ n ∧ n ≤ 2 ^ 63 - 1 := by
  by_cases hminus : text.head? = some 0x2d
  · obtain ⟨s, rfl⟩ : ∃ s, text = 0x2d :: s := List.head?_eq_some_iff.mp hminus
    simp only [fromChars, List.head?_cons, if_true, List.tail_cons]
    refine (digits_eq_some_nil_iff Neg.neg).trans ?_
    constructor
    · rintro ⟨hne, hdigit, rfl, hfits⟩
      exact ⟨.minus hne hdigit, hfits⟩
    · rintro ⟨h, hfits⟩
      cases h with
      | digits _ hdigit => exact absurd (hdigit 0x2d List.mem_cons_self) (by decide)
      | minus hne hdigit => exact ⟨hne, hdigit, rfl, hfits⟩
  · simp only [fromChars, if_neg hminus]
    refine (digits_eq_some_nil_iff id).trans ?_
    constructor
    · rintro ⟨hne, hdigit, rfl, hfits⟩
      exact ⟨.digits hne hdigit, hfits⟩
    · rintro ⟨h, hfits⟩
      cases h with
      | digits hne hdigit => exact ⟨hne, hdigit, rfl, hfits⟩
      | minus => exact absurd rfl hminus

/-! ## `Args` -/

/-- `Args`: the options with a value, the bare ones, and the positionals. -/
structure Args extends Store Bytes Bytes where
  rest : List Bytes := []

namespace Args

variable (args : Args) (name : Bytes)

def has : Bool := (args.values.lookup name).isSome || name ∈ args.flags

def str : Option Bytes := args.values.lookup name

def num : Option ℤ :=
  match args.str name with
  | none => none
  | some value =>
    if value = [] then none
    else
      match fromChars value with
      | some (parsed, []) => some parsed
      | _ => none

def boolean : Bool := name ∈ args.flags

/-- `set_value`: a value, in place of whatever the option was set to. -/
def setValue (value : Bytes) : Args := { args with toStore := args.toStore.setValue name value }

/-- A bare option, in place of whatever it was set to. -/
def setFlag : Args := { args with toStore := args.toStore.setBare name }

variable {args name}

theorem boolean_eq_true_iff : args.boolean name = true ↔ args.read name = some .bare := by
  rw [boolean, decide_eq_true_iff, Store.read_eq_bare_iff]

theorem str_eq_some_iff {value : Bytes} :
    args.str name = some value ↔ args.read name = some (.value value) :=
  Store.read_eq_value_iff.symm

theorem has_eq_true_iff : args.has name = true ↔ args.read name ≠ none := by
  rw [has, Bool.or_eq_true, decide_eq_true_iff, Ne, Store.read_eq_none_iff, not_and_or, not_not,
    Option.isSome_iff_ne_none, or_comm]

/-- `num` is the value of an option whose value is a decimal integer that fits a `long`. -/
theorem num_eq_some_iff {n : ℤ} :
    args.num name = some n ↔
      ∃ value, args.read name = some (.value value) ∧ Numeral value n ∧
        -2 ^ 63 ≤ n ∧ n ≤ 2 ^ 63 - 1 := by
  have hnum : args.num name = some n ↔
      ∃ value, args.str name = some value ∧ value ≠ [] ∧ fromChars value = some (n, []) := by
    rw [num]
    cases args.str name with
    | none => simp
    | some value =>
      by_cases hnil : value = []
      · simp [hnil]
      · rcases hchars : fromChars value with _ | ⟨parsed, rest⟩
        · simp [hnil, hchars]
        · cases rest <;> simp [hnil, hchars]
  rw [hnum]
  refine exists_congr fun value ↦ ?_
  rw [str_eq_some_iff, fromChars_eq_some_nil_iff]
  exact and_congr_right fun _ ↦ and_iff_right_of_imp fun h ↦ h.1.ne_nil

end Args

/-! ## `parse_argv` -/

/-- The text of an option behind its dashes. A digit behind a single dash is a negative number, and
that is a positional. -/
def optionText (token : Bytes) : Option Bytes :=
  if 2 < token.length ∧ token.take 2 = ascii "--" then some (token.drop 2)
  else if 1 < token.length ∧ token[0]? = some 0x2d ∧ token[1]? ≠ some 0x2d
      ∧ token[1]?.any isDigit = false then
    some (token.drop 1)
  else none

def parseLoop (args : Args) : List Bytes → Args
  | [] => args
  | token :: argv =>
    match optionText token with
    | none => parseLoop { args with rest := args.rest ++ [token] } argv
    | some name =>
      match name.idxOf? 0x3d with
      | some eq => parseLoop (args.setValue (name.take eq) (name.drop (eq + 1))) argv
      | none =>
        -- An option only takes the next token for its value where that is no long option.
        match argv with
        | [] => args.setFlag name
        | next :: argv =>
          if next.take 2 ≠ ascii "--" then parseLoop (args.setValue name next) argv
          else parseLoop (args.setFlag name) (next :: argv)

/-- `parse_argv`. The first token is the name of the program. -/
def parseArgv (argv : List Bytes) : Args := parseLoop {} argv.tail

/-! ## The grammar -/

/-- A token that is an option, and its text behind the dashes. -/
inductive IsOption : Bytes → Bytes → Prop
  | long {text : Bytes} (hne : text ≠ []) : IsOption (0x2d :: 0x2d :: text) text
  | short {c : UInt8} {text : Bytes} (hdash : c ≠ 0x2d) (hdigit : isDigit c = false) :
    IsOption (0x2d :: c :: text) (c :: text)

/-- What a list of tokens says: which options it mentions, and which tokens are positionals. -/
inductive Reads : List Bytes → List (Bytes × Setting Bytes) → List Bytes → Prop
  | done : Reads [] [] []
  | positional {token argv ms rest} (htoken : ∀ text, ¬IsOption token text)
      (hreads : Reads argv ms rest) :
    Reads (token :: argv) ms (token :: rest)
  /-- Written `--name=value`. -/
  | inline {token name value argv ms rest} (htoken : IsOption token (name ++ 0x3d :: value))
      (hname : 0x3d ∉ name) (hreads : Reads argv ms rest) :
    Reads (token :: argv) ((name, .value value) :: ms) rest
  /-- Written `--name value`. -/
  | spaced {token name value argv ms rest} (htoken : IsOption token name) (hname : 0x3d ∉ name)
      (hvalue : ¬ascii "--" <+: value) (hreads : Reads argv ms rest) :
    Reads (token :: value :: argv) ((name, .value value) :: ms) rest
  /-- Written `--name`, as the last token or before a long option. -/
  | bare {token name argv ms rest} (htoken : IsOption token name) (hname : 0x3d ∉ name)
      (hnext : ∀ next ∈ argv.head?, ascii "--" <+: next) (hreads : Reads argv ms rest) :
    Reads (token :: argv) ((name, .bare) :: ms) rest

theorem optionText_of_isOption {token text : Bytes} (h : IsOption token text) :
    optionText token = some text := by
  cases h with
  | long hne =>
    have hlen : 2 < (0x2d :: 0x2d :: text).length := by
      have := List.length_pos_of_ne_nil hne
      simp only [List.length_cons]
      omega
    rw [optionText, if_pos ⟨hlen, rfl⟩]
    rfl
  | @short c text hdash hdigit =>
    have htake : (0x2d :: c :: text).take 2 ≠ ascii "--" := by
      intro heq
      exact hdash (List.cons.inj (List.cons.inj heq).2).1
    rw [optionText, if_neg fun hlong ↦ htake hlong.2, if_pos]
    · rfl
    · exact ⟨by simp, rfl, fun heq ↦ hdash (Option.some.inj heq), hdigit⟩

theorem exists_cons_cons {token : Bytes} (h : 1 < token.length) : ∃ a b t, token = a :: b :: t := by
  rcases token with _ | ⟨a, _ | ⟨b, t⟩⟩
  · exact absurd h (by decide)
  · exact absurd h (lt_irrefl 1)
  · exact ⟨a, b, t, rfl⟩

theorem optionText_eq_some_iff {token text : Bytes} :
    optionText token = some text ↔ IsOption token text := by
  refine ⟨fun h ↦ ?_, optionText_of_isOption⟩
  rw [optionText] at h
  split_ifs at h with hlong hshort
  · obtain ⟨hlen, htake⟩ := hlong
    obtain ⟨a, b, t, rfl⟩ := exists_cons_cons (Nat.lt_of_succ_lt hlen)
    obtain ⟨rfl, rfl⟩ : a = 0x2d ∧ b = 0x2d := by
      injection htake with ha htake
      injection htake with hb _
      exact ⟨ha, hb⟩
    obtain rfl : t = text := Option.some.inj h
    exact .long (List.ne_nil_of_length_pos (by simpa using hlen))
  · obtain ⟨hlen, hzero, hone, hdigit⟩ := hshort
    obtain ⟨a, c, t, rfl⟩ := exists_cons_cons hlen
    obtain rfl : a = 0x2d := Option.some.inj hzero
    obtain rfl : c :: t = text := Option.some.inj h
    exact .short (fun heq ↦ hone (congrArg some heq)) hdigit

theorem optionText_eq_none_iff {token : Bytes} :
    optionText token = none ↔ ∀ text, ¬IsOption token text := by
  rw [Option.eq_none_iff_forall_ne_some]
  exact forall_congr' fun text ↦ not_congr optionText_eq_some_iff

/-- The name of an option in front of an equals sign, and its value behind it. -/
theorem idxOf?_eq_some_iff_append {text : Bytes} {c : UInt8} {i : ℕ} :
    text.idxOf? c = some i ↔
      text = text.take i ++ c :: text.drop (i + 1) ∧ c ∉ text.take i ∧ i < text.length := by
  rw [List.idxOf?_eq_some_iff]
  constructor
  · rintro ⟨hi, hc, hfirst⟩
    refine ⟨?_, fun hmem ↦ ?_, hi⟩
    · rw [← hc, List.getElem_cons_drop, List.take_append_drop]
    · obtain ⟨j, hj, hget⟩ := List.mem_take_iff_getElem.mp hmem
      exact hfirst j (by omega) hget
  · rintro ⟨hsplit, hfirst, hi⟩
    refine ⟨hi, ?_, fun j hj hget ↦ hfirst (List.mem_take_iff_getElem.mpr ⟨j, by omega, hget⟩)⟩
    have htail := congrArg (List.drop i) hsplit
    rw [List.drop_left' (List.length_take_of_le hi.le), List.drop_eq_getElem_cons hi] at htail
    exact (List.cons.inj htail).1

theorem take_two_eq_iff {token : Bytes} : token.take 2 = ascii "--" ↔ ascii "--" <+: token := by
  rw [List.prefix_iff_eq_take, eq_comm]
  rfl

theorem Reads.parseLoop {argv : List Bytes} {ms : List (Bytes × Setting Bytes)} {rest : List Bytes}
    (h : Reads argv ms rest) (args : Args) :
    parseLoop args argv
      = { toStore := ms.foldl Store.write args.toStore, rest := args.rest ++ rest } := by
  induction h generalizing args with
  | done =>
    rw [List.append_nil]
    rfl
  | positional htoken _ ih =>
    rw [Cli.parseLoop, optionText_eq_none_iff.mpr htoken]
    simp only
    rw [ih, List.append_assoc]
    rfl
  | @inline token name value argv ms rest htoken hname _ ih =>
    have htake : (name ++ 0x3d :: value).take name.length = name := List.take_left
    have hdrop : (name ++ 0x3d :: value).drop (name.length + 1) = value := by
      rw [← List.drop_drop, List.drop_left]
      rfl
    have hidx : (name ++ 0x3d :: value).idxOf? 0x3d = some name.length := by
      rw [idxOf?_eq_some_iff_append, htake, hdrop]
      exact ⟨rfl, hname, by simp⟩
    rw [Cli.parseLoop, optionText_of_isOption htoken]
    simp only [hidx, htake, hdrop]
    exact ih _
  | spaced htoken hname hvalue _ ih =>
    rw [Cli.parseLoop, optionText_of_isOption htoken]
    simp only [List.idxOf?_eq_none_iff.mpr hname]
    rw [if_pos fun htake ↦ hvalue (take_two_eq_iff.mp htake)]
    exact ih _
  | @bare token name argv ms rest htoken hname hnext _ ih =>
    rw [Cli.parseLoop, optionText_of_isOption htoken]
    simp only [List.idxOf?_eq_none_iff.mpr hname]
    cases argv with
    | nil => exact ih (args.setFlag name)
    | cons next argv =>
      simp only
      rw [if_neg fun htake ↦ htake (take_two_eq_iff.mpr (hnext next rfl))]
      exact ih _

theorem exists_reads (argv : List Bytes) : ∃ ms rest, Reads argv ms rest := by
  induction ({} : Args), argv using parseLoop.induct with
  | case1 => exact ⟨_, _, .done⟩
  | case2 args token argv htext ih =>
    obtain ⟨ms, rest, hreads⟩ := ih
    exact ⟨_, _, .positional (optionText_eq_none_iff.mp htext) hreads⟩
  | case3 args token argv text htext i hi ih =>
    obtain ⟨ms, rest, hreads⟩ := ih
    obtain ⟨hsplit, hname, -⟩ := idxOf?_eq_some_iff_append.mp hi
    rw [hsplit] at htext
    exact ⟨_, _, .inline (optionText_eq_some_iff.mp htext) hname hreads⟩
  | case4 args token text htext hi =>
    exact ⟨_, _, .bare (optionText_eq_some_iff.mp htext) (List.idxOf?_eq_none_iff.mp hi)
      (fun _ hnext ↦ nomatch hnext) .done⟩
  | case5 args token text htext hi next argv hvalue ih =>
    obtain ⟨ms, rest, hreads⟩ := ih
    exact ⟨_, _, .spaced (optionText_eq_some_iff.mp htext) (List.idxOf?_eq_none_iff.mp hi)
      (fun hprefix ↦ hvalue (take_two_eq_iff.mpr hprefix)) hreads⟩
  | case6 args token text htext hi next argv hlong ih =>
    obtain ⟨ms, rest, hreads⟩ := ih
    refine ⟨_, _, .bare (optionText_eq_some_iff.mp htext) (List.idxOf?_eq_none_iff.mp hi) ?_ hreads⟩
    intro next' hnext'
    obtain rfl : next = next' := Option.some.inj hnext'
    exact take_two_eq_iff.mp (Classical.not_not.mp hlong)

/-- What an argument vector gives for an option: what the last mention of it says. -/
def Given (argv : List Bytes) (name : Bytes) (setting : Option (Setting Bytes)) : Prop :=
  ∃ ms rest, Reads argv.tail ms rest ∧ last name ms = setting

def Positionals (argv rest : List Bytes) : Prop := ∃ ms, Reads argv.tail ms rest

/-- **`parse_argv` reads an option as the grammar does.** -/
theorem given_iff {argv : List Bytes} {name : Bytes} {setting : Option (Setting Bytes)} :
    Given argv name setting ↔ (parseArgv argv).read name = setting := by
  have hread : ∀ {ms rest}, Reads argv.tail ms rest →
      (parseArgv argv).read name = last name ms := by
    intro ms rest hreads
    rw [parseArgv, hreads.parseLoop, Store.read_foldl_write]
    exact (congrArg _ Store.read_empty).trans Option.or_none
  constructor
  · rintro ⟨ms, rest, hreads, rfl⟩
    exact hread hreads
  · rintro rfl
    obtain ⟨ms, rest, hreads⟩ := exists_reads argv.tail
    exact ⟨ms, rest, hreads, (hread hreads).symm⟩

/-- **`parse_argv` collects the positionals of the grammar.** -/
theorem positionals_iff {argv rest : List Bytes} :
    Positionals argv rest ↔ (parseArgv argv).rest = rest := by
  have hrest : ∀ {ms rest}, Reads argv.tail ms rest → (parseArgv argv).rest = rest := by
    intro ms rest hreads
    rw [parseArgv, hreads.parseLoop]
    exact List.nil_append rest
  constructor
  · rintro ⟨ms, hreads⟩
    exact hrest hreads
  · rintro rfl
    obtain ⟨ms, rest, hreads⟩ := exists_reads argv.tail
    exact ⟨ms, (hrest hreads).symm ▸ hreads⟩

end Holesail.Cli
