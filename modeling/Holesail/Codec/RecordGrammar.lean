import Holesail.Codec.Record
import Holesail.Theory.FlatJson

/-!
# What the record reader accepts

`decode_record` has no grammar in it, but it reads one: its cursor moves exactly as the parser of
the lenient flat objects does, and the record it returns is a fold over their members. From this
come both directions of its relation to JSON.

## Main results

* `decodeRecord_text`: every flat JSON object is understood, with the last member of a key winning.
* `justifies_iff_clean`: a text that is accepted is a flat JSON object exactly when, read leniently,
  it has nothing behind the closing brace, no control characters in its strings and no scalars other
  than JSON's.
-/

namespace Holesail

open FlatObject (Piece Value Member Object)

/-! ## The two sets of tables agree -/

theorem isWs_eq : isWs = FlatObject.isBlank := rfl

theorem endsScalar_eq : endsScalar = FlatObject.isEnd := rfl

theorem nibbleOf_eq : nibbleOf = FlatObject.hexValue := rfl

theorem unescape_eq (e : UInt8) : unescape e = FlatObject.escapeValue e := by
  have hlookup : ∀ (b v : UInt8) (l : List (UInt8 × UInt8)),
      ((b, v) :: l).lookup e = if e = b then some v else l.lookup e := by
    intro b v l
    rw [List.lookup_cons]
    by_cases h : e = b
    · rw [if_pos h, beq_iff_eq.2 h]
    · rw [if_neg h, beq_eq_false_iff_ne.2 h]
  rw [FlatObject.escapeValue]
  simp only [hlookup, List.lookup_nil]
  rfl

theorem nibbleOf_lt {c : UInt8} {v : ℕ} (h : nibbleOf c = some v) : v < 16 := by
  have hle : ∀ {a b : UInt8}, a ≤ b → a.toNat ≤ b.toNat := fun h ↦ h
  rw [nibbleOf] at h
  split_ifs at h with hdec hlow hup <;> cases h
  · have := hle hdec.2
    simp only [UInt8.reduceToNat] at this
    omega
  · have := hle hlow.2
    simp only [UInt8.reduceToNat] at this
    omega
  · have := hle hup.2
    simp only [UInt8.reduceToNat] at this
    omega

theorem shiftLeft_or_nibble (x : ℕ) {v : ℕ} (h : v < 16) : x <<< 4 ||| v = 16 * x + v := by
  rw [← Nat.shiftLeft_add_eq_or_of_lt (i := 4) h, Nat.shiftLeft_eq, Nat.mul_comm]

theorem hexCode_eq (h₀ h₁ h₂ h₃ : UInt8) :
    hexCode h₀ h₁ h₂ h₃ = FlatObject.codeValue h₀ h₁ h₂ h₃ := by
  rw [hexCode, FlatObject.codeValue, ← nibbleOf_eq]
  rcases nibbleOf h₀ with _ | v₀
  · rfl
  rcases hv₁ : nibbleOf h₁ with _ | v₁
  · rfl
  rcases hv₂ : nibbleOf h₂ with _ | v₂
  · rfl
  rcases hv₃ : nibbleOf h₃ with _ | v₃
  · rfl
  change some (((v₀ <<< 4 ||| v₁) <<< 4 ||| v₂) <<< 4 ||| v₃) = some _
  rw [shiftLeft_or_nibble _ (nibbleOf_lt hv₁), shiftLeft_or_nibble _ (nibbleOf_lt hv₂),
    shiftLeft_or_nibble _ (nibbleOf_lt hv₃)]

/-! ## The cursor -/

/-- The byte `read_string` pushes for a piece. -/
def pushed : Piece → UInt8
  | .plain c => c
  | .escape e => (unescape e).getD 0
  | .unicode h₀ h₁ h₂ h₃ =>
    let code := (hexCode h₀ h₁ h₂ h₃).getD 0
    if code < 0x80 then code.toUInt8 else 0x3f

/-- What one turn of the loop does with a member. -/
def store (r : Record) (m : Member) : Record :=
  match m.value with
  | .string ps => if m.key.map pushed = ascii "host" then { r with host := ps.map pushed } else r
  | .scalar t => setScalar r (m.key.map pushed) t

theorem readStringLoop_eq (out s : Bytes) : readStringLoop out s
    = (FlatObject.readPieces s).map fun q ↦ (out ++ q.1.map pushed, q.2) := by
  -- The two loops turn together; only what they collect differs.
  have hpush : ∀ (out s : Bytes) (p : Piece),
      ((FlatObject.readPieces s).map fun q ↦ (out ++ [pushed p] ++ q.1.map pushed, q.2))
        = ((FlatObject.readPieces s).map fun q ↦ (p :: q.1, q.2)).map
          fun q ↦ (out ++ q.1.map pushed, q.2) := by
    intro out s p
    rw [Option.map_map]
    refine congrFun (congrArg _ (funext fun q ↦ ?_)) _
    rw [List.append_assoc]
    rfl
  fun_induction readStringLoop out s with
  | case1 => rfl
  | case2 out s =>
    rw [FlatObject.readPieces.eq_def]
    simp only [if_true, Option.map_some, List.map_nil, List.append_nil]
  | case3 out c s hquote hslash ih =>
    rw [ih, FlatObject.readPieces.eq_def (c :: s)]
    simp only [if_neg hquote, if_pos hslash]
    exact hpush out s (.plain c)
  | case4 out c hquote hslash =>
    rw [FlatObject.readPieces.eq_def]
    simp only [if_neg hquote, if_neg hslash, Option.map_none]
  | case5 out c hquote hslash h₀ h₁ h₂ h₃ s code hcode ih =>
    have hsome : (FlatObject.codeValue h₀ h₁ h₂ h₃).isSome = true := by
      rw [← hexCode_eq, hcode, Option.isSome_some]
    have hpushed : pushed (.unicode h₀ h₁ h₂ h₃) = if code < 0x80 then code.toUInt8 else 0x3f := by
      rw [pushed, hcode, Option.getD_some]
    rw [ih, FlatObject.readPieces.eq_def (c :: _), ← hpushed]
    simp only [if_neg hquote, if_neg hslash, if_true, if_pos hsome]
    exact hpush out s (.unicode h₀ h₁ h₂ h₃)
  | case6 out c hquote hslash h₀ h₁ h₂ h₃ s hcode =>
    have hnone : (FlatObject.codeValue h₀ h₁ h₂ h₃).isSome = false := by
      rw [← hexCode_eq, hcode, Option.isSome_none]
    rw [FlatObject.readPieces.eq_def]
    simp only [if_neg hquote, if_neg hslash, if_true, hnone, Bool.false_eq_true, if_false,
      Option.map_none]
  | case7 out c hquote hslash s hshort =>
    rw [FlatObject.readPieces.eq_def]
    -- No four digits are left for the match.
    simp only [if_neg hquote, if_neg hslash, if_true, Option.map_none]
  | case8 out c hquote hslash e s hu b hb ih =>
    have hsome : (FlatObject.escapeValue e).isSome = true := by
      rw [← unescape_eq, hb, Option.isSome_some]
    have hpushed : pushed (.escape e) = b := by rw [pushed, hb, Option.getD_some]
    rw [ih, FlatObject.readPieces.eq_def (c :: _), ← hpushed]
    simp only [if_neg hquote, if_neg hslash, if_neg hu, if_pos hsome]
    exact hpush out s (.escape e)
  | case9 out c hquote hslash e s hu hb =>
    have hnone : (FlatObject.escapeValue e).isSome = false := by
      rw [← unescape_eq, hb, Option.isSome_none]
    rw [FlatObject.readPieces.eq_def]
    simp only [if_neg hquote, if_neg hslash, if_neg hu, hnone, Bool.false_eq_true, if_false,
      Option.map_none]

/-- An opening quote, with the blanks in front of it, and the string behind it. -/
theorem readString_skipWs (s : Bytes) : readString (skipWs s)
    = (FlatObject.token 0x22 s).bind fun q ↦
      (FlatObject.readPieces q.2).map fun q ↦ (q.1.map pushed, q.2) := by
  rw [FlatObject.token, skipWs, isWs_eq]
  cases s.dropWhile FlatObject.isBlank with
  | nil => rfl
  | cons c t =>
    rw [readString]
    by_cases hc : c = 0x22
    · simp only [if_pos hc, Option.bind_some, readStringLoop_eq, List.nil_append]
    · simp only [if_neg hc, Option.bind_none]

/-- The source's scalar ends at the delimiter, the parser's before the blanks in front of it. -/
theorem readScalar_eq (s : Bytes) : ((readScalar s).map fun q ↦ (q.1, skipWs q.2))
    = (FlatObject.readScalar s).map fun q ↦ (q.1, skipWs q.2) := by
  have hsplit := List.takeWhile_append_dropWhile (p := fun c ↦ !endsScalar c) (l := s)
  have htrim := List.rdropWhile_append_rtakeWhile (p := isWs) (l := s.takeWhile (!endsScalar ·))
  have hblank : ∀ c ∈ (s.takeWhile (!endsScalar ·)).rtakeWhile isWs, isWs c = true :=
    fun c hc ↦ List.mem_rtakeWhile_imp hc
  rw [readScalar, FlatObject.readScalar, ← isWs_eq, ← endsScalar_eq]
  generalize (s.takeWhile fun c ↦ !endsScalar c).rdropWhile isWs = t at *
  generalize (s.takeWhile fun c ↦ !endsScalar c).rtakeWhile isWs = blanks at *
  by_cases ht : t = []
  · simp only [if_pos ht, Option.map_none]
  · have hdrop : s.drop t.length = blanks ++ s.dropWhile fun c ↦ !endsScalar c := by
      conv_lhs => rw [← hsplit, ← htrim, List.append_assoc, List.drop_left]
    have hskip : skipWs (s.drop t.length) = skipWs (s.dropWhile fun c ↦ !endsScalar c) := by
      rw [hdrop, skipWs, List.dropWhile_append_of_pos hblank, skipWs]
    simp only [if_neg ht, Option.map_some, hskip]

/-- The value and where the cursor stands behind it and the blanks. -/
theorem readValue_eq (r : Record) (key s : Bytes) :
    ((readValue r key s).map fun q ↦ (q.1, skipWs q.2))
      = (FlatObject.readValue s).map fun q ↦
        (match q.1 with
          | .string ps => if key = ascii "host" then { r with host := ps.map pushed } else r
          | .scalar t => setScalar r key t, skipWs q.2) := by
  cases s with
  | nil => rfl
  | cons c s =>
    rw [readValue, FlatObject.readValue, List.head?_cons, List.tail_cons]
    by_cases hc : c = 0x22
    · rw [if_pos hc, if_pos (congrArg some hc), readString, if_pos hc, readStringLoop_eq]
      cases FlatObject.readPieces s with
      | none => rfl
      | some q => rfl
    · rw [if_neg hc, if_neg fun h ↦ hc (Option.some_inj.1 h)]
      have hscalar :=
        congrArg (Option.map fun q ↦ (setScalar r key q.1, q.2)) (readScalar_eq (c :: s))
      rw [Option.map_map, Option.map_map] at hscalar
      rw [Option.map_map]
      refine Eq.trans ?_ hscalar
      cases readScalar (c :: s) with
      | none => rfl
      | some q => rfl

theorem readMember_eq (r : Record) (s : Bytes) : readMember r s
    = (FlatObject.readMember s).map fun q ↦ (store r q.1, q.2) := by
  rw [readMember, FlatObject.readMember, readString_skipWs]
  -- The two readers go through the same steps; at each one both fail or both go on.
  rcases FlatObject.token 0x22 s with _ | before
  · rfl
  rw [Option.bind_some]
  simp only
  rcases FlatObject.readPieces before.2 with _ | key
  · rfl
  rw [Option.map_some]
  simp only
  rw [FlatObject.token, skipWs, isWs_eq]
  rcases key.2.dropWhile FlatObject.isBlank with _ | ⟨c, t⟩
  · rfl
  simp only
  by_cases hc : c = 0x3a
  · rw [if_neg (not_not.2 hc), if_pos hc]
    simp only
    have hvalue := readValue_eq r (key.1.map pushed) (skipWs t)
    rw [show t.dropWhile FlatObject.isBlank = skipWs t from rfl]
    cases hread : readValue r (key.1.map pushed) (skipWs t) with
    | none =>
      rw [hread, Option.map_none] at hvalue
      rw [Option.map_eq_none_iff.1 hvalue.symm]
      rfl
    | some q =>
      rw [hread, Option.map_some] at hvalue
      obtain ⟨q', hq', heq⟩ := Option.map_eq_some_iff.1 hvalue.symm
      rw [hq']
      exact congrArg some heq.symm
  · rw [if_pos hc, if_neg hc]
    rfl

theorem decodeLoop_skipWs (r : Record) (s : Bytes) : decodeLoop r (skipWs s) = decodeLoop r s := by
  have hmember : readMember r (skipWs s) = readMember r s := by
    rw [readMember, readMember, skipWs, skipWs, List.dropWhile_idempotent]
  by_cases h : ∃ r' c t, readMember r s = some (r', c :: t)
  · obtain ⟨r', c, t, h⟩ := h
    rw [decodeLoop_of_readMember h, decodeLoop_of_readMember (hmember.trans h)]
  · simp only [not_exists] at h
    rw [decodeLoop_of_forall_ne h, decodeLoop_of_forall_ne fun r' c t ↦ hmember.symm ▸ h r' c t]

theorem decodeLoop_eq (r : Record) (s : Bytes) : decodeLoop r s
    = (FlatObject.readMembers s).map fun q ↦ q.1.foldl store r := by
  fun_induction FlatObject.readMembers s generalizing r with
  | case1 s m t hm ih =>
    have hread : readMember r s = some (store r m, 0x2c :: t) := by
      rw [readMember_eq, hm, Option.map_some]
    rw [decodeLoop_of_readMember hread, if_pos rfl, ih, Option.map_map]
    rfl
  | case2 s m t hm hne =>
    have hread : readMember r s = some (store r m, 0x7d :: t) := by
      rw [readMember_eq, hm, Option.map_some]
    rw [decodeLoop_of_readMember hread, if_neg hne, if_pos rfl]
    rfl
  | case3 s m c t hm hcomma hbrace =>
    have hread : readMember r s = some (store r m, c :: t) := by
      rw [readMember_eq, hm, Option.map_some]
    rw [decodeLoop_of_readMember hread, if_neg hcomma, if_neg hbrace]
    rfl
  | case4 s hnot =>
    refine decodeLoop_of_forall_ne fun r' c t hread ↦ ?_
    rw [readMember_eq] at hread
    obtain ⟨⟨m, u⟩, hm, heq⟩ := Option.map_eq_some_iff.1 hread
    cases heq
    exact hnot m c t hm

/-- **The reader reads lenient objects.** The record is what storing the members in turn leaves. -/
theorem decodeRecord_eq (json : Bytes) :
    decodeRecord json = (FlatObject.parse json).map fun x ↦ x.members.foldl store {} := by
  rw [decodeRecord, FlatObject.parse, FlatObject.token, skipWs, isWs_eq]
  rcases json.dropWhile FlatObject.isBlank with _ | ⟨c, s⟩
  · rfl
  simp only
  by_cases hc : c = 0x7b
  · rw [if_neg (not_not.2 hc), if_pos hc]
    have hloop := decodeLoop_skipWs {} s
    have hmembers := decodeLoop_eq {} s
    rw [skipWs, isWs_eq] at hloop ⊢
    simp only
    rw [FlatObject.token]
    cases hs : s.dropWhile FlatObject.isBlank with
    | nil =>
      rw [hs] at hloop
      simp only [hloop, hmembers, Option.map_map]
      rfl
    | cons d t =>
      rw [hs] at hloop
      by_cases hd : d = 0x7d
      · simp only [if_pos hd, Option.map_some, List.foldl_nil]
      · simp only [if_neg hd, hloop, hmembers, Option.map_map]
        rfl
  · rw [if_pos hc, if_neg hc]
    rfl

theorem decodeRecord_eq_some_iff {json : Bytes} {r : Record} : decodeRecord json = some r ↔
    ∃ x : Object, x.In FlatObject.lenient ∧ x.text = json ∧ x.members.foldl store {} = r := by
  simp only [decodeRecord_eq, Option.map_eq_some_iff, FlatObject.parse_eq_some_iff, and_assoc]

/-! ## What strings spell -/

variable {G : FlatObject.Grammar}

/-- A piece that is no byte of its own is read as `?`. -/
theorem byte_eq {p : Piece} (hp : p.In G) :
    p.byte = some (pushed p) ∨ p.byte = none ∧ pushed p = 0x3f := by
  cases p with
  | plain c => exact Or.inl rfl
  | escape e =>
    obtain ⟨b, hb⟩ := Option.isSome_iff_exists.1 hp
    left
    rw [Piece.byte, pushed, unescape_eq, hb, Option.getD_some]
  | unicode h₀ h₁ h₂ h₃ =>
    obtain ⟨code, hcode⟩ := Option.isSome_iff_exists.1 hp
    rw [Piece.byte, pushed, hexCode_eq, hcode, Option.bind_some, Option.getD_some]
    by_cases h : code < 0x80
    · rw [if_pos h]
      exact Or.inl (congrArg some (if_pos h).symm)
    · rw [if_neg h]
      exact Or.inr ⟨rfl, if_neg h⟩

/-- A word without `?` is read only where it is spelled. -/
theorem map_pushed_eq_iff {ps : List Piece} (hps : ∀ p ∈ ps, p.In G) {w : Bytes}
    (hw : ∀ c ∈ w, c ≠ 0x3f) : ps.map pushed = w ↔ FlatObject.spelling ps = some w := by
  induction ps generalizing w with
  | nil => simp only [List.map_nil, FlatObject.spelling_nil, Option.some.injEq]
  | cons p ps ih =>
    obtain ⟨hp, hps⟩ := List.forall_mem_cons.1 hps
    rw [List.map_cons, FlatObject.spelling_cons]
    -- A piece that is not a byte is read as `?`, which is not in the word.
    rcases byte_eq hp with hbyte | ⟨hbyte, hquestion⟩
    · rw [hbyte, Option.bind_some, Option.map_eq_some_iff]
      constructor
      · rintro rfl
        have hw' := (List.forall_mem_cons.1 hw).2
        exact ⟨_, (ih hps hw').1 rfl, rfl⟩
      · rintro ⟨w', hw', rfl⟩
        rw [(ih hps (List.forall_mem_cons.1 hw).2).2 hw']
    · rw [hbyte, hquestion]
      refine iff_of_false ?_ nofun
      rintro rfl
      exact hw 0x3f List.mem_cons_self rfl

theorem spelling_of_ascii {ps : List Piece} (hps : ∀ p ∈ ps, p.In G) (hascii : ∀ p ∈ ps, p.Ascii) :
    FlatObject.spelling ps = some (ps.map pushed) := by
  induction ps with
  | nil => rfl
  | cons p ps ih =>
    obtain ⟨hp, hps⟩ := List.forall_mem_cons.1 hps
    obtain ⟨ha, hascii⟩ := List.forall_mem_cons.1 hascii
    have hbyte : p.byte = some (pushed p) :=
      (byte_eq hp).resolve_right fun h ↦ Piece.byte_ne_none hp ha h.1
    rw [FlatObject.spelling_cons, hbyte, ih hps hascii]
    rfl

/-! ## What members mean -/

def portValue (t : Bytes) : Option UInt16 :=
  (FlatObject.integerOf t).bind fun v ↦
    if 1 ≤ v ∧ v ≤ 65535 then some v.toNat.toUInt16 else none

def hostOf (m : Member) : Option Bytes :=
  match m.value with
  | .string ps =>
    if FlatObject.spelling m.key = some (ascii "host") then FlatObject.spelling ps else none
  | .scalar _ => none

def udpOf (m : Member) : Option Bool :=
  match m.value with
  | .string _ => none
  | .scalar t =>
    if FlatObject.spelling m.key = some (ascii "udp") then
      if t = FlatObject.trueText then some true
      else if t = FlatObject.falseText then some false
      else none
    else none

def portOf (m : Member) : Option UInt16 :=
  match m.value with
  | .string _ => none
  | .scalar t =>
    if FlatObject.spelling m.key = some (ascii "port") then portValue t else none

/-- `strtol` and the checks behind it find the integer literals in range among JSON's literals. Its
clamping to `long` does not matter: what it clamps is out of range either way. -/
theorem strtol_literal {t : Bytes} (h : FlatObject.IsLiteral t) :
    (if (strtol t).2 = [] ∧ 1 ≤ (strtol t).1 ∧ (strtol t).1 ≤ 65535 then
      some (strtol t).1.toNat.toUInt16 else none) = portValue t := by
  rcases h with rfl | rfl | rfl | h
  · rfl
  · rfl
  · rfl
  · obtain ⟨minus, int, fraction, exponent, hminus, hint, hfraction, hexponent, rfl⟩ := h
    have hrest := FlatObject.head?_fraction_exponent hfraction hexponent
    have hzero : ∀ c ∈ fraction ++ exponent, c ≠ 0 := by
      have hword : ∀ c ∈ fraction ++ exponent, FlatObject.isWord c = true := by
        intro c hc
        exact (List.mem_append.1 hc).elim (hfraction.isWord c) (hexponent.isWord c)
      rintro c hc rfl
      exact absurd (hword 0 hc) (by decide)
    rw [portValue, strtol_append hminus hint.1.1 hint.1.2 hrest hzero,
      FlatObject.integerOf_number hminus hint hrest]
    generalize (if minus = [] then (Decimal.digitsValue int : ℤ) else -Decimal.digitsValue int) = v
    by_cases hnil : fraction ++ exponent = []
    · rw [if_pos hnil, Option.bind_some]
      by_cases hv : 1 ≤ v ∧ v ≤ 65535
      · have hclamp : max (-2 ^ 63) (min v (2 ^ 63 - 1)) = v := by omega
        rw [if_pos hv, hclamp, if_pos ⟨hnil, hv⟩]
      · rw [if_neg hv, if_neg]
        simp only
        omega
    · rw [if_neg hnil, if_neg fun h ↦ hnil h.1, Option.bind_none]

theorem setScalar_eq (r : Record) (key raw : Bytes) : setScalar r key raw = { r with
    udp := (if key = ascii "udp" then
        if raw = ascii "true" then some true else if raw = ascii "false" then some false else none
      else none).or r.udp
    port := (if key = ascii "port" then
        if (strtol raw).2 = [] ∧ 1 ≤ (strtol raw).1 ∧ (strtol raw).1 ≤ 65535 then
          some (strtol raw).1.toNat.toUInt16 else none
      else none).or r.port } := by
  rw [setScalar]
  obtain ⟨v, stop⟩ := strtol raw
  by_cases hudp : key = ascii "udp"
  · have hport : key ≠ ascii "port" := by
      rw [hudp]
      decide
    rw [if_pos hudp, if_pos hudp, if_neg hport]
    by_cases htrue : raw = ascii "true"
    · rw [if_pos htrue, if_pos htrue]
      rfl
    by_cases hfalse : raw = ascii "false"
    · rw [if_neg htrue, if_neg htrue, if_pos hfalse, if_pos hfalse]
      rfl
    · rw [if_neg htrue, if_neg htrue, if_neg hfalse, if_neg hfalse]
      rfl
  · rw [if_neg hudp, if_neg hudp]
    simp only
    split_ifs <;> rfl

theorem store_host (r : Record) {m : Member} (hm : m.In G)
    (hascii : ∀ ps, m.value = .string ps → ∀ p ∈ ps, p.Ascii) :
    (store r m).host = (hostOf m).getD r.host := by
  have hkey := map_pushed_eq_iff hm.key (w := ascii "host")
    (List.all_iff_forall_prop.1 (by decide))
  have hvalue := hm.value
  rw [store, hostOf]
  cases hv : m.value with
  | string ps =>
    rw [hv] at hvalue
    simp only [hkey, spelling_of_ascii hvalue (hascii ps hv)]
    split_ifs <;> rfl
  | scalar t =>
    simp only [setScalar_eq]
    rfl

theorem store_udp (r : Record) {m : Member} (hm : m.In G) :
    (store r m).udp = (udpOf m).or r.udp := by
  have hkey := map_pushed_eq_iff hm.key (w := ascii "udp")
    (List.all_iff_forall_prop.1 (by decide))
  rw [store, udpOf]
  cases m.value with
  | string ps =>
    simp only
    split_ifs <;> rfl
  | scalar t =>
    simp only [setScalar_eq, hkey]
    rfl

theorem store_port (r : Record) {m : Member} (hm : m.In FlatObject.json) :
    (store r m).port = (portOf m).or r.port := by
  have hkey := map_pushed_eq_iff hm.key (w := ascii "port")
    (List.all_iff_forall_prop.1 (by decide))
  have hvalue := hm.value
  rw [store, portOf]
  cases hv : m.value with
  | string ps =>
    simp only
    split_ifs <;> rfl
  | scalar t =>
    rw [hv] at hvalue
    simp only [setScalar_eq, strtol_literal hvalue, hkey]

/-- What each step overwrites if it has something to say is at the end what was said last. -/
theorem foldl_last {σ α β : Type*} (step : σ → α → σ) (get : σ → Option β) (f : α → Option β)
    {l : List α} (h : ∀ a ∈ l, ∀ s, get (step s a) = (f a).or (get s)) (s : σ) :
    get (l.foldl step s) = (l.filterMap f).getLast?.or (get s) := by
  induction l generalizing s with
  | nil => rfl
  | cons a l ih =>
    obtain ⟨ha, hl⟩ := List.forall_mem_cons.1 h
    rw [List.foldl_cons, ih hl, ha, List.filterMap_cons]
    cases f a with
    | none => rw [Option.none_or]
    | some b =>
      rw [Option.some_or, List.getLast?_cons]
      cases (l.filterMap f).getLast? <;> rfl

/-! ## Every flat JSON object is understood -/

/-- **Completeness.** Every flat JSON object without `\u` escapes beyond ASCII is read: the host is
that of the last string member `host`, the udp flag that of the last `true` or `false` under `udp`,
and the port that of the last integer literal in range under `port`. -/
theorem decodeRecord_text {x : Object} (hx : x.In FlatObject.json) (hascii : x.Ascii) :
    decodeRecord x.text = some {
      host := (x.members.filterMap hostOf).getLast?.getD []
      udp := (x.members.filterMap udpOf).getLast?
      port := (x.members.filterMap portOf).getLast? } := by
  have hhost := foldl_last store (fun r ↦ some r.host) hostOf (fun m hm r ↦ by
    rw [store_host r (hx.members m hm) (hascii m hm).2]
    cases hostOf m <;> rfl) {}
  have hudp := foldl_last store Record.udp udpOf (fun m hm r ↦ store_udp r (hx.members m hm)) {}
  have hport := foldl_last store Record.port portOf (fun m hm r ↦ store_port r (hx.members m hm)) {}
  rw [decodeRecord_eq, FlatObject.parse_text (hx.mono FlatObject.json_le_lenient), Option.map_some]
  generalize x.members.foldl store {} = r at *
  rw [Option.or_some, Option.some_inj] at hhost
  rw [Option.or_none] at hudp hport
  obtain ⟨host, udp, port⟩ := r
  obtain rfl : host = _ := hhost
  obtain rfl : udp = _ := hudp
  obtain rfl : port = _ := hport
  rfl

/-- A reordered record with blanks, an escaped key, an unknown member and two ports, of which the
second is a number but no port. -/
private def reordered : Object where
  lead := []
  inner := []
  members := [
    ⟨[0x20], (ascii "port").map .plain, [0x20], [0x20], .scalar (ascii "8080"), []⟩,
    ⟨[], .plain 0x68 :: .unicode 0x30 0x30 0x36 0x66 :: (ascii "st").map .plain, [], [],
      .string ((ascii "::1").map .plain), []⟩,
    ⟨[], [.plain 0x78], [], [], .scalar (ascii "null"), [0x20]⟩,
    ⟨[], (ascii "port").map .plain, [], [], .scalar (ascii "-1e9"), []⟩]
  tail := [0x0a]

private theorem reordered_in_json : reordered.In FlatObject.json := by
  have hport : FlatObject.IsLiteral (ascii "8080") := by
    refine Or.inr (Or.inr (Or.inr ⟨[], ascii "8080", [], [], Or.inl rfl, ?_, Or.inl rfl, Or.inl rfl,
      rfl⟩))
    decide
  have hnumber : FlatObject.IsLiteral (ascii "-1e9") := by
    refine Or.inr (Or.inr (Or.inr ⟨[0x2d], ascii "1", [], ascii "e9", Or.inr rfl, ?_, Or.inl rfl,
      Or.inr ⟨0x65, [], ascii "9", Or.inl rfl, Or.inl rfl, ?_, rfl⟩, rfl⟩))
    · decide
    · decide
  have hnull : FlatObject.IsLiteral (ascii "null") := Or.inr (Or.inr (Or.inl rfl))
  refine ⟨by decide, by decide, fun _ ↦ rfl, ?_, show FlatObject.Blank [0x0a] by decide⟩
  refine List.forall_mem_cons.2 ⟨?_, List.forall_mem_cons.2 ⟨?_, List.forall_mem_cons.2 ⟨?_,
    List.forall_mem_singleton.2 ?_⟩⟩⟩
  · exact ⟨by decide, by decide, by decide, by decide, hport, by decide⟩
  · refine ⟨by decide, by decide, by decide, by decide, ?_, by decide⟩
    exact show ∀ p ∈ (ascii "::1").map Piece.plain, p.In FlatObject.json by decide
  · exact ⟨by decide, by decide, by decide, by decide, hnull, by decide⟩
  · exact ⟨by decide, by decide, by decide, by decide, hnumber, by decide⟩

private theorem reordered_ascii : reordered.Ascii := by
  refine List.forall_mem_cons.2 ⟨⟨by decide, fun _ h ↦ nomatch h⟩,
    List.forall_mem_cons.2 ⟨⟨by decide, ?_⟩,
    List.forall_mem_cons.2 ⟨⟨by decide, fun _ h ↦ nomatch h⟩,
    List.forall_mem_singleton.2 ⟨by decide, fun _ h ↦ nomatch h⟩⟩⟩⟩
  intro ps hps
  cases hps
  decide

theorem decodeRecord_reordered : decodeRecord (ascii
      "\x7b \"port\" : 8080,\"h\\u006fst\":\"::1\",\"x\":null ,\"port\":-1e9\x7d\n")
    = some ⟨ascii "::1", none, some 8080⟩ :=
  (congrArg decodeRecord (show _ = reordered.text by decide)).trans
    ((decodeRecord_text reordered_in_json reordered_ascii).trans (by decide))

/-! ## What is accepted -/

/-- A text that is a flat JSON object, with an integer literal under `port` for the port of the
record it is read as. -/
def Justifies (json : Bytes) (r : Record) : Prop :=
  ∃ x : Object, x.In FlatObject.json ∧ x.text = json ∧
    ∀ port, r.port = some port → ∃ m ∈ x.members, portOf m = some port

/-- **Soundness.** What is accepted is a flat JSON object exactly when, read leniently, it is clean:
nothing behind the closing brace, no control characters in strings, and no scalars but JSON's. -/
theorem justifies_iff_clean (json : Bytes) : (∀ r, decodeRecord json = some r → Justifies json r) ↔
    ∀ x : Object, x.In FlatObject.lenient → x.text = json → x.Clean := by
  constructor
  · rintro h x hx rfl
    obtain ⟨y, hy, htext, -⟩ := h _ (decodeRecord_eq_some_iff.2 ⟨x, hx, rfl, rfl⟩)
    rw [FlatObject.Object.in_json_iff] at hy
    -- A text has one reading, so the JSON object is the lenient one.
    rw [← FlatObject.Object.text_inj hy.1 hx htext]
    exact hy.2
  · intro h r hr
    obtain ⟨x, hx, htext, rfl⟩ := decodeRecord_eq_some_iff.1 hr
    have hjson := FlatObject.Object.in_json_iff.2 ⟨hx, h x hx htext⟩
    refine ⟨x, hjson, htext, fun port hport ↦ ?_⟩
    have hlast := foldl_last store Record.port portOf
      (fun m hm r ↦ store_port r (hjson.members m hm)) {}
    rw [hport, Option.or_none] at hlast
    exact List.mem_filterMap.1 (List.mem_of_getLast? hlast.symm)

/-- What follows the closing brace is not looked at. -/
theorem not_justifies_tail :
    ¬∀ json r, decodeRecord json = some r → Justifies json r := by
  intro h
  obtain ⟨y, hy, htext, -⟩ := h (ascii "\x7b\x7d x") {} rfl
  have hx : Object.In FlatObject.lenient ⟨[], [], [], ascii " x"⟩ :=
    ⟨FlatObject.blank_nil, FlatObject.blank_nil, fun hne ↦ absurd rfl hne,
      fun m hm ↦ absurd hm List.not_mem_nil, trivial⟩
  have heq := FlatObject.Object.text_inj (FlatObject.Object.in_json_iff.1 hy).1 hx htext
  have htail : FlatObject.Blank y.tail := hy.tail
  rw [heq] at htail
  exact absurd htail (by decide)

end Holesail
