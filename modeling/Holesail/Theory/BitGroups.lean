import Mathlib.Data.Nat.Bitwise

/-!
# Regrouping a bit string

A codec such as a base-32 one reads a sequence of `v`-bit words and writes the same bits as a
sequence of `w`-bit words. It does so with an accumulator: a word is shifted in at the bottom, and
whenever enough bits are pending the topmost of them are shifted out. The accumulator has a fixed
width and is allowed to overflow, since only its pending low bits are ever looked at.

Bits are written most significant first. `bits w n` is the list of the low `w` bits of `n`, and a
sequence of words is compared with another through the concatenation of their bits. Nothing here
mentions an alphabet or a particular width.
-/

namespace BitGroups

/-- The low `w` bits of `n`, most significant first. -/
def bits : ℕ → ℕ → List Bool
  | 0, _ => []
  | w + 1, n => n.testBit w :: bits w n

@[simp] theorem length_bits (w n : ℕ) : (bits w n).length = w := by
  induction w with
  | zero => rfl
  | succ w ih => rw [bits, List.length_cons, ih]

theorem bits_congr {w n m : ℕ} (h : ∀ i < w, n.testBit i = m.testBit i) : bits w n = bits w m := by
  induction w with
  | zero => rfl
  | succ w ih =>
    rw [bits, bits, h w (Nat.lt_succ_self w), ih fun i hi ↦ h i (Nat.lt_succ_of_lt hi)]

theorem bits_mod_two_pow {w k : ℕ} (h : w ≤ k) (n : ℕ) : bits w (n % 2 ^ k) = bits w n :=
  bits_congr fun i hi ↦ by
    rw [Nat.testBit_mod_two_pow, decide_eq_true (Nat.lt_of_lt_of_le hi h), Bool.true_and]

/-- The low `a + b` bits are the low `a` bits above position `b`, then the low `b` bits. -/
theorem bits_add (a b n : ℕ) : bits (a + b) n = bits a (n >>> b) ++ bits b n := by
  induction a with
  | zero => rw [Nat.zero_add]; rfl
  | succ a ih =>
    rw [Nat.succ_add, bits, bits, ih, Nat.testBit_shiftRight, Nat.add_comm b a, List.cons_append]

theorem eq_of_bits_eq {w n m : ℕ} (hn : n < 2 ^ w) (hm : m < 2 ^ w) (h : bits w n = bits w m) :
    n = m := by
  have htest : ∀ k, bits k n = bits k m → ∀ i < k, n.testBit i = m.testBit i := by
    intro k
    induction k with
    | zero => intro _ i hi; exact absurd hi (Nat.not_lt_zero i)
    | succ k ih =>
      intro hk i hi
      rw [bits, bits, List.cons.injEq] at hk
      rcases Nat.lt_succ_iff_lt_or_eq.mp hi with hi | rfl
      · exact ih hk.2 i hi
      · exact hk.1
  refine Nat.eq_of_testBit_eq fun i ↦ ?_
  by_cases hi : i < w
  · exact htest w h i hi
  · have hle : 2 ^ w ≤ 2 ^ i := Nat.pow_le_pow_right (by decide) (Nat.le_of_not_lt hi)
    rw [Nat.testBit_lt_two_pow (Nat.lt_of_lt_of_le hn hle),
      Nat.testBit_lt_two_pow (Nat.lt_of_lt_of_le hm hle)]

theorem length_flatMap_bits (w : ℕ) (ns : List ℕ) :
    (ns.flatMap (bits w)).length = w * ns.length := by
  induction ns with
  | nil => rfl
  | cons n ns ih =>
    rw [List.flatMap_cons, List.length_append, length_bits, ih, List.length_cons, Nat.mul_succ,
      Nat.add_comm]

theorem flatMap_bits_injective {w : ℕ} {ns ms : List ℕ} (hn : ∀ n ∈ ns, n < 2 ^ w)
    (hm : ∀ m ∈ ms, m < 2 ^ w) (hlen : ns.length = ms.length)
    (h : ns.flatMap (bits w) = ms.flatMap (bits w)) : ns = ms := by
  induction ns generalizing ms with
  | nil => exact (List.eq_nil_of_length_eq_zero hlen.symm).symm
  | cons n ns ih =>
    cases ms with
    | nil => exact absurd hlen (Nat.succ_ne_zero _)
    | cons m ms =>
      rw [List.flatMap_cons, List.flatMap_cons] at h
      obtain ⟨hhead, htail⟩ := List.append_inj h (by rw [length_bits, length_bits])
      rw [eq_of_bits_eq (hn n List.mem_cons_self) (hm m List.mem_cons_self) hhead,
        ih (fun k hk ↦ hn k (List.mem_cons_of_mem _ hk))
          (fun k hk ↦ hm k (List.mem_cons_of_mem _ hk)) (Nat.succ_injective hlen) htail]

/-! ## Cutting a bit string into words -/

/-- The number that a list of bits writes. -/
def word : List Bool → ℕ
  | [] => 0
  | b :: l => 2 ^ l.length * b.toNat + word l

theorem word_lt (l : List Bool) : word l < 2 ^ l.length := by
  induction l with
  | nil => exact Nat.one_pos
  | cons b l ih =>
    have hb : b.toNat ≤ 1 := Bool.toNat_le b
    calc word (b :: l) = 2 ^ l.length * b.toNat + word l := rfl
      _ < 2 ^ l.length * b.toNat + 2 ^ l.length := Nat.add_lt_add_left ih _
      _ ≤ 2 ^ l.length * 1 + 2 ^ l.length :=
        Nat.add_le_add_right (Nat.mul_le_mul_left _ hb) _
      _ = 2 ^ (b :: l).length := by rw [Nat.mul_one, List.length_cons, Nat.pow_succ, Nat.mul_two]

theorem bits_word (l : List Bool) : bits l.length (word l) = l := by
  induction l with
  | nil => rfl
  | cons b l ih =>
    have htest : ∀ i, (word (b :: l)).testBit i
        = if i < l.length then (word l).testBit i else b.toNat.testBit (i - l.length) :=
      Nat.testBit_two_pow_mul_add _ (word_lt l)
    have hlow : bits l.length (word (b :: l)) = bits l.length (word l) :=
      bits_congr fun i hi ↦ by rw [htest, if_pos hi]
    rw [List.length_cons, bits, htest, if_neg (Nat.lt_irrefl _), hlow, ih, Nat.sub_self]
    cases b <;> rfl

/-- The first `n` words of `w` bits in a bit string. -/
def words (w : ℕ) : ℕ → List Bool → List ℕ
  | 0, _ => []
  | n + 1, l => word (l.take w) :: words w n (l.drop w)

@[simp] theorem length_words (w n : ℕ) (l : List Bool) : (words w n l).length = n := by
  induction n generalizing l with
  | zero => rfl
  | succ n ih => rw [words, List.length_cons, ih]

theorem lt_of_mem_words {w n v : ℕ} {l : List Bool} (h : v ∈ words w n l) : v < 2 ^ w := by
  induction n generalizing l with
  | zero => exact absurd h List.not_mem_nil
  | succ n ih =>
    rcases List.mem_cons.mp h with rfl | h
    · refine Nat.lt_of_lt_of_le (word_lt _) (Nat.pow_le_pow_right Nat.two_pos ?_)
      exact List.length_take_le w l
    · exact ih h

theorem flatMap_words {w n : ℕ} {l : List Bool} (h : w * n ≤ l.length) :
    (words w n l).flatMap (bits w) = l.take (w * n) := by
  induction n generalizing l with
  | zero => rfl
  | succ n ih =>
    rw [Nat.mul_succ] at h
    have hword := bits_word (l.take w)
    rw [List.length_take_of_le (by omega)] at hword
    rw [words, List.flatMap_cons, hword, ih (by rw [List.length_drop]; omega), Nat.mul_succ,
      Nat.add_comm, List.take_add]

/-- **Cutting undoes joining.** -/
theorem words_flatMap {w : ℕ} {ns : List ℕ} (h : ∀ n ∈ ns, n < 2 ^ w) (rest : List Bool) :
    words w ns.length (ns.flatMap (bits w) ++ rest) = ns := by
  have hlen := length_flatMap_bits w ns
  refine flatMap_bits_injective (fun _ ↦ lt_of_mem_words) h (length_words _ _ _) ?_
  rw [flatMap_words (by rw [List.length_append, hlen]; exact Nat.le_add_right _ _), ← hlen,
    List.take_left]

/-! ## The accumulator -/

/-- **Shifting a word in.** The pending bits move up and the word stands below them, whether or
not the accumulator overflows its `W` bits above the pending ones. -/
theorem bits_absorb {W k w : ℕ} (hW : k + w ≤ W) (acc : ℕ) {v : ℕ} (hv : v < 2 ^ w) :
    bits (k + w) ((acc <<< w ||| v) % 2 ^ W) = bits k acc ++ bits w v := by
  rw [bits_mod_two_pow hW, bits_add]
  congr 1
  · refine bits_congr fun i _ ↦ ?_
    rw [Nat.testBit_shiftRight, Nat.testBit_or, Nat.testBit_shiftLeft,
      Nat.testBit_lt_two_pow (Nat.lt_of_lt_of_le hv (Nat.pow_le_pow_right (by decide)
        (Nat.le_add_right w i))), Bool.or_false, Nat.add_sub_cancel_left,
      decide_eq_true (Nat.le_add_right w i), Bool.true_and]
  · refine bits_congr fun i hi ↦ ?_
    rw [Nat.testBit_or, Nat.testBit_shiftLeft, decide_eq_false (Nat.not_le.mpr hi),
      Bool.false_and, Bool.false_or]

/-- **Shifting a word out.** The word written carries the topmost pending bits; the others stay
pending in the unchanged accumulator. -/
theorem bits_emit {k w : ℕ} (acc : ℕ) :
    bits (w + k) acc = bits w ((acc >>> k) % 2 ^ w) ++ bits k acc := by
  rw [bits_mod_two_pow (Nat.le_refl w), bits_add]

/-- Shifting the last pending bits up fills the word with zeros below. -/
theorem bits_pad (k p acc : ℕ) :
    bits (k + p) ((acc <<< p) % 2 ^ (k + p)) = bits k acc ++ List.replicate p false := by
  have hzero : bits p 0 = List.replicate p false := by
    induction p with
    | zero => rfl
    | succ p ih => rw [bits, ih, Nat.zero_testBit, List.replicate_succ]
  have habsorb := bits_absorb (Nat.le_refl (k + p)) acc (Nat.two_pow_pos p)
  rw [Nat.or_zero] at habsorb
  rw [habsorb, hzero]

end BitGroups
