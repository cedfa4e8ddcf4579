import Mathlib.Data.List.Induction
import Mathlib.Order.Lattice

/-!
# The champion of a list

Elements arrive one at a time, and each takes the place of the one kept so far if it beats it. With
`beats x b` as `key b < key x` the first of the largest is kept, and with `key b ≤ key x` the last.

All that is asked of `beats` is that nobody loses to one who could not beat the champion: what then
is kept beats whatever came before it, and is not beaten by anything that came after.
-/

namespace Champion

universe u v

variable {α : Type u} (beats : α → α → Prop) [∀ x b, Decidable (beats x b)]

/-- The next element arrives. -/
def challenge : Option α → α → Option α
  | none, x => some x
  | some b, x => if beats x b then some x else some b

def champion (l : List α) : Option α := l.foldl (challenge beats) none

theorem champion_concat (l : List α) (x : α) :
    champion beats (l ++ [x]) = challenge beats (champion beats l) x := by
  rw [champion, List.foldl_append]
  rfl

/-- `b` beats what came before it, and nothing that came after beats it. -/
def IsChampion (l : List α) (b : α) : Prop :=
  ∃ pre post, l = pre ++ b :: post ∧ (∀ x ∈ pre, beats b x) ∧ ∀ x ∈ post, ¬beats x b

/-- A relation by which champions can be told: it is transitive, and who beats the champion beats
those whom the champion held off. -/
structure Ranking : Prop where
  trans : ∀ {a b c}, beats a b → beats b c → beats a c
  neg_trans : ∀ {a b c}, beats a b → ¬beats c b → beats a c

variable {beats}

theorem champion_eq_none_iff {l : List α} : champion beats l = none ↔ l = [] := by
  constructor
  · intro h
    induction l using List.reverseRecOn with
    | nil => rfl
    | append_singleton l x ih =>
      rw [champion_concat] at h
      cases hb : champion beats l with
      | none =>
        rw [hb] at h
        exact absurd h.symm (Option.some_ne_none x).symm
      | some b =>
        rw [hb, challenge] at h
        split_ifs at h
  · rintro rfl
    rfl

/-- The champion is the last element, which found nobody there or beat who was there, or it is the
one from before. -/
theorem champion_concat_cases {l : List α} {x b : α} (h : champion beats (l ++ [x]) = some b) :
    l = [] ∧ b = x ∨ ∃ c, champion beats l = some c ∧ (beats x c ∧ b = x ∨ ¬beats x c ∧ b = c) := by
  rw [champion_concat] at h
  cases hold : champion beats l with
  | none =>
    rw [hold] at h
    exact .inl ⟨champion_eq_none_iff.mp hold, (Option.some.inj h).symm⟩
  | some c =>
    rw [hold, challenge] at h
    refine .inr ⟨c, rfl, ?_⟩
    split_ifs at h with hbeats
    · exact .inl ⟨hbeats, (Option.some.inj h).symm⟩
    · exact .inr ⟨hbeats, (Option.some.inj h).symm⟩

theorem isChampion_of_champion (hrank : Ranking beats) {l : List α} {b : α}
    (h : champion beats l = some b) : IsChampion beats l b := by
  induction l using List.reverseRecOn generalizing b with
  | nil => exact absurd h (Option.some_ne_none b).symm
  | append_singleton l x ih =>
    rcases champion_concat_cases h with ⟨rfl, rfl⟩ | ⟨c, hold, hwho⟩
    · exact ⟨[], [], rfl, fun _ hx ↦ absurd hx List.not_mem_nil,
        fun _ hx ↦ absurd hx List.not_mem_nil⟩
    obtain ⟨pre, post, rfl, hpre, hpost⟩ := ih hold
    -- The new element wins, and then it beats all before it, or the champion stays.
    rcases hwho with ⟨hbeats, rfl⟩ | ⟨hbeats, rfl⟩
    · refine ⟨pre ++ c :: post, [], rfl, fun y hy ↦ ?_, fun _ hx ↦ absurd hx List.not_mem_nil⟩
      rcases List.mem_append.mp hy with hy | hy
      · exact hrank.trans hbeats (hpre y hy)
      · rcases List.mem_cons.mp hy with rfl | hy
        · exact hbeats
        · exact hrank.neg_trans hbeats (hpost y hy)
    · refine ⟨pre, post ++ [x], ?_, hpre, fun y hy ↦ ?_⟩
      · rw [List.append_assoc, List.cons_append]
      · rcases List.mem_append.mp hy with hy | hy
        · exact hpost y hy
        · obtain rfl := List.mem_singleton.mp hy
          exact hbeats

theorem mem_of_champion {l : List α} {b : α} (h : champion beats l = some b) : b ∈ l := by
  induction l using List.reverseRecOn generalizing b with
  | nil => exact absurd h (Option.some_ne_none b).symm
  | append_singleton l x ih =>
    rcases champion_concat_cases h with ⟨-, rfl⟩ | ⟨c, hold, ⟨-, rfl⟩ | ⟨-, rfl⟩⟩
    · exact List.mem_append_right l (List.mem_singleton_self _)
    · exact List.mem_append_right l (List.mem_singleton_self _)
    · exact List.mem_append_left _ (ih hold)

/-- There is only one champion. -/
theorem champion_of_isChampion {l : List α} {b : α} (h : IsChampion beats l b) :
    champion beats l = some b := by
  obtain ⟨pre, post, rfl, hpre, hpost⟩ := h
  have hreach : champion beats (pre ++ [b]) = some b := by
    rw [champion_concat]
    cases hold : champion beats pre with
    | none => rfl
    | some c =>
      exact if_pos (hpre c (mem_of_champion hold))
  have hkept : ∀ post : List α, (∀ x ∈ post, ¬beats x b) →
      post.foldl (challenge beats) (some b) = some b := by
    intro post
    induction post with
    | nil => exact fun _ ↦ rfl
    | cons x post ih =>
      intro hpost
      have hx : challenge beats (some b) x = some b := if_neg (hpost x List.mem_cons_self)
      rw [List.foldl_cons, hx]
      exact ih fun y hy ↦ hpost y (List.mem_cons_of_mem x hy)
  have hsplit : pre ++ b :: post = (pre ++ [b]) ++ post := by
    rw [List.append_assoc, List.singleton_append]
  rw [hsplit, champion, List.foldl_append]
  change post.foldl (challenge beats) (champion beats (pre ++ [b])) = some b
  rw [hreach]
  exact hkept post hpost

theorem champion_eq_some_iff (hrank : Ranking beats) {l : List α} {b : α} :
    champion beats l = some b ↔ IsChampion beats l b :=
  ⟨isChampion_of_champion hrank, champion_of_isChampion⟩

variable (beats) in
/-- Those that became champion, one after the other. -/
def champions (l : List α) : List α :=
  l.foldl (fun cs x ↦ if ∀ b ∈ cs.getLast?, beats x b then cs ++ [x] else cs) []

theorem champions_concat (l : List α) (x : α) : champions beats (l ++ [x])
    = if ∀ b ∈ (champions beats l).getLast?, beats x b then champions beats l ++ [x]
      else champions beats l := by
  rw [champions, List.foldl_append]
  rfl

theorem getLast?_champions (l : List α) : (champions beats l).getLast? = champion beats l := by
  induction l using List.reverseRecOn with
  | nil => rfl
  | append_singleton l x ih =>
    rw [champions_concat, champion_concat, ih]
    cases hold : champion beats l with
    | none => rw [if_pos fun b hb ↦ absurd hb (Option.not_mem_none b), List.getLast?_concat]; rfl
    | some c =>
      have hiff : (∀ b ∈ some c, beats x b) ↔ beats x c := by simp
      rw [challenge]
      by_cases hbeats : beats x c
      · rw [if_pos (hiff.mpr hbeats), if_pos hbeats, List.getLast?_concat]
      · rw [if_neg (mt hiff.mp hbeats), if_neg hbeats, ih, hold]

theorem champions_of_beats {l : List α} {x : α} (h : ∀ b ∈ champion beats l, beats x b) :
    champions beats (l ++ [x]) = champions beats l ++ [x] := by
  rw [champions_concat, getLast?_champions, if_pos h]

theorem champions_of_not_beats {l : List α} {x : α} (h : ¬∀ b ∈ champion beats l, beats x b) :
    champions beats (l ++ [x]) = champions beats l := by
  rw [champions_concat, getLast?_champions, if_neg h]

omit [∀ x b, Decidable (beats x b)] in
theorem IsChampion.mem {l : List α} {b : α} (h : IsChampion beats l b) : b ∈ l := by
  obtain ⟨pre, post, rfl, -, -⟩ := h
  exact List.mem_append_right pre List.mem_cons_self

section Key

variable {κ : Type v} [LinearOrder κ] (key : α → κ)

theorem ranking_lt : Ranking fun x b ↦ key b < key x :=
  ⟨fun hab hbc ↦ hbc.trans hab, fun hab hcb ↦ (not_lt.mp hcb).trans_lt hab⟩

theorem ranking_le : Ranking fun x b ↦ key b ≤ key x :=
  ⟨fun hab hbc ↦ hbc.trans hab, fun hab hcb ↦ (not_le.mp hcb).le.trans hab⟩

variable {l : List α} {b : α}

theorem IsChampion.le_of_ranking_le (h : IsChampion (fun x b ↦ key b ≤ key x) l b) {x : α}
    (hx : x ∈ l) : key x ≤ key b := by
  obtain ⟨pre, post, rfl, hpre, hpost⟩ := h
  rcases List.mem_append.mp hx with hx | hx
  · exact hpre x hx
  · rcases List.mem_cons.mp hx with rfl | hx
    · exact le_rfl
    · exact (not_le.mp (hpost x hx)).le

theorem IsChampion.le_of_ranking_lt (h : IsChampion (fun x b ↦ key b < key x) l b) {x : α}
    (hx : x ∈ l) : key x ≤ key b := by
  obtain ⟨pre, post, rfl, hpre, hpost⟩ := h
  rcases List.mem_append.mp hx with hx | hx
  · exact (hpre x hx).le
  · rcases List.mem_cons.mp hx with rfl | hx
    · exact le_rfl
    · exact not_lt.mp (hpost x hx)

theorem beats_champion_iff {x : α} : (∀ c ∈ champion (fun x b ↦ key b < key x) l, key c < key x) ↔
    ∀ y ∈ l, key y < key x := by
  constructor
  · intro h y hy
    cases hc : champion (fun x b ↦ key b < key x) l with
    | none =>
      rw [champion_eq_none_iff.mp hc] at hy
      exact absurd hy List.not_mem_nil
    | some c =>
      have hle := (isChampion_of_champion (ranking_lt key) hc).le_of_ranking_lt key hy
      exact hle.trans_lt (h c hc)
  · exact fun h c hc ↦ h c (mem_of_champion hc)

end Key

end Champion
