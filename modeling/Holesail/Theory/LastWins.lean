import Mathlib.Data.Finmap

/-!
# Named settings, where the last mention wins

A list of mentions sets names one after the other, each time either bare or to a value, and what a
name is set to is what its last mention says.

A store keeps the values in a map and the bare names in a set. It can be read as the list is only as
long as no name is in both, which is part of what a store is here; writing a mention to the store
then overrides the mentions before it, whichever container they went to.
-/

namespace LastWins

universe u v

variable {ν : Type u} {β : Type v}

/-- What a mention says of its name. -/
inductive Setting (β : Type v) where
  | bare
  | value (v : β)
deriving DecidableEq

/-- A map of values and a set of bare names. -/
structure Store (ν : Type u) (β : Type v) where
  values : Finmap fun _ : ν ↦ β := ∅
  flags : Finset ν := ∅
  /-- No name is in both. -/
  notMem_values : ∀ name ∈ flags, name ∉ values := by
    intro _ h
    exact absurd h (Finset.notMem_empty _)

def Setting.value? : Setting β → Option β
  | .bare => none
  | .value v => some v

variable [DecidableEq ν]

/-- What the last mention of a name says. -/
def last (name : ν) : List (ν × Setting β) → Option (Setting β)
  | [] => none
  | (n, s) :: ms => (last name ms).or (if n = name then some s else none)

theorem last_eq_none_iff {name : ν} {ms : List (ν × Setting β)} :
    last name ms = none ↔ name ∉ ms.map Prod.fst := by
  induction ms with
  | nil => exact iff_of_true rfl List.not_mem_nil
  | cons m ms ih =>
    rw [last, Option.or_eq_none_iff, ih, List.map_cons, List.mem_cons, not_or, and_comm]
    refine and_congr_left fun _ ↦ ?_
    split_ifs with h
    · exact iff_of_false not_false fun hne ↦ hne h.symm
    · exact iff_of_true rfl fun heq ↦ h heq.symm

/-- A name that is mentioned once is set to what that mention says. -/
theorem last_eq_some_iff {name : ν} {setting : Setting β} {ms : List (ν × Setting β)}
    (h : (ms.map Prod.fst).Nodup) : last name ms = some setting ↔ (name, setting) ∈ ms := by
  induction ms with
  | nil => exact iff_of_false (Option.some_ne_none _).symm List.not_mem_nil
  | cons m ms ih =>
    obtain ⟨hfresh, hrest⟩ := List.nodup_cons.mp h
    rw [last, List.mem_cons, ← ih hrest]
    by_cases hname : m.1 = name
    · subst hname
      rw [last_eq_none_iff.mpr hfresh, Option.none_or, if_pos rfl, Option.some_inj]
      constructor
      · rintro rfl
        exact Or.inl rfl
      · rintro (heq | hnone)
        · exact congrArg Prod.snd heq.symm
        · exact absurd hnone.symm (Option.some_ne_none _)
    · rw [if_neg hname, Option.or_none]
      exact ⟨Or.inr, fun h ↦ h.resolve_left fun heq ↦ hname (congrArg Prod.fst heq).symm⟩

/-- **Where no name comes twice, the order of the mentions does not matter.** -/
theorem last_perm {name : ν} {ms ms' : List (ν × Setting β)} (h : ms.Perm ms')
    (hnodup : (ms'.map Prod.fst).Nodup) : last name ms = last name ms' := by
  have hnodup' : (ms.map Prod.fst).Nodup := (h.map Prod.fst).nodup_iff.mpr hnodup
  apply Option.ext
  intro setting
  rw [last_eq_some_iff hnodup', last_eq_some_iff hnodup]
  exact h.mem_iff

namespace Store

def setValue (s : Store ν β) (name : ν) (v : β) : Store ν β where
  values := s.values.insert name v
  flags := s.flags.erase name
  notMem_values := by
    intro n hn hmem
    obtain ⟨hne, hn⟩ := Finset.mem_erase.mp hn
    rcases Finmap.mem_insert.mp hmem with rfl | hmem
    · exact hne rfl
    · exact s.notMem_values n hn hmem

def setBare (s : Store ν β) (name : ν) : Store ν β where
  values := s.values.erase name
  flags := insert name s.flags
  notMem_values := by
    intro n hn hmem
    obtain ⟨hne, hmem⟩ := Finmap.mem_erase.mp hmem
    rcases Finset.mem_insert.mp hn with rfl | hn
    · exact hne rfl
    · exact s.notMem_values n hn hmem

def write (s : Store ν β) : ν × Setting β → Store ν β
  | (name, .bare) => s.setBare name
  | (name, .value v) => s.setValue name v

def read (s : Store ν β) (name : ν) : Option (Setting β) :=
  if name ∈ s.flags then some .bare else (s.values.lookup name).map .value

variable {s : Store ν β} {name : ν}

theorem read_eq_bare_iff : s.read name = some .bare ↔ name ∈ s.flags := by
  rw [read]
  split_ifs with h
  · exact iff_of_true rfl h
  · refine iff_of_false (fun hread ↦ ?_) h
    obtain ⟨v, -, hv⟩ := Option.map_eq_some_iff.mp hread
    exact absurd hv (by simp)

theorem read_eq_value_iff {v : β} :
    s.read name = some (.value v) ↔ s.values.lookup name = some v := by
  rw [read]
  split_ifs with h
  · refine iff_of_false (by simp) fun hv ↦ ?_
    exact s.notMem_values name h (Finmap.mem_of_lookup_eq_some hv)
  · simp

theorem read_eq_none_iff :
    s.read name = none ↔ name ∉ s.flags ∧ s.values.lookup name = none := by
  rw [read]
  split_ifs with h
  · exact iff_of_false (by simp) fun hnone ↦ hnone.1 h
  · simp [h]

@[simp] theorem read_empty : ({} : Store ν β).read name = none := rfl

/-- A mention overrides what its name was set to, and touches no other name. -/
theorem read_write (m : ν × Setting β) :
    (s.write m).read name = if m.1 = name then some m.2 else s.read name := by
  obtain ⟨n, setting⟩ := m
  cases setting with
  | bare =>
    simp only [write, setBare, read, Finset.mem_insert]
    by_cases h : n = name
    · subst h
      simp
    · rw [Finmap.lookup_erase_ne fun heq ↦ h heq.symm]
      simp [h, Ne.symm h]
  | value v =>
    simp only [write, setValue, read, Finset.mem_erase]
    by_cases h : n = name
    · subst h
      simp [Finmap.lookup_insert]
    · rw [Finmap.lookup_insert_of_ne _ (Ne.symm h)]
      simp [h, Ne.symm h]

/-- **The store is read as the list of what was written to it.** -/
theorem read_foldl_write (ms : List (ν × Setting β)) :
    (ms.foldl write s).read name = (last name ms).or (s.read name) := by
  induction ms generalizing s with
  | nil => rfl
  | cons m ms ih =>
    rw [List.foldl_cons, ih, read_write, last, Option.or_assoc]
    split_ifs with h
    · rw [Option.some_or]
    · rw [Option.none_or]

end Store

end LastWins
