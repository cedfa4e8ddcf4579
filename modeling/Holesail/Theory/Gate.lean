import Holesail.Theory.Run
import Mathlib.Data.List.Flatten

/-!
# A gate with a bounded buffer

A writer hands over items before the channel behind it is open. Until it opens, an item that still
fits is kept in a buffer and one that does not is dropped whole; opening flushes the buffer, and
from then on every item goes straight through.

This file says what such a gate passes on. Nothing is ever reordered or cut: what is on the wire
and in the buffer is, at every moment, the concatenation of the items that were kept; and every
item is kept exactly when the items that arrived before the opening fit the buffer together.
-/

namespace Gate

open Run

universe u

variable {α : Type u}

structure State (α : Type u) where
  opened : Bool := false
  pending : List α := []
  wire : List α := []
  /-- An open gate holds nothing back. -/
  pending_eq_nil : opened = true → pending = [] := by intro h; exact absurd h (by decide)

/-- A gate that nothing has happened to yet. -/
def fresh : State α := {}

inductive Event (α : Type u) where
  | write (item : List α)
  | openUp

/-- An item passes if the gate is open or the buffer has room for it. -/
def Fits (k : ℕ) (g : State α) (item : List α) : Prop :=
  g.opened = true ∨ g.pending.length + item.length ≤ k

instance (k : ℕ) (g : State α) (item : List α) : Decidable (Fits k g item) :=
  inferInstanceAs (Decidable (_ ∨ _))

def step (k : ℕ) (g : State α) : Event α → State α
  | .write item =>
    if hopened : g.opened = true then
      { opened := true
        pending := []
        wire := g.wire ++ item
        pending_eq_nil := fun _ ↦ rfl }
    else if Fits k g item then
      { opened := false
        pending := g.pending ++ item
        wire := g.wire }
    else g
  | .openUp =>
    { opened := true
      pending := []
      wire := g.wire ++ g.pending
      pending_eq_nil := fun _ ↦ rfl }

/-- The items that are not dropped. -/
def kept (k : ℕ) (g : State α) : List (Event α) → List (List α)
  | [] => []
  | .write item :: es =>
    if Fits k g item then item :: kept k (step k g (.write item)) es
    else kept k (step k g (.write item)) es
  | .openUp :: es => kept k (step k g .openUp) es

def written : List (Event α) → List (List α)
  | [] => []
  | .write item :: es => item :: written es
  | .openUp :: es => written es

/-- How much is written before the gate opens. -/
def preOpen : List (Event α) → ℕ
  | [] => 0
  | .write item :: es => item.length + preOpen es
  | .openUp :: _ => 0

def Opens (es : List (Event α)) : Prop := .openUp ∈ es

variable {k : ℕ} {g : State α}

/-! ## One event -/

theorem step_write_of_opened (h : g.opened = true) (item : List α) :
    (step k g (.write item)).opened = true ∧
      (step k g (.write item)).wire = g.wire ++ item := by
  rw [step, dif_pos h]
  exact ⟨rfl, rfl⟩

theorem step_write_of_fits (h : g.opened = false) {item : List α} (hfits : Fits k g item) :
    (step k g (.write item)).opened = false ∧
      (step k g (.write item)).pending = g.pending ++ item ∧
      (step k g (.write item)).wire = g.wire := by
  rw [step, dif_neg (by rw [h]; decide), if_pos hfits]
  exact ⟨rfl, rfl, rfl⟩

theorem step_write_of_not_fits {item : List α} (hfits : ¬Fits k g item) :
    step k g (.write item) = g := by
  rw [step, dif_neg fun h ↦ hfits (Or.inl h), if_neg hfits]

theorem fits_of_opened (h : g.opened = true) (item : List α) : Fits k g item := Or.inl h

theorem wire_append_pending_step_write (item : List α) :
    (step k g (.write item)).wire ++ (step k g (.write item)).pending
      = g.wire ++ g.pending ++ if Fits k g item then item else [] := by
  by_cases hfits : Fits k g item
  · rw [if_pos hfits]
    cases hopened : g.opened with
    | true =>
      obtain ⟨hstill, hwire⟩ := step_write_of_opened (k := k) hopened item
      rw [hwire, State.pending_eq_nil _ hstill, g.pending_eq_nil hopened, List.append_nil,
        List.append_nil]
    | false =>
      obtain ⟨-, hpending, hwire⟩ := step_write_of_fits hopened hfits
      rw [hwire, hpending, List.append_assoc]
  · rw [if_neg hfits, step_write_of_not_fits hfits, List.append_nil]

/-! ## Runs -/

/-- **What a gate passes on.** The wire and the buffer hold the kept items, one after the other. -/
theorem wire_append_pending_run (g : State α) (es : List (Event α)) :
    (run (step k) g es).wire ++ (run (step k) g es).pending
      = g.wire ++ g.pending ++ (kept k g es).flatten := by
  induction es generalizing g with
  | nil => rw [kept, List.flatten_nil, List.append_nil]; rfl
  | cons e es ih =>
    rw [run_cons, ih]
    cases e with
    | write item =>
      rw [wire_append_pending_step_write, kept]
      split_ifs
      · rw [List.flatten_cons, List.append_assoc (g.wire ++ g.pending)]
      · rw [List.append_nil]
    | openUp => rw [kept, step, List.append_nil]

theorem opened_run (g : State α) (es : List (Event α)) :
    (run (step k) g es).opened = true ↔ g.opened = true ∨ Opens es := by
  induction es generalizing g with
  | nil => simp [Opens]
  | cons e es ih =>
    rw [run_cons, ih]
    cases e with
    | write item =>
      have hopened : (step k g (.write item)).opened = g.opened := by
        cases hg : g.opened with
        | true => exact (step_write_of_opened hg item).1
        | false =>
          by_cases hfits : Fits k g item
          · exact (step_write_of_fits hg hfits).1
          · rw [step_write_of_not_fits hfits, hg]
      simp [hopened, Opens]
    | openUp => simp [step, Opens]

theorem kept_sublist (g : State α) (es : List (Event α)) :
    (kept k g es).Sublist (written es) := by
  induction es generalizing g with
  | nil => exact List.Sublist.refl _
  | cons e es ih =>
    cases e with
    | write item =>
      rw [kept, written]
      split_ifs
      · exact (ih _).cons_cons item
      · exact (ih _).cons item
    | openUp => exact ih _

theorem kept_of_opened (h : g.opened = true) (es : List (Event α)) :
    kept k g es = written es := by
  induction es generalizing g with
  | nil => rfl
  | cons e es ih =>
    cases e with
    | write item =>
      rw [kept, written, if_pos (fits_of_opened h item), ih (step_write_of_opened h item).1]
    | openUp => exact ih rfl

/-- **When nothing is dropped**: exactly when all that comes before the opening fits the buffer at
once. -/
theorem kept_eq_written_iff (h : g.opened = false) (hroom : g.pending.length ≤ k)
    (es : List (Event α)) :
    kept k g es = written es ↔ g.pending.length + preOpen es ≤ k := by
  induction es generalizing g with
  | nil => exact iff_of_true rfl hroom
  | cons e es ih =>
    cases e with
    | write item =>
      rw [kept, written, preOpen]
      by_cases hfits : Fits k g item
      · obtain ⟨hopened, hpending, -⟩ := step_write_of_fits h hfits
        have hlength := congrArg List.length hpending
        rw [List.length_append] at hlength
        have hroom' : g.pending.length + item.length ≤ k :=
          hfits.resolve_left (by rw [h]; decide)
        rw [if_pos hfits, List.cons_inj_right, ih hopened (by rw [hlength]; exact hroom'),
          hlength, Nat.add_assoc]
      · have hover : k < g.pending.length + item.length := by
          rw [Fits, not_or] at hfits
          omega
        have hshort := (kept_sublist (k := k) g es).length_le
        rw [if_neg hfits, step_write_of_not_fits hfits]
        refine iff_of_false (fun heq ↦ ?_) (by omega)
        have hlength := congrArg List.length heq
        rw [List.length_cons] at hlength
        omega
    | openUp =>
      rw [kept, written, preOpen, kept_of_opened rfl]
      exact iff_of_true rfl hroom

/-! ## Splitting a run -/

theorem written_append (es fs : List (Event α)) :
    written (es ++ fs) = written es ++ written fs := by
  induction es with
  | nil => rfl
  | cons e es ih =>
    cases e with
    | write item => rw [List.cons_append, written, written, ih, List.cons_append]
    | openUp => rw [List.cons_append, written, written, ih]

theorem kept_append (g : State α) (es fs : List (Event α)) :
    kept k g (es ++ fs) = kept k g es ++ kept k (run (step k) g es) fs := by
  induction es generalizing g with
  | nil => rfl
  | cons e es ih =>
    cases e with
    | write item =>
      rw [List.cons_append, kept, kept, ih, run_cons]
      split_ifs
      · rw [List.cons_append]
      · rfl
    | openUp => rw [List.cons_append, kept, kept, ih, run_cons]

theorem kept_concat_write (g : State α) (es : List (Event α)) (item : List α) :
    kept k g (es ++ [.write item])
      = kept k g es ++ if Fits k (run (step k) g es) item then [item] else [] := by
  rw [kept_append]
  congr 1

theorem kept_concat_openUp (g : State α) (es : List (Event α)) :
    kept k g (es ++ [.openUp]) = kept k g es := by
  rw [kept_append, kept, kept, List.append_nil]

/-! ## What arrives -/

theorem wire_run_of_not_opens (h : g.opened = false) {es : List (Event α)} (hes : ¬Opens es) :
    (run (step k) g es).wire = g.wire := by
  induction es generalizing g with
  | nil => rfl
  | cons e es ih =>
    rw [Opens, List.mem_cons, not_or] at hes
    cases e with
    | write item =>
      rw [run_cons]
      by_cases hfits : Fits k g item
      · obtain ⟨hopened, -, hwire⟩ := step_write_of_fits h hfits
        rw [ih hopened hes.2, hwire]
      · rw [step_write_of_not_fits hfits, ih h hes.2]
    | openUp => exact absurd rfl hes.1

theorem wire_run_of_opens (g : State α) {es : List (Event α)} (hes : Opens es) :
    (run (step k) g es).wire = g.wire ++ g.pending ++ (kept k g es).flatten := by
  have hpending := State.pending_eq_nil _ ((opened_run (k := k) g es).mpr (Or.inr hes))
  rw [← wire_append_pending_run, hpending, List.append_nil]

/-- Leaving out an item that is not empty can be told from the concatenation. -/
theorem eq_of_sublist_of_flatten_eq {l m : List (List α)} (hsub : l.Sublist m)
    (hne : ∀ item ∈ m, item ≠ []) (hflatten : l.flatten = m.flatten) : l = m := by
  induction hsub with
  | slnil => rfl
  | cons item hsub ih =>
    have hpos := List.length_pos_iff.mpr (hne item List.mem_cons_self)
    have hle := hsub.flatten.length_le
    have hlength := congrArg List.length hflatten
    rw [List.flatten_cons, List.length_append] at hlength
    omega
  | cons_cons item hsub ih =>
    rw [List.flatten_cons, List.flatten_cons, List.append_right_inj] at hflatten
    rw [ih (fun i hi ↦ hne i (List.mem_cons_of_mem _ hi)) hflatten]

/-- **When a gate passes everything on**: when it has opened and what came before that fitted its
buffer, or when there was nothing to pass on. -/
theorem wire_run_eq_iff (es : List (Event α)) (hne : ∀ item ∈ written es, item ≠ []) :
    (run (step k) {} es).wire = (written es).flatten ↔
      (Opens es ∧ preOpen es ≤ k) ∨ written es = [] := by
  by_cases hopens : Opens es
  · have hkept : (run (step k) {} es).wire = (kept k {} es).flatten :=
      wire_run_of_opens {} hopens
    have hroom := kept_eq_written_iff (k := k) (g := {}) rfl (Nat.zero_le k) es
    rw [List.length_nil, Nat.zero_add] at hroom
    rw [hkept]
    constructor
    · intro hflatten
      have heq := eq_of_sublist_of_flatten_eq (kept_sublist {} es) hne hflatten
      exact Or.inl ⟨hopens, hroom.mp heq⟩
    · rintro (⟨-, hfits⟩ | hnone)
      · rw [hroom.mpr hfits]
      · have hnil := hnone ▸ kept_sublist (k := k) {} es
        rw [List.sublist_nil.mp hnil, hnone]
  · rw [wire_run_of_not_opens rfl hopens]
    constructor
    · intro hflatten
      refine Or.inr (List.eq_nil_iff_forall_not_mem.mpr fun item hitem ↦ hne item hitem ?_)
      exact List.flatten_eq_nil_iff.mp hflatten.symm item hitem
    · rintro (⟨hopened, -⟩ | hnone)
      · exact absurd hopened hopens
      · rw [hnone]
        rfl

end Gate
