import Holesail.Theory.Conduit

/-!
# Deliveries

A gateway holds what it has received until its local side has taken it, and it may refuse to receive
more meanwhile. If it never refuses while it holds nothing, two such gateways and the link between
them cannot stop halfway: in whatever order they deliver, they come to an end, and then everything
that was underway has arrived.

## Main results

* `Link.length_le_rank`: how many deliveries there can be.
* `Link.nothing_underway`: that they end with nothing underway.
-/

namespace Conduit

open Run

universe u u' v v' w

variable {σ : Type u} {τ : Type u'} {ε : Type v} {φ : Type v'} {α : Type w}

/-- The deliveries `D` of a gateway that is up. It holds `held`. -/
structure Delivers (A : Gateway σ ε α) (D : σ → ε → Prop) (Up : σ → Prop) (held : σ → List α) :
    Prop where
  keeps : ∀ {s e}, Up s → D s e → Up (A.step s e)
  moves : ∀ {s e}, Up s → D s e →
    held s ++ A.receives s e = A.writes s e ++ held (A.step s e)
  sends : ∀ {s e}, Up s → D s e → A.sends s e = []
  works : ∀ {s e}, Up s → D s e → A.receives s e ≠ [] ∨ A.writes s e ≠ []
  /-- While something is held, the local side can take some of it. -/
  writes : ∀ {s}, Up s → held s ≠ [] → ∃ e, D s e ∧ A.receives s e = []
  /-- While nothing is held, anything can be received. -/
  receives : ∀ {s}, Up s → held s = [] → ∀ x, ∃ e, D s e ∧ A.receives s e = [x]

/-- What is received and what is written lowers the rank, if what is on the link counts double. -/
theorem Delivers.length_held {A : Gateway σ ε α} {D : σ → ε → Prop} {Up : σ → Prop}
    {held : σ → List α} (h : Delivers A D Up held) {s : σ} {e : ε} (hup : Up s) (he : D s e) :
    (held (A.step s e)).length + (A.writes s e).length
      = (held s).length + (A.receives s e).length := by
  have hmoves := congrArg List.length (h.moves hup he)
  rw [List.length_append, List.length_append] at hmoves
  omega

theorem Delivers.length_pos {A : Gateway σ ε α} {D : σ → ε → Prop} {Up : σ → Prop}
    {held : σ → List α} (h : Delivers A D Up held) {s : σ} {e : ε} (hup : Up s) (he : D s e) :
    0 < (A.receives s e).length + (A.writes s e).length := by
  rcases h.works hup he with hreceives | hwrites
  · exact Nat.add_pos_left (List.length_pos_iff.mpr hreceives) _
  · exact Nat.add_pos_right _ (List.length_pos_iff.mpr hwrites)

namespace Link

variable {A : Gateway σ ε α} {B : Gateway τ φ α} {D : σ → ε → Prop} {E : τ → φ → Prop}
  {Up : σ → Prop} {Up' : τ → Prop} {held : σ → List α} {held' : τ → List α} {l : Link σ τ α}
  {es : List (Event ε φ)}

/-- How much is still to be delivered. -/
def rank (held : σ → List α) (held' : τ → List α) (l : Link σ τ α) : ℕ :=
  2 * l.inward.length + (held l.near).length + (2 * l.outward.length + (held' l.far).length)

variable (hA : Delivers A D Up held) (hB : Delivers B E Up' held')

include hA hB

/-- **A delivery** lowers the rank, and leaves both ends up. -/
theorem delivery {e : Event ε φ} (hup : Up l.near ∧ Up' l.far) (he : Reliable A B D E l e) :
    (Up (step A B l e).near ∧ Up' (step A B l e).far) ∧
      rank held held' (step A B l e) < rank held held' l := by
  cases e with
  | near e =>
    obtain ⟨he, hprefix⟩ := he
    have hheld := hA.length_held hup.1 he
    have hpos := hA.length_pos hup.1 he
    have hlink := hprefix.length_le
    refine ⟨⟨hA.keeps hup.1 he, hup.2⟩, ?_⟩
    simp only [rank, step, hA.sends hup.1 he, List.append_nil, List.length_drop]
    omega
  | far e =>
    obtain ⟨he, hprefix⟩ := he
    have hheld := hB.length_held hup.2 he
    have hpos := hB.length_pos hup.2 he
    have hlink := hprefix.length_le
    refine ⟨⟨hup.1, hB.keeps hup.2 he⟩, ?_⟩
    simp only [rank, step, hB.sends hup.2 he, List.append_nil, List.length_drop]
    omega

/-- **Deliveries come to an end.** -/
theorem length_le_rank (hup : Up l.near ∧ Up' l.far)
    (hes : Along (step A B) (Reliable A B D E) l es) : es.length ≤ rank held held' l :=
  Nat.le_trans (Nat.le_add_right _ _) (length_add_le_of_along
    (P := fun l ↦ Up l.near ∧ Up' l.far) (fun _ _ hup he ↦ delivery hA hB hup he) hup hes)

theorem up_run (hup : Up l.near ∧ Up' l.far)
    (hes : Along (step A B) (Reliable A B D E) l es) :
    Up (run (step A B) l es).near ∧ Up' (run (step A B) l es).far :=
  invariant_of_along (P := fun l ↦ Up l.near ∧ Up' l.far)
    (fun _ _ hup he ↦ (delivery hA hB hup he).1) hup hes

/-- **Where no delivery is possible, nothing is underway.** -/
theorem nothing_underway (hup : Up l.near ∧ Up' l.far)
    (hend : ∀ e, ¬Reliable A B D E l e) :
    held l.near = [] ∧ l.inward = [] ∧ held' l.far = [] ∧ l.outward = [] := by
  have hnear : held l.near = [] := by
    by_contra hsome
    obtain ⟨e, he, hnothing⟩ := hA.writes hup.1 hsome
    exact hend (.near e) ⟨he, hnothing ▸ List.nil_prefix⟩
  have hfar : held' l.far = [] := by
    by_contra hsome
    obtain ⟨e, he, hnothing⟩ := hB.writes hup.2 hsome
    exact hend (.far e) ⟨he, hnothing ▸ List.nil_prefix⟩
  refine ⟨hnear, ?_, hfar, ?_⟩
  · by_contra hsome
    obtain ⟨x, rest, hlink⟩ := List.exists_cons_of_ne_nil hsome
    obtain ⟨e, he, hone⟩ := hA.receives hup.1 hnear x
    exact hend (.near e) ⟨he, hone ▸ hlink ▸ ⟨rest, rfl⟩⟩
  · by_contra hsome
    obtain ⟨x, rest, hlink⟩ := List.exists_cons_of_ne_nil hsome
    obtain ⟨e, he, hone⟩ := hB.receives hup.2 hfar x
    exact hend (.far e) ⟨he, hone ▸ hlink ▸ ⟨rest, rfl⟩⟩

end Link

end Conduit
