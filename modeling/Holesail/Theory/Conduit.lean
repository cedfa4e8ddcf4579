import Holesail.Theory.Run

/-!
# Conduits

A conduit is a machine that takes items in on one side and puts items out on the other. While it
stands, what it took in is what it put out followed by what it holds. When it falls it may still put
out some of that, and from then on it puts out nothing. So what it has put out is at any time a
prefix of what it has taken in.

A machine that may lose items on the way, but does not change their order, leaks. What it has put
out is a subsequence of what it has taken in.

## Two gateways and a link

A gateway stands between a local side and a link. Two gateways at the two ends of a link that keeps
what it carries in order are three conduits in a row in either direction, and conduits in a row
convey what one conduit does.
-/

namespace Conduit

open Run

universe u v w

variable {σ : Type u} {ε : Type v} {α : Type w}

/-! ## One conduit -/

/-- `step` is a conduit, in the states of the invariant `I` and for the events that meet `G`. -/
structure Carries (step : σ → ε → σ) (G : σ → ε → Prop) (I : σ → Prop)
    (takes puts : σ → ε → List α) (held : σ → List α) (Stands : σ → Prop) : Prop where
  keeps : ∀ {s e}, I s → G s e → I (step s e)
  stands : ∀ {s e}, I s → G s e → Stands s → Stands (step s e) →
    held s ++ takes s e = puts s e ++ held (step s e)
  falls : ∀ {s e}, I s → G s e → Stands s → ¬Stands (step s e) →
    puts s e <+: held s ++ takes s e
  fallen : ∀ {s e}, I s → G s e → ¬Stands s → ¬Stands (step s e) ∧ puts s e = []

/-- What was put out of what was taken in: a prefix, and all of it but what is held as long as
`standing` is true. -/
structure Conveys (standing : Prop) (took put held : List α) : Prop where
  ordered : put <+: took
  balance : standing → took = put ++ held

theorem Conveys.trans {p q : Prop} {took middle put held held' : List α}
    (h : Conveys p took middle held) (h' : Conveys q middle put held') :
    Conveys (p ∧ q) took put (held' ++ held) where
  ordered := h'.ordered.trans h.ordered
  balance hstanding := by
    rw [h.balance hstanding.1, h'.balance hstanding.2, List.append_assoc]

section Runs

variable {step : σ → ε → σ} {G : σ → ε → Prop} {I : σ → Prop} {takes puts : σ → ε → List α}
  {held : σ → List α} {Stands : σ → Prop} {s : σ} {es : List ε}

namespace Carries

variable (h : Carries step G I takes puts held Stands)

include h

theorem trace_of_fallen (hI : I s) (hfallen : ¬Stands s) (hes : Along step G s es) :
    ¬Stands (run step s es) ∧ trace step puts s es = [] := by
  induction es generalizing s with
  | nil => exact ⟨hfallen, rfl⟩
  | cons e es ih =>
    obtain ⟨hstill, hnothing⟩ := h.fallen hI hes.1 hfallen
    obtain ⟨hlater, hrest⟩ := ih (h.keeps hI hes.1) hstill hes.2
    refine ⟨hlater, ?_⟩
    rw [trace, hnothing, hrest, List.append_nil]

theorem conveys (hI : I s) (hes : Along step G s es) :
    Conveys (Stands (run step s es)) (held s ++ trace step takes s es) (trace step puts s es)
      (held (run step s es)) := by
  induction es generalizing s with
  | nil => exact ⟨List.nil_prefix, fun _ ↦ List.append_nil _⟩
  | cons e es ih =>
    have hkept := h.keeps hI hes.1
    have hlater := ih hkept hes.2
    by_cases hstands : Stands s
    · rw [run_cons, trace, trace, ← List.append_assoc]
      by_cases hstill : Stands (step s e)
      · rw [h.stands hI hes.1 hstands hstill, List.append_assoc]
        refine ⟨(List.prefix_append_right_inj _).mpr hlater.ordered, fun hend ↦ ?_⟩
        rw [hlater.balance hend, List.append_assoc]
      · obtain ⟨hend, hnothing⟩ := h.trace_of_fallen hkept hstill hes.2
        rw [hnothing, List.append_nil]
        refine ⟨?_, fun hstands ↦ absurd hstands hend⟩
        exact (h.falls hI hes.1 hstands hstill).trans (List.prefix_append _ _)
    · obtain ⟨hend, hnothing⟩ := h.trace_of_fallen hI hstands hes
      rw [hnothing]
      exact ⟨List.nil_prefix, fun hstands ↦ absurd hstands hend⟩

end Carries

/-! ## A conduit that loses items -/

/-- `step` loses items at most. -/
structure Leaks (step : σ → ε → σ) (G : σ → ε → Prop) (I : σ → Prop)
    (takes puts : σ → ε → List α) (held : σ → List α) : Prop where
  keeps : ∀ {s e}, I s → G s e → I (step s e)
  loses : ∀ {s e}, I s → G s e →
    (puts s e ++ held (step s e)).Sublist (held s ++ takes s e)

theorem Leaks.sublist (h : Leaks step G I takes puts held) (hI : I s) (hes : Along step G s es) :
    (trace step puts s es ++ held (run step s es)).Sublist (held s ++ trace step takes s es) := by
  induction es generalizing s with
  | nil =>
    rw [trace, trace, List.append_nil]
    exact List.Sublist.refl _
  | cons e es ih =>
    have hrest := ih (h.keeps hI hes.1) hes.2
    have hfirst := (h.loses hI hes.1).append_right (trace step takes (step s e) es)
    rw [run_cons, trace, trace, List.append_assoc, ← List.append_assoc (held s)]
    refine (hrest.append_left (puts s e)).trans ?_
    rwa [← List.append_assoc]

end Runs

/-! ## Two gateways and a link -/

universe u' v'

/-- A machine between a local side and a link. -/
structure Gateway (σ : Type u) (ε : Type v) (α : Type w) where
  step : σ → ε → σ
  /-- Taken from the local side. -/
  reads : σ → ε → List α
  /-- Handed to the link. -/
  sends : σ → ε → List α
  /-- Delivered by the link. -/
  receives : σ → ε → List α
  /-- Handed to the local side. -/
  writes : σ → ε → List α

variable {τ : Type u'} {φ : Type v'}

/-- Two gateways, and what is underway between them. -/
structure Link (σ : Type u) (τ : Type u') (α : Type w) where
  near : σ
  far : τ
  /-- From the near gateway to the far one. -/
  outward : List α := []
  inward : List α := []

namespace Link

inductive Event (ε : Type v) (φ : Type v') where
  | near (e : ε)
  | far (e : φ)

variable (A : Gateway σ ε α) (B : Gateway τ φ α)

/-- One event. What a gateway sends joins the queue, what it receives leaves the other one. -/
def step (l : Link σ τ α) : Event ε φ → Link σ τ α
  | .near e =>
    { near := A.step l.near e
      far := l.far
      outward := l.outward ++ A.sends l.near e
      inward := l.inward.drop (A.receives l.near e).length }
  | .far e =>
    { near := l.near
      far := B.step l.far e
      outward := l.outward.drop (B.receives l.far e).length
      inward := l.inward ++ B.sends l.far e }

/-- The link delivers what was sent, in order and in any portions. -/
def Reliable (G : σ → ε → Prop) (H : τ → φ → Prop) (l : Link σ τ α) : Event ε φ → Prop
  | .near e => G l.near e ∧ A.receives l.near e <+: l.inward
  | .far e => H l.far e ∧ B.receives l.far e <+: l.outward

instance [DecidableEq α] {G : σ → ε → Prop} {H : τ → φ → Prop} [∀ s e, Decidable (G s e)]
    [∀ t e, Decidable (H t e)] (l : Link σ τ α) : (e : Event ε φ) → Decidable (Reliable A B G H l e)
  | .near _ => inferInstanceAs (Decidable (_ ∧ _))
  | .far _ => inferInstanceAs (Decidable (_ ∧ _))

/-- What an event of the near end is to the near end. -/
def atNear (f : σ → ε → List α) (l : Link σ τ α) : Event ε φ → List α
  | .near e => f l.near e
  | .far _ => []

/-- What an event of the far end is to the far end. -/
def atFar (f : τ → φ → List α) (l : Link σ τ α) : Event ε φ → List α
  | .near _ => []
  | .far e => f l.far e

variable {A B} {G : σ → ε → Prop} {I : σ → Prop} {takes puts : σ → ε → List α}
  {held : σ → List α} {Stands : σ → Prop} {H : τ → φ → Prop} {J : τ → Prop}
  {takes' puts' : τ → φ → List α} {held' : τ → List α} {Stands' : τ → Prop}

theorem carries_atNear (h : Carries A.step G I takes puts held Stands) :
    Carries (step A B) (Reliable A B G H) (fun l ↦ I l.near) (atNear takes) (atNear puts)
      (fun l ↦ held l.near) fun l ↦ Stands l.near where
  keeps {l e} hI he := by
    cases e with
    | near e => exact h.keeps hI he.1
    | far e => exact hI
  stands {l e} hI he hstands hstill := by
    cases e with
    | near e => exact h.stands hI he.1 hstands hstill
    | far e => exact List.append_nil _
  falls {l e} hI he hstands hfallen := by
    cases e with
    | near e => exact h.falls hI he.1 hstands hfallen
    | far e => exact absurd hstands hfallen
  fallen {l e} hI he hfallen := by
    cases e with
    | near e => exact h.fallen hI he.1 hfallen
    | far e => exact ⟨hfallen, rfl⟩

theorem carries_atFar (h : Carries B.step H J takes' puts' held' Stands') :
    Carries (step A B) (Reliable A B G H) (fun l ↦ J l.far) (atFar takes') (atFar puts')
      (fun l ↦ held' l.far) fun l ↦ Stands' l.far where
  keeps {l e} hI he := by
    cases e with
    | near e => exact hI
    | far e => exact h.keeps hI he.1
  stands {l e} hI he hstands hstill := by
    cases e with
    | near e => exact List.append_nil _
    | far e => exact h.stands hI he.1 hstands hstill
  falls {l e} hI he hstands hfallen := by
    cases e with
    | near e => exact absurd hstands hfallen
    | far e => exact h.falls hI he.1 hstands hfallen
  fallen {l e} hI he hfallen := by
    cases e with
    | near e => exact ⟨hfallen, rfl⟩
    | far e => exact h.fallen hI he.1 hfallen

theorem leaks_atFar (h : Leaks B.step H J takes' puts' held') :
    Leaks (step A B) (Reliable A B G H) (fun l ↦ J l.far) (atFar takes') (atFar puts')
      fun l ↦ held' l.far where
  keeps {l e} hI he := by
    cases e with
    | near e => exact hI
    | far e => exact h.keeps hI he.1
  loses {l e} hI he := by
    cases e with
    | near e =>
      rw [atFar, atFar, List.append_nil]
      exact List.Sublist.refl _
    | far e => exact h.loses hI he.1

theorem carries_outward : Carries (step A B) (Reliable A B G H) (fun _ ↦ True)
    (atNear A.sends) (atFar B.receives) Link.outward fun _ ↦ True where
  keeps _ _ := trivial
  stands {l e} _ he _ _ := by
    cases e with
    | near e => rfl
    | far e => exact (List.append_nil _).trans (List.prefix_iff_eq_append.mp he.2).symm
  falls _ _ _ hfallen := absurd trivial hfallen
  fallen _ _ hfallen := absurd trivial hfallen

theorem carries_inward : Carries (step A B) (Reliable A B G H) (fun _ ↦ True)
    (atFar B.sends) (atNear A.receives) Link.inward fun _ ↦ True where
  keeps _ _ := trivial
  stands {l e} _ he _ _ := by
    cases e with
    | near e => exact (List.append_nil _).trans (List.prefix_iff_eq_append.mp he.2).symm
    | far e => rfl
  falls _ _ _ hfallen := absurd trivial hfallen
  fallen _ _ hfallen := absurd trivial hfallen

/-! ### From one local side to the other -/

section Across

variable {l : Link σ τ α} {es : List (Event ε φ)} (hes : Along (step A B) (Reliable A B G H) l es)

include hes

/-- **From the near side to the far one.** -/
theorem conveys_outward (hA : Carries A.step G I A.reads A.sends held Stands)
    (hB : Carries B.step H J B.receives B.writes held' Stands') (hI : I l.near) (hJ : J l.far)
    (hheld : held l.near = []) (hheld' : held' l.far = []) (hqueue : l.outward = []) :
    Conveys (Stands (run (step A B) l es).near ∧ Stands' (run (step A B) l es).far)
      (trace (step A B) (atNear A.reads) l es) (trace (step A B) (atFar B.writes) l es)
      (held' (run (step A B) l es).far ++ (run (step A B) l es).outward ++
        held (run (step A B) l es).near) := by
  have hsent := (carries_atNear (B := B) (H := H) hA).conveys hI hes
  have hcarried := (carries_outward (A := A) (B := B) (G := G) (H := H)).conveys trivial hes
  have hreceived := (carries_atFar (A := A) (G := G) hB).conveys hJ hes
  rw [hheld, List.nil_append] at hsent
  rw [hqueue, List.nil_append] at hcarried
  rw [hheld', List.nil_append] at hreceived
  rw [List.append_assoc]
  have hacross := hsent.trans (hcarried.trans hreceived)
  rw [List.append_assoc] at hacross
  exact ⟨hacross.ordered, fun h ↦ hacross.balance ⟨h.1, trivial, h.2⟩⟩

/-- **From the far side to the near one.** -/
theorem conveys_inward (hB : Carries B.step H J B.reads B.sends held' Stands')
    (hA : Carries A.step G I A.receives A.writes held Stands) (hJ : J l.far) (hI : I l.near)
    (hheld' : held' l.far = []) (hheld : held l.near = []) (hqueue : l.inward = []) :
    Conveys (Stands' (run (step A B) l es).far ∧ Stands (run (step A B) l es).near)
      (trace (step A B) (atFar B.reads) l es) (trace (step A B) (atNear A.writes) l es)
      (held (run (step A B) l es).near ++ (run (step A B) l es).inward ++
        held' (run (step A B) l es).far) := by
  have hsent := (carries_atFar (A := A) (G := G) hB).conveys hJ hes
  have hcarried := (carries_inward (A := A) (B := B) (G := G) (H := H)).conveys trivial hes
  have hreceived := (carries_atNear (B := B) (H := H) hA).conveys hI hes
  rw [hheld', List.nil_append] at hsent
  rw [hqueue, List.nil_append] at hcarried
  rw [hheld, List.nil_append] at hreceived
  have hacross := hsent.trans (hcarried.trans hreceived)
  exact ⟨hacross.ordered, fun h ↦ hacross.balance ⟨h.1, trivial, h.2⟩⟩

/-- **From a far gateway that leaks.** -/
theorem sublist_inward (hB : Leaks B.step H J B.reads B.sends held')
    (hA : Carries A.step G I A.receives A.writes held Stands) (hJ : J l.far) (hI : I l.near)
    (hheld' : held' l.far = []) (hheld : held l.near = []) (hqueue : l.inward = []) :
    (trace (step A B) (atNear A.writes) l es).Sublist
      (trace (step A B) (atFar B.reads) l es) := by
  have hsent := (leaks_atFar (A := A) (G := G) hB).sublist hJ hes
  have hcarried := (carries_inward (A := A) (B := B) (G := G) (H := H)).conveys trivial hes
  have hreceived := (carries_atNear (B := B) (H := H) hA).conveys hI hes
  rw [hheld', List.nil_append] at hsent
  rw [hqueue, List.nil_append] at hcarried
  rw [hheld, List.nil_append] at hreceived
  have hordered := hreceived.ordered.trans hcarried.ordered
  exact hordered.sublist.trans ((List.sublist_append_left _ _).trans hsent)

end Across

end Link

end Conduit
