import Mathlib.Data.List.Induction

/-!
# Runs of a machine driven by events

A machine is a step function `step : σ → ε → σ`; its run over a list of events is a left fold.
What the events of a run are allowed to be, or are supposed to be, is a relation `G : σ → ε → Prop`
between an event and the state it meets; `Along step G s es` says that every event of the run meets
it. An invariant then only has to be preserved by the events that do.
-/

namespace Run

universe u v

variable {σ : Type u} {ε : Type v} (step : σ → ε → σ)

def run (s : σ) (es : List ε) : σ := es.foldl step s

@[simp] theorem run_nil (s : σ) : run step s [] = s := rfl

@[simp] theorem run_cons (s : σ) (e : ε) (es : List ε) :
    run step s (e :: es) = run step (step s e) es := rfl

theorem run_append (s : σ) (es fs : List ε) :
    run step s (es ++ fs) = run step (run step s es) fs := List.foldl_append

theorem run_concat (s : σ) (es : List ε) (e : ε) :
    run step s (es ++ [e]) = step (run step s es) e := run_append step s es [e]

/-- Every event of the run meets `G` in the state it finds. -/
def Along (G : σ → ε → Prop) : σ → List ε → Prop
  | _, [] => True
  | s, e :: es => G s e ∧ Along G (step s e) es

instance (G : σ → ε → Prop) [∀ s e, Decidable (G s e)] :
    (s : σ) → (es : List ε) → Decidable (Along step G s es)
  | _, [] => inferInstanceAs (Decidable True)
  | s, e :: es =>
    have := instDecidableAlong G (step s e) es
    inferInstanceAs (Decidable (G s e ∧ Along step G (step s e) es))

variable {step} {G H : σ → ε → Prop} {P : σ → Prop} {s : σ} {es fs : List ε}

@[simp] theorem along_nil : Along step G s [] := trivial

@[simp] theorem along_cons {e : ε} :
    Along step G s (e :: es) ↔ G s e ∧ Along step G (step s e) es := Iff.rfl

theorem along_append :
    Along step G s (es ++ fs) ↔ Along step G s es ∧ Along step G (run step s es) fs := by
  induction es generalizing s with
  | nil => exact ⟨fun h ↦ ⟨trivial, h⟩, fun h ↦ h.2⟩
  | cons e es ih => rw [List.cons_append, along_cons, along_cons, ih, run_cons, and_assoc]

/-- `Along` looks at each event in the state the events before it lead to. -/
theorem along_iff_forall_split :
    Along step G s es ↔ ∀ pre e post, es = pre ++ e :: post → G (run step s pre) e := by
  constructor
  · rintro h pre e post rfl
    exact (along_append.mp h).2.1
  · intro h
    induction es generalizing s with
    | nil => trivial
    | cons e es ih =>
      refine ⟨h [] e es rfl, ih fun pre e' post hes ↦ ?_⟩
      exact h (e :: pre) e' post (by rw [hes, List.cons_append])

theorem Along.imp (h : Along step G s es) (himp : ∀ s e, G s e → H s e) :
    Along step H s es := by
  rw [along_iff_forall_split] at h ⊢
  exact fun pre e post hes ↦ himp _ _ (h pre e post hes)

theorem Along.and (hG : Along step G s es) (hH : Along step H s es) :
    Along step (fun s e ↦ G s e ∧ H s e) s es := by
  rw [along_iff_forall_split] at hG hH ⊢
  exact fun pre e post hes ↦ ⟨hG pre e post hes, hH pre e post hes⟩

theorem along_iff_forall_mem {Q : ε → Prop} : Along step (fun _ ↦ Q) s es ↔ ∀ e ∈ es, Q e := by
  induction es generalizing s with
  | nil => exact iff_of_true trivial fun _ he ↦ absurd he List.not_mem_nil
  | cons e es ih => rw [along_cons, ih, List.forall_mem_cons]

/-- **The invariant rule.** What every event that meets `G` preserves holds after every run whose
events all meet `G`. -/
theorem invariant_of_along (hstep : ∀ s e, P s → G s e → P (step s e)) (h₀ : P s)
    (h : Along step G s es) : P (run step s es) := by
  induction es generalizing s with
  | nil => exact h₀
  | cons e es ih => exact ih (hstep s e h₀ h.1) h.2

/-- The invariant rule for an invariant that speaks of the events so far. -/
theorem history_of_along {P : List ε → σ → Prop} (h₀ : P [] s)
    (hstep : ∀ es e, P es (run step s es) → G (run step s es) e →
      P (es ++ [e]) (step (run step s es) e))
    (h : Along step G s es) : P es (run step s es) := by
  induction es using List.reverseRecOn with
  | nil => exact h₀
  | append_singleton es e ih =>
    rw [along_append] at h
    rw [run_concat]
    exact hstep es e (ih h.1) h.2.1

/-- The invariant rule for events of any kind. -/
theorem invariant (hstep : ∀ s e, P s → P (step s e)) (h₀ : P s) (es : List ε) :
    P (run step s es) := by
  induction es generalizing s with
  | nil => exact h₀
  | cons e es ih => exact ih (hstep s e h₀)

/-- **The ranking rule.** A run whose every event lowers a rank is no longer than the rank
allows. -/
theorem length_add_le_of_along {rank : σ → ℕ}
    (hstep : ∀ s e, P s → G s e → P (step s e) ∧ rank (step s e) < rank s) (h₀ : P s)
    (h : Along step G s es) : es.length + rank (run step s es) ≤ rank s := by
  induction es generalizing s with
  | nil => exact Nat.le_of_eq (Nat.zero_add _)
  | cons e es ih =>
    obtain ⟨hP, hless⟩ := hstep s e h₀ h.1
    have hrest := ih hP h.2
    rw [run_cons, List.length_cons]
    omega

/-- The ranking rule for events that each lower the rank by one. -/
theorem rank_eq_of_along {rank : σ → ℕ}
    (hstep : ∀ s e, P s → G s e → P (step s e) ∧ rank s = rank (step s e) + 1) (h₀ : P s)
    (h : Along step G s es) : rank s = rank (run step s es) + es.length := by
  induction es generalizing s with
  | nil => rfl
  | cons e es ih =>
    obtain ⟨hP, hless⟩ := hstep s e h₀ h.1
    have hrest := ih hP h.2
    rw [run_cons, List.length_cons]
    omega

/-- An event met along a run is met by a state that has the invariant. -/
theorem along_of_invariant (hstep : ∀ s e, P s → G s e → P (step s e)) (h₀ : P s)
    (h : Along step G s es) : Along step (fun s e ↦ P s ∧ G s e) s es := by
  induction es generalizing s with
  | nil => trivial
  | cons e es ih => exact ⟨⟨h₀, h.1⟩, ih (hstep s e h₀ h.1) h.2⟩

/-- Two demands on the events of a run are the same, if they are in the states of an invariant that
one of them keeps. -/
theorem along_congr_of_invariant {E : σ → ε → Prop} (hGH : ∀ s e, P s → E s e → (G s e ↔ H s e))
    (hstep : ∀ s e, P s → E s e → H s e → P (step s e)) (h₀ : P s) (hE : Along step E s es) :
    Along step G s es ↔ Along step H s es := by
  induction es generalizing s with
  | nil => exact Iff.rfl
  | cons e es ih =>
    rw [along_cons, along_cons, hGH s e h₀ hE.1]
    exact and_congr_right fun hH ↦ ih (hstep s e h₀ hE.1 hH) hE.2

/-- **The exact rule**, over an invariant. If in the states of an invariant `I` an event that meets
`H` keeps `P` exactly when it meets `G`, then `P` holds in every state of a run whose events meet
`H` exactly when they all meet `G`. -/
theorem forall_prefix_iff_along_of_invariant {I : σ → Prop}
    (hinv : ∀ s e, I s → H s e → I (step s e))
    (hstep : ∀ s e, I s → H s e → P s → (P (step s e) ↔ G s e)) (hI : I s) (h₀ : P s)
    (hH : Along step H s es) :
    (∀ pre, pre <+: es → P (run step s pre)) ↔ Along step G s es := by
  induction es generalizing s with
  | nil =>
    refine ⟨fun _ ↦ trivial, fun _ pre hpre ↦ ?_⟩
    rw [List.prefix_nil.mp hpre]
    exact h₀
  | cons e es ih =>
    have hkeeps := hstep s e hI hH.1 h₀
    have hIe := hinv s e hI hH.1
    constructor
    · intro h
      have hnext : P (step s e) := h [e] ⟨es, rfl⟩
      refine ⟨hkeeps.mp hnext, (ih hIe hnext hH.2).mp fun pre hpre ↦ ?_⟩
      exact h (e :: pre) (List.cons_prefix_cons.mpr ⟨rfl, hpre⟩)
    · rintro ⟨he, halong⟩ pre hpre
      cases pre with
      | nil => exact h₀
      | cons e' pre =>
        obtain ⟨rfl, hrest⟩ := List.cons_prefix_cons.mp hpre
        exact (ih hIe (hkeeps.mpr he) hH.2).mpr halong pre hrest

/-- **The exact rule.** If an event keeps `P` exactly when it meets `G`, then `P` holds in every
state of a run exactly when all its events meet `G`. -/
theorem forall_prefix_iff_along (hstep : ∀ s e, P s → (P (step s e) ↔ G s e)) (h₀ : P s)
    (es : List ε) : (∀ pre, pre <+: es → P (run step s pre)) ↔ Along step G s es :=
  forall_prefix_iff_along_of_invariant (I := fun _ ↦ True) (H := fun _ _ ↦ True)
    (fun _ _ _ _ ↦ trivial) (fun s e _ _ ↦ hstep s e) trivial h₀
    (along_iff_forall_split.mpr fun _ _ _ _ ↦ trivial)

/-! ## What a run puts out -/

section Trace

variable {β : Type*} (f : σ → ε → List β)

/-- What the events of a run put out, each in the state it finds. -/
def trace (step : σ → ε → σ) (f : σ → ε → List β) : σ → List ε → List β
  | _, [] => []
  | s, e :: es => f s e ++ trace step f (step s e) es

theorem trace_append (s : σ) (es fs : List ε) :
    trace step f s (es ++ fs) = trace step f s es ++ trace step f (run step s es) fs := by
  induction es generalizing s with
  | nil => rfl
  | cons e es ih => rw [List.cons_append, trace, trace, ih, run_cons, List.append_assoc]

theorem trace_concat (s : σ) (es : List ε) (e : ε) :
    trace step f s (es ++ [e]) = trace step f s es ++ f (run step s es) e := by
  rw [trace_append, trace, trace, List.append_nil]

theorem trace_eq_nil (h : Along step (fun s e ↦ f s e = []) s es) : trace step f s es = [] := by
  induction es generalizing s with
  | nil => rfl
  | cons e es ih => rw [trace, h.1, ih h.2, List.append_nil]

end Trace

/-! ## Watching a run

A machine may be run with something more in its state, such as a record of what it did. -/

section Watch

universe w

variable {τ : Type w} {step' : τ → ε → τ} {f : τ → σ}

theorem run_comm (h : ∀ t e, f (step' t e) = step (f t) e) (t : τ) (es : List ε) :
    f (run step' t es) = run step (f t) es := by
  induction es generalizing t with
  | nil => rfl
  | cons e es ih => rw [run_cons, run_cons, ih, h]

theorem along_comm (h : ∀ t e, f (step' t e) = step (f t) e) (t : τ) (es : List ε) :
    Along step' (fun t e ↦ G (f t) e) t es ↔ Along step G (f t) es := by
  induction es generalizing t with
  | nil => exact Iff.rfl
  | cons e es ih => rw [along_cons, along_cons, ih, h]

end Watch

end Run
