import Holesail.Endpoint.Honesty

/-!
# How a client reports its start

`connect` has two ways to report: what it returns, and `on_listening`, which `start_proxy` calls
with what the local listen returned. Where the record is read first, `start_proxy` runs from the
query's done callback, long after `connect` has returned 0. Where the read cannot be started it runs
inside `connect`, and a listen that fails is reported both ways.

## Main results

`reportsOnce_iff`: a client's start is reported once exactly if not the read and then the listen
fail inside `connect`.
-/

namespace Holesail

namespace HolesailClient

open Run

/-- What can happen once the one call to `connect` has returned. The query calls back while it runs;
one that is cancelled ends after the client is destroyed. -/
def Pending (c : HolesailClient) : Event → Prop
  | .connect _ _ => False
  | .value _ _ => c.query = true
  | .done _ => c.query = true ∨ c.destroyed = true
  | .pause | .resume | .destroy => True

instance (c : HolesailClient) : (e : Event) → Decidable (c.Pending e)
  | .connect _ _ => inferInstanceAs (Decidable False)
  | .value _ _ => inferInstanceAs (Decidable (_ = _))
  | .done _ => inferInstanceAs (Decidable (_ ∨ _))
  | .pause | .resume | .destroy => inferInstanceAs (Decidable True)

/-- What the local listen returned when the query completed, if it did before `destroy`. -/
def completion : List Event → Option ℤ
  | [] => none
  | .done listen :: _ => some listen
  | .destroy :: _ => none
  | _ :: es => completion es

/-- The start of a client is reported once: `on_listening` is called at most once, and not at all if
`connect` returned a negative code; if it returned 0 and the query completes before `destroy`, it is
called with what the listen returned. -/
structure ReportsOnce (rc : ℤ) (es : List Event) (c : HolesailClient) : Prop where
  once : c.reported.length ≤ 1
  silent : rc < 0 → c.reported = []
  completes : rc = 0 → ∀ listen, completion es = some listen → c.reported = [listen]

/-! ## Once there is nothing left to report -/

variable {c : HolesailClient}

/-- `on_listening` is not called any more. -/
def Settled (c : HolesailClient) : Prop := c.onListening = false ∨ c.destroyed = true

/-- `c'` reports what `c` reported, and does not wait for more. -/
structure Rests (c c' : HolesailClient) : Prop where
  onListening : c'.onListening = c.onListening
  destroyed : c.destroyed = true → c'.destroyed = true
  reported : c'.reported = c.reported

theorem rests_mutableCb (c : HolesailClient) (seq : UInt64) (value : Option Bytes) :
    Rests c (c.mutableCb seq value) := by
  rw [mutableCb.eq_def]
  split
  · exact ⟨rfl, id, rfl⟩
  · split_ifs
    · exact ⟨rfl, id, rfl⟩
    · exact ⟨rfl, id, rfl⟩
    · split <;> exact ⟨rfl, id, rfl⟩

theorem rests_pause (c : HolesailClient) : Rests c c.pause := by
  rw [pause]
  split_ifs <;> exact ⟨rfl, id, rfl⟩

theorem rests_resume (c : HolesailClient) : Rests c c.resume := by
  rw [resume]
  split_ifs <;> exact ⟨rfl, id, rfl⟩

theorem rests_destroy (c : HolesailClient) : Rests c c.destroy := by
  rw [destroy]
  split_ifs
  · exact ⟨rfl, id, rfl⟩
  · simp only
    split_ifs <;> exact ⟨rfl, fun _ ↦ rfl, rfl⟩

theorem startProxy_of_disarmed (h : c.onListening = false) (listen : ℤ) :
    Rests c (c.startProxy listen).2 := by
  simp only [startProxy]
  split_ifs with hlisten harmed harmed
  · exact absurd (h.symm.trans harmed) Bool.false_ne_true
  · exact ⟨rfl, id, rfl⟩
  · exact absurd (h.symm.trans harmed) Bool.false_ne_true
  · exact ⟨rfl, id, rfl⟩

theorem startProxy_of_armed (h : c.onListening = true) (listen : ℤ) :
    (c.startProxy listen).2.onListening = false ∧
      (c.startProxy listen).2.reported = c.reported ++ [listen] := by
  simp only [startProxy]
  split_ifs <;> exact ⟨rfl, rfl⟩

theorem Settled.of_rests {c' : HolesailClient} (h : Settled c) (hrests : Rests c c') :
    Settled c' ∧ c'.reported = c.reported := by
  refine ⟨?_, hrests.reported⟩
  rcases h with h | h
  · exact .inl (hrests.onListening.trans h)
  · exact .inr (hrests.destroyed h)

theorem settled_step (h : Settled c) {e : Event} (he : c.Pending e) :
    Settled (c.step e) ∧ (c.step e).reported = c.reported := by
  cases e with
  | connect started listen => exact he.elim
  | value seq value => exact h.of_rests (rests_mutableCb c seq value)
  | done listen =>
    simp only [step, mutableDoneCb]
    split_ifs with hdestroyed
    · exact ⟨.inr hdestroyed, rfl⟩
    · have hdisarmed := h.resolve_right hdestroyed
      have hquiet := startProxy_of_disarmed (c := { c with query := false }) hdisarmed listen
      exact ⟨.inl (hquiet.onListening.trans hdisarmed), hquiet.reported⟩
  | pause => exact h.of_rests (rests_pause c)
  | resume => exact h.of_rests (rests_resume c)
  | destroy => exact h.of_rests (rests_destroy c)

theorem reported_of_settled (h : Settled c) {es : List Event} (hes : Along step Pending c es) :
    (run step c es).reported = c.reported :=
  (invariant_of_along (P := fun c' ↦ Settled c' ∧ c'.reported = c.reported)
    (fun _ _ hc he ↦ ⟨(settled_step hc.1 he).1, (settled_step hc.1 he).2.trans hc.2⟩)
    ⟨h, rfl⟩ hes).2

/-! ## While the query runs -/

/-- The query runs, and `on_listening` waits for it. -/
structure Waiting (c : HolesailClient) : Prop where
  query : c.query = true
  armed : c.onListening = true
  alive : c.destroyed = false
  reported : c.reported = []

theorem Waiting.mutableCb (h : Waiting c) (seq : UInt64) (value : Option Bytes) :
    Waiting (c.mutableCb seq value) := by
  rw [HolesailClient.mutableCb.eq_def]
  split
  · exact h
  · split_ifs
    · exact h
    · exact h
    · split
      · exact h
      · exact ⟨h.query, h.armed, h.alive, h.reported⟩

theorem Waiting.pause (h : Waiting c) : Waiting c.pause := by
  rw [HolesailClient.pause]
  split_ifs
  · exact h
  · exact ⟨h.query, h.armed, h.alive, h.reported⟩

theorem Waiting.resume (h : Waiting c) : Waiting c.resume := by
  rw [HolesailClient.resume]
  split_ifs
  · exact h
  · exact ⟨h.query, h.armed, h.alive, h.reported⟩

theorem destroyed_destroy (c : HolesailClient) : c.destroy.destroyed = true := by
  rw [destroy]
  split_ifs with hdestroyed
  · exact hdestroyed
  · simp only
    split_ifs <;> rfl

/-- **What a client that waits reports** is the completion of its query. -/
theorem Waiting.reported_run (h : Waiting c) {es : List Event} (hes : Along step Pending c es) :
    (run step c es).reported = (completion es).toList := by
  induction es generalizing c with
  | nil => exact h.reported
  | cons e es ih =>
    obtain ⟨he, hrest⟩ := hes
    rw [run_cons]
    cases e with
    | connect started listen => exact he.elim
    | value seq value => exact ih (h.mutableCb seq value) hrest
    | done listen =>
      have hdone : c.step (.done listen) = ({ c with query := false }.startProxy listen).2 :=
        if_neg (by rw [h.alive]; decide)
      obtain ⟨hdisarmed, hreported⟩ :=
        startProxy_of_armed (c := { c with query := false }) h.armed listen
      rw [hdone] at hrest ⊢
      rw [reported_of_settled (.inl hdisarmed) hrest, hreported, h.reported]
      rfl
    | pause => exact ih h.pause hrest
    | resume => exact ih h.resume hrest
    | destroy =>
      have hsettled : Settled (c.step .destroy) := .inr (destroyed_destroy c)
      rw [reported_of_settled hsettled hrest]
      exact (rests_destroy c).reported.trans h.reported

/-! ## Without a query -/

theorem completion_of_idle (hquery : c.query = false) (halive : c.destroyed = false)
    {es : List Event} (hes : Along step Pending c es) : completion es = none := by
  induction es generalizing c with
  | nil => rfl
  | cons e es ih =>
    obtain ⟨he, hrest⟩ := hes
    cases e with
    | connect started listen => exact he.elim
    | value seq value => exact absurd (hquery.symm.trans he) Bool.false_ne_true
    | done listen =>
      rcases he with he | he
      · exact absurd (hquery.symm.trans he) Bool.false_ne_true
      · exact absurd (halive.symm.trans he) Bool.false_ne_true
    | pause =>
      refine ih (c := c.pause) ?_ ?_ hrest <;> rw [pause] <;> split_ifs <;> assumption
    | resume =>
      refine ih (c := c.resume) ?_ ?_ hrest <;> rw [resume] <;> split_ifs <;> assumption
    | destroy => rfl

/-! ## The start -/

structure Unstarted (dht : Bool) (c : HolesailClient) : Prop where
  dht : c.dht = dht
  query : c.query = false
  disarmed : c.onListening = false
  alive : c.destroyed = false
  reported : c.reported = []
  initError : c.initError ≠ 0 → c.initError < 0

theorem unstarted_new (C : Crypto) (dht : Bool) (config : Config) :
    Unstarted dht (new C dht config) := by
  have hfailed : (uvEINVAL : ℤ) < 0 := by decide
  rw [new]
  split_ifs
  · exact ⟨rfl, rfl, rfl, rfl, rfl, fun h ↦ absurd rfl h⟩
  · simp only
    split
    · split_ifs
      · exact ⟨rfl, rfl, rfl, rfl, rfl, fun h ↦ absurd rfl h⟩
      · exact ⟨rfl, rfl, rfl, rfl, rfl, fun _ ↦ hfailed⟩
    · exact ⟨rfl, rfl, rfl, rfl, rfl, fun _ ↦ hfailed⟩

/-- A start that does not get to the read is reported by `connect` alone. -/
theorem reportsOnce_of_refused {dht : Bool} (h : Unstarted dht c) {rc : ℤ} (hrc : rc < 0)
    {es : List Event} (hes : Along step Pending c es) : ReportsOnce rc es (run step c es) := by
  have hreported : (run step c es).reported = [] :=
    (reported_of_settled (.inl h.disarmed) hes).trans h.reported
  refine ⟨?_, fun _ ↦ hreported, fun h ↦ absurd h (Int.ne_of_lt hrc)⟩
  rw [hreported]
  exact Nat.zero_le 1

/-- A start that waits for the query is reported when it completes. -/
theorem reportsOnce_of_waiting (h : Waiting c) {es : List Event} (hes : Along step Pending c es) :
    ReportsOnce 0 es (run step c es) := by
  have hreported := h.reported_run hes
  refine ⟨?_, fun h ↦ absurd h (Int.lt_irrefl 0), fun _ listen hlisten ↦ ?_⟩
  · rw [hreported]
    cases completion es with
    | none => exact Nat.zero_le 1
    | some listen => exact Nat.le_refl 1
  · rw [hreported, hlisten]
    rfl

theorem startProxy_keeps (c : HolesailClient) (listen : ℤ) :
    (c.startProxy listen).2.query = c.query ∧
      (c.startProxy listen).2.destroyed = c.destroyed := by
  simp only [startProxy]
  split_ifs <;> exact ⟨rfl, rfl⟩

/-- A start without a query is reported by `start_proxy`, and what it returns is returned. -/
theorem reportsOnce_startProxy_iff (hquery : c.query = false) (harmed : c.onListening = true)
    (halive : c.destroyed = false) (hreported : c.reported = []) (listen : ℤ) {es : List Event}
    (hes : Along step Pending (c.startProxy listen).2 es) :
    ReportsOnce listen es (run step (c.startProxy listen).2 es) ↔ 0 ≤ listen := by
  obtain ⟨hkeeps, hkeeps'⟩ := startProxy_keeps c listen
  obtain ⟨hdisarmed, hlistened⟩ := startProxy_of_armed harmed listen
  have hrun : (run step (c.startProxy listen).2 es).reported = [listen] := by
    rw [reported_of_settled (.inl hdisarmed) hes, hlistened, hreported]
    rfl
  constructor
  · intro h
    by_contra hneg
    have hsilent := h.silent (Int.not_le.mp hneg)
    rw [hrun] at hsilent
    exact absurd hsilent (List.cons_ne_nil listen [])
  · intro hlisten
    refine ⟨?_, fun h ↦ absurd hlisten (Int.not_le.mpr h), fun _ l hl ↦ ?_⟩
    · rw [hrun]
      exact Nat.le_refl 1
    · rw [completion_of_idle (hkeeps.trans hquery) (hkeeps'.trans halive) hes] at hl
      exact absurd hl (Option.some_ne_none l).symm

/-- **When a start is reported once.** A client is made for any configuration and connects once; the
read of the record is started or is not, the query answers what it answers, and the local listen
returns what it returns. The start is reported once, except if `connect` gets to the read, which is
not started, and then to the listen, which fails. -/
theorem reportsOnce_iff (C : Crypto) (dht : Bool) (config : Config) (started : Bool) (listen : ℤ)
    (es : List Event)
    (hes : Along step Pending ((new C dht config).connect started listen).2 es) :
    ReportsOnce ((new C dht config).connect started listen).1 es
        (run step ((new C dht config).connect started listen).2 es) ↔
      ((new C dht config).initError = 0 → dht = true → started = false → 0 ≤ listen) := by
  have hnew := unstarted_new C dht config
  generalize new C dht config = c at hnew hes ⊢
  rw [connect] at hes ⊢
  by_cases hinit : c.initError ≠ 0
  · rw [if_pos hinit] at hes ⊢
    exact iff_of_true (reportsOnce_of_refused hnew (hnew.initError hinit) hes)
      fun h ↦ absurd h hinit
  rw [if_neg hinit, if_neg (by rw [hnew.alive]; decide)] at hes ⊢
  by_cases hdht : c.dht = false
  · rw [if_pos hdht] at hes ⊢
    have hnull : uvEINVAL < 0 := by decide
    refine iff_of_true (reportsOnce_of_refused hnew hnull hes) fun _ h ↦ ?_
    exact absurd (hdht.symm.trans (hnew.dht.trans h)) Bool.false_ne_true
  rw [if_neg hdht] at hes ⊢
  have hthere : dht = true := hnew.dht.symm.trans (Bool.of_not_eq_false hdht)
  simp only at hes ⊢
  cases started with
  | false =>
    rw [if_pos rfl] at hes ⊢
    have hiff := reportsOnce_startProxy_iff (c := { c with
      onListening := true, state := .waiting, calls := c.calls ++ [.mutableGet], query := false })
      rfl rfl hnew.alive hnew.reported listen hes
    exact hiff.trans ⟨fun h _ _ _ ↦ h, fun h ↦ h (not_not.mp hinit) hthere rfl⟩
  | true =>
    rw [if_neg Bool.noConfusion] at hes ⊢
    have hwaiting : Waiting { c with
        onListening := true
        state := .waiting
        calls := c.calls ++ [.mutableGet]
        query := true } := ⟨rfl, rfl, hnew.alive, hnew.reported⟩
    exact iff_of_true (reportsOnce_of_waiting hwaiting hes)
      fun _ _ h ↦ absurd h.symm Bool.false_ne_true

/-- The query completes, and the local listen fails. -/
theorem reportsOnce_iff_at :
    ReportsOnce 0 [.value 1 none, .done (-98), .destroy]
      (run step ((new vectorCrypto true { key := ascii "k", secure := true }).connect true 0).2
        [.value 1 none, .done (-98), .destroy]) :=
  (reportsOnce_iff vectorCrypto true { key := ascii "k", secure := true } true 0
    [.value 1 none, .done (-98), .destroy] (by decide +kernel)).mpr fun _ _ h ↦
      absurd h.symm Bool.false_ne_true

/-- **A failure reported twice.** The read cannot be started and the local port is taken. -/
theorem not_reportsOnce :
    let r := (new vectorCrypto true { key := ascii "k", secure := true }).connect false (-98)
    ¬ReportsOnce r.1 [] r.2 := by
  intro r h
  exact absurd (h.silent (by decide +kernel)) (by decide +kernel)

end HolesailClient

end Holesail
