import Mathlib.Algebra.BigOperators.Group.Finset.Basic
import Mathlib.Logic.Function.Basic
import Holesail.Theory.Run

/-!
# Getting rid of a DHT

`hyperdht_destroy` only schedules the teardown of a DHT, so whoever is done with one hands it to
`reap_dht`: a reaper destroys it from a timer, waits for the callback that says so, counts
`kDrainTurns` turns of the loop and only then frees it and closes the timer.

`Dhts` is all the DHTs of one loop, held or being reaped, with their reapers. Its callbacks come in
any order, and DHTs are created and handed over in between.

## Main results

* `life_of_dht`: what happens to a DHT is a prefix of `script`, nothing at all while it is held, and
  all of it once every reaper is gone.
* `length_callbacks`: the loop is done with the reapers after exactly `outstanding` callbacks,
  whatever their order.
-/

namespace Holesail

open Run

/-- Where a handle is on the way to being closed. -/
inductive HandleState where
  | opened
  | closing
  | closed
deriving DecidableEq

def kDrainTurns : ℤ := 16

/-- What the timer of a reaper is started with. -/
inductive TimerCb where
  | beginReap
  | reapTick
deriving DecidableEq

structure DhtReaper where
  dht : ℕ
  turnsLeft : ℤ := kDrainTurns
  /-- The callback of the timer, while it is active. -/
  timer : Option TimerCb := none
  handle : HandleState := .opened
  /-- The close callback deletes the reaper. -/
  deletes : Bool := false
  /-- `hyperdht_destroy` owes its callback. -/
  withdrawing : Bool := false
deriving DecidableEq

/-- What happens to a DHT between `hyperdht_create` and the end. -/
inductive Act where
  | destroy
  /-- The callback of `hyperdht_destroy`. -/
  | withdrawn
  | tick
  | free
deriving DecidableEq

/-- The DHTs of a loop, numbered as they are created, and their reapers, as they are allocated. -/
structure Dhts where
  created : ℕ := 0
  /-- Not yet handed to `reap_dht`. -/
  held : List ℕ := []
  made : ℕ := 0
  reapers : ℕ → Option DhtReaper := fun _ ↦ none
  /-- What has happened to which DHT. -/
  log : List (ℕ × Act) := []

namespace Dhts

variable (w : Dhts)

/-! ## The calls -/

/-- `hyperdht_create`. -/
def create : ℕ × Dhts :=
  (w.created, { w with created := w.created + 1, held := w.held ++ [w.created] })

/-- Put a reaper where it was allocated. -/
def set (i : ℕ) (r : DhtReaper) : Dhts :=
  { w with reapers := Function.update w.reapers i (some r) }

/-- Something happens to a DHT. -/
def note (d : ℕ) (act : Act) : Dhts := { w with log := w.log ++ [(d, act)] }

def reapDht (dht : Option ℕ) : Dhts :=
  match dht with
  | none => w
  | some d =>
    { w with held := w.held.erase d, made := w.made + 1 }.set w.made
      { dht := d, timer := some .beginReap }

/-- `begin_reap`. The timer does not repeat. -/
def beginReap (i : ℕ) (r : DhtReaper) : Dhts :=
  (w.note r.dht .destroy).set i { r with timer := none, withdrawing := true }

/-- The callback `begin_reap` passes to `hyperdht_destroy`. -/
def withdrawnCb (i : ℕ) (r : DhtReaper) : Dhts :=
  (w.note r.dht .withdrawn).set i { r with timer := some .reapTick, withdrawing := false }

/-- `reap_tick`. The timer repeats. -/
def reapTick (i : ℕ) (r : DhtReaper) : Dhts :=
  let w := w.note r.dht .tick
  let r := { r with turnsLeft := r.turnsLeft - 1 }
  if 0 < r.turnsLeft then w.set i r
  else (w.note r.dht .free).set i { r with timer := none, handle := .closing, deletes := true }

def closedCb (i : ℕ) (r : DhtReaper) : Dhts :=
  if r.deletes then { w with reapers := Function.update w.reapers i none }
  else w.set i { r with handle := .closed }

/-- `uv_walk` in `drain_and_close`: what is not closing yet is closed without a callback. -/
def walk : Dhts :=
  { w with reapers := fun i ↦ (w.reapers i).map fun r ↦
      if r.handle = .opened then { r with timer := none, handle := .closing } else r }

/-! ## The machine -/

/-- What the loop calls back. -/
inductive Callback where
  | timer (i : ℕ)
  | withdrawn (i : ℕ)
  | closed (i : ℕ)
deriving DecidableEq

inductive Event where
  | create
  | reap (d : ℕ)
  | callback (e : Callback)
deriving DecidableEq

def call : Callback → Dhts
  | .timer i =>
    match w.reapers i with
    | some r =>
      match r.timer with
      | some .beginReap => w.beginReap i r
      | some .reapTick => w.reapTick i r
      | none => w
    | none => w
  | .withdrawn i =>
    match w.reapers i with
    | some r => w.withdrawnCb i r
    | none => w
  | .closed i =>
    match w.reapers i with
    | some r => w.closedCb i r
    | none => w

def step (w : Dhts) : Event → Dhts
  | .create => w.create.2
  | .reap d => w.reapDht (some d)
  | .callback e => w.call e

/-- The loop may call back. -/
def Due : Callback → Prop
  | .timer i => ∃ r ∈ w.reapers i, r.timer.isSome = true ∧ r.handle = .opened
  | .withdrawn i => ∃ r ∈ w.reapers i, r.withdrawing = true ∧ r.handle = .opened
  | .closed i => ∃ r ∈ w.reapers i, r.handle = .closing

instance : (e : Callback) → Decidable (w.Due e)
  | .timer i | .withdrawn i | .closed i => inferInstanceAs (Decidable (∃ r ∈ w.reapers i, _))

/-- The loop has nothing to wait for: no timer is active or closing, and `hyperdht_destroy` owes no
callback. -/
def Over : Prop := ∀ i < w.made, ¬w.Due (.timer i) ∧ ¬w.Due (.withdrawn i) ∧ ¬w.Due (.closed i)

instance : Decidable w.Over := inferInstanceAs (Decidable (∀ i < w.made, _ ∧ _ ∧ _))

/-- What is handed over was held. -/
def Enabled (w : Dhts) : Event → Prop
  | .create => True
  | .reap d => d ∈ w.held
  | .callback e => w.Due e

instance (w : Dhts) : (e : Event) → Decidable (w.Enabled e)
  | .create => inferInstanceAs (Decidable True)
  | .reap d => inferInstanceAs (Decidable (d ∈ w.held))
  | .callback e => inferInstanceAs (Decidable (w.Due e))

/-! ## The life of a DHT -/

/-- What has happened to a DHT. -/
def history (d : ℕ) : List Act := (w.log.filter fun x ↦ x.1 = d).map Prod.snd

/-- What happens to a DHT that is handed over. -/
def script : List Act :=
  .destroy :: .withdrawn :: (List.replicate kDrainTurns.toNat .tick ++ [.free])

theorem history_eq_of_log {w w' : Dhts} {d d' : ℕ} {acts : List Act}
    (hlog : w'.log = w.log ++ acts.map (d', ·)) :
    w'.history d = if d' = d then w.history d ++ acts else w.history d := by
  have hacts : ∀ acts : List Act, ((acts.map (d', ·)).filter fun x ↦ x.1 = d).map Prod.snd
      = if d' = d then acts else [] := by
    intro acts
    induction acts with
    | nil => split_ifs <;> rfl
    | cons act acts ih =>
      rw [List.map_cons, List.filter_cons]
      by_cases hd : d' = d
      · rw [if_pos hd] at ih ⊢
        rw [if_pos (decide_eq_true hd), List.map_cons, ih]
      · rw [if_neg hd] at ih ⊢
        rw [if_neg (by simpa using hd), ih]
  rw [history, hlog, List.filter_append, List.map_append, hacts]
  split_ifs
  · rfl
  · rw [List.append_nil]
    rfl

/-- Where a reaper stands, and what has happened to its DHT by then. -/
inductive Stage : DhtReaper → List Act → Prop
  | armed (d : ℕ) : Stage { dht := d, timer := some .beginReap } []
  | withdrawing (d : ℕ) : Stage { dht := d, withdrawing := true } [.destroy]
  | ticking (d k : ℕ) (hk : k < kDrainTurns.toNat) :
    Stage { dht := d, turnsLeft := kDrainTurns - k, timer := some .reapTick }
      (.destroy :: .withdrawn :: List.replicate k .tick)
  | closing (d : ℕ) : Stage { dht := d, turnsLeft := 0, handle := .closing, deletes := true } script

structure Sound : Prop where
  held_nodup : w.held.Nodup
  held_lt : ∀ d ∈ w.held, d < w.created
  /-- Nothing happens to a DHT that is held. -/
  held_history : ∀ d ∈ w.held, w.history d = []
  rest : ∀ i, w.made ≤ i → w.reapers i = none
  lt : ∀ i, ∀ r ∈ w.reapers i, r.dht < w.created ∧ r.dht ∉ w.held
  stage : ∀ i, ∀ r ∈ w.reapers i, Stage r (w.history r.dht)
  /-- No DHT has two reapers. -/
  once : ∀ i j, ∀ r ∈ w.reapers i, ∀ s ∈ w.reapers j, r.dht = s.dht → i = j
  gone : ∀ d < w.created, d ∉ w.held → (∀ i, ∀ r ∈ w.reapers i, r.dht ≠ d) → w.history d = script
  unborn : ∀ d, w.created ≤ d → w.history d = []

theorem sound_empty : Sound {} where
  held_nodup := List.nodup_nil
  held_lt _ hd := absurd hd List.not_mem_nil
  held_history _ _ := rfl
  rest _ _ := rfl
  lt _ r hr := absurd hr (Option.not_mem_none r)
  stage _ r hr := absurd hr (Option.not_mem_none r)
  once _ _ r hr := absurd hr (Option.not_mem_none r)
  gone _ hd := absurd hd (Nat.not_lt_zero _)
  unborn _ _ := rfl

/-! ## What a callback does -/

/-- How many callbacks a reaper still waits for. -/
def remaining (r : DhtReaper) : ℕ :=
  match r.handle with
  | .closed => 0
  | .closing => 1
  | .opened =>
    match r.timer with
    | some .beginReap => r.turnsLeft.toNat + 3
    | none => r.turnsLeft.toNat + 2
    | some .reapTick => r.turnsLeft.toNat + 1

/-- A reaper goes on, and something happens to its DHT. -/
def advance (i : ℕ) (r : DhtReaper) (acts : List Act) : Dhts :=
  { w with log := w.log ++ acts.map (r.dht, ·) }.set i r

def delete (i : ℕ) : Dhts := { w with reapers := Function.update w.reapers i none }

variable {w} {e : Event} {i : ℕ} {r r' : DhtReaper} {acts : List Act}

/-- What the next callback of the reaper at `i` makes of it. -/
inductive Turn (w : Dhts) (i : ℕ) (r : DhtReaper) (w' : Dhts) : Prop
  | advance (r' : DhtReaper) (acts : List Act) (hw : w' = w.advance i r' acts)
      (hdht : r'.dht = r.dht) (hstage : Stage r' (w.history r.dht ++ acts))
      (hleft : remaining r = remaining r' + 1)
  | delete (hw : w' = w.delete i) (hdone : w.history r.dht = script) (hleft : remaining r = 1)

theorem replicate_tick (k : ℕ) :
    List.replicate k Act.tick ++ [.tick] = List.replicate (k + 1) .tick :=
  List.replicate_succ'.symm

/-- **The step lemma.** A reaper that is called back goes on by one. -/
theorem Stage.turn {c : Callback} (hr : r ∈ w.reapers i) (h : Stage r (w.history r.dht))
    (hc : c = .timer i ∨ c = .withdrawn i ∨ c = .closed i) (hdue : w.Due c) :
    Turn w i r (w.call c) := by
  have hsame : ∀ s ∈ w.reapers i, s = r := fun s hs ↦ Option.mem_unique hs hr
  generalize hacts : w.history r.dht = acts at h
  rcases hc with rfl | rfl | rfl
  · obtain ⟨s, hs, hactive, hopen⟩ := hdue
    obtain rfl := hsame s hs
    cases h with
    | armed d =>
      refine .advance { dht := d, withdrawing := true } [.destroy] ?_ rfl ?_ rfl
      · rw [call, Option.mem_def.mp hr]
        rfl
      · rw [hacts]
        exact .withdrawing d
    | withdrawing d => exact Bool.noConfusion hactive
    | ticking d k hk =>
      have hcall : w.call (.timer i) = w.reapTick i
          { dht := d, turnsLeft := kDrainTurns - k, timer := some .reapTick } := by
        rw [call, Option.mem_def.mp hr]
      have hlt : k < 16 := hk
      rw [hcall, reapTick]
      dsimp only
      split_ifs with hmore
      · have hk' : k + 1 < kDrainTurns.toNat := by
          change k + 1 < 16
          change 0 < (16 : ℤ) - k - 1 at hmore
          omega
        have hturns : kDrainTurns - k - 1 = kDrainTurns - ((k + 1 : ℕ) : ℤ) := by omega
        refine .advance { dht := d, turnsLeft := kDrainTurns - ((k + 1 : ℕ) : ℤ)
                          timer := some .reapTick } [.tick] ?_ rfl ?_ ?_
        · rw [hturns]
          rfl
        · rw [hacts, List.cons_append, List.cons_append, replicate_tick]
          exact .ticking d (k + 1) hk'
        · change ((16 : ℤ) - k).toNat + 1 = ((16 : ℤ) - ((k + 1 : ℕ) : ℤ)).toNat + 1 + 1
          omega
      · obtain rfl : k = 15 := by
          change ¬0 < (16 : ℤ) - k - 1 at hmore
          omega
        refine .advance { dht := d, turnsLeft := 0, handle := .closing, deletes := true }
          [.tick, .free] ?_ rfl ?_ rfl
        · simp only [note, advance, List.map_cons, List.map_nil, List.append_assoc]
          rfl
        · rw [hacts]
          exact .closing d
    | closing d => exact HandleState.noConfusion hopen
  · obtain ⟨s, hs, howes, hopen⟩ := hdue
    obtain rfl := hsame s hs
    cases h with
    | armed d => exact Bool.noConfusion howes
    | withdrawing d =>
      refine .advance { dht := d, timer := some .reapTick } [.withdrawn] ?_ rfl ?_ rfl
      · rw [call, Option.mem_def.mp hr]
        rfl
      · rw [hacts]
        exact .ticking d 0 (by decide)
    | ticking d k hk => exact Bool.noConfusion howes
    | closing d => exact Bool.noConfusion howes
  · obtain ⟨s, hs, hclosing⟩ := hdue
    obtain rfl := hsame s hs
    cases h with
    | armed d => exact HandleState.noConfusion hclosing
    | withdrawing d => exact HandleState.noConfusion hclosing
    | ticking d k hk => exact HandleState.noConfusion hclosing
    | closing d =>
      refine .delete ?_ hacts rfl
      rw [call, Option.mem_def.mp hr]
      rfl

/-! ## The invariant is kept -/

theorem set_reapers_of_ne {j : ℕ} (hj : j ≠ i) : (w.set i r).reapers j = w.reapers j :=
  Function.update_of_ne hj _ _

theorem set_reapers_self : (w.set i r).reapers i = some r := Function.update_self _ _ _

theorem delete_reapers_of_ne {j : ℕ} (hj : j ≠ i) : (w.delete i).reapers j = w.reapers j :=
  Function.update_of_ne hj _ _

theorem delete_reapers_self : (w.delete i).reapers i = none := Function.update_self _ _ _

/-- Whatever reaper is there after one went on was there before, or is that one. -/
theorem mem_set_reapers {j : ℕ} {s : DhtReaper} (hs : s ∈ (w.set i r).reapers j) :
    (j = i ∧ s = r) ∨ (j ≠ i ∧ s ∈ w.reapers j) := by
  by_cases hj : j = i
  · subst hj
    rw [set_reapers_self] at hs
    exact Or.inl ⟨rfl, (Option.some.inj hs).symm⟩
  · rw [set_reapers_of_ne hj] at hs
    exact Or.inr ⟨hj, hs⟩

theorem mem_delete_reapers {j : ℕ} {s : DhtReaper} (hs : s ∈ (w.delete i).reapers j) :
    j ≠ i ∧ s ∈ w.reapers j := by
  by_cases hj : j = i
  · subst hj
    rw [delete_reapers_self] at hs
    exact absurd hs (Option.not_mem_none s)
  · rw [delete_reapers_of_ne hj] at hs
    exact ⟨hj, hs⟩

theorem history_advance (d : ℕ) : (w.advance i r acts).history d =
    if r.dht = d then w.history d ++ acts else w.history d := history_eq_of_log rfl

theorem Sound.lt_made (h : Sound w) (hr : r ∈ w.reapers i) : i < w.made := by
  by_contra hi
  rw [Option.mem_def, h.rest i (not_lt.mp hi)] at hr
  exact absurd hr (Option.not_mem_none r)

theorem Sound.advance (h : Sound w) (hr : r ∈ w.reapers i) (hdht : r'.dht = r.dht)
    (hstage : Stage r' (w.history r.dht ++ acts)) : Sound (w.advance i r' acts) where
  held_nodup := h.held_nodup
  held_lt := h.held_lt
  held_history d hd := by
    have hne : r'.dht ≠ d := by
      rintro rfl
      exact (h.lt i r hr).2 (hdht ▸ hd)
    rw [history_advance, if_neg hne]
    exact h.held_history d hd
  rest j hj := by
    have hne : j ≠ i := by
      rintro rfl
      exact absurd (h.lt_made hr) (not_lt.mpr hj)
    exact (set_reapers_of_ne hne).trans (h.rest j hj)
  lt j s hs := by
    rcases mem_set_reapers hs with ⟨rfl, rfl⟩ | ⟨-, hs⟩
    · rw [hdht]
      exact h.lt j r hr
    · exact h.lt j s hs
  stage j s hs := by
    rw [history_advance]
    rcases mem_set_reapers hs with ⟨rfl, rfl⟩ | ⟨hj, hs⟩
    · rw [if_pos rfl, hdht]
      exact hstage
    · have hne : r'.dht ≠ s.dht := fun heq ↦ hj (h.once i j r hr s hs (hdht.symm.trans heq)).symm
      rw [if_neg hne]
      exact h.stage j s hs
  once j k s hs t ht hst := by
    have hbefore : ∀ {j s}, s ∈ (w.advance i r' acts).reapers j →
        ∃ s₀ ∈ w.reapers j, s₀.dht = s.dht := by
      intro j s hs
      rcases mem_set_reapers hs with ⟨rfl, rfl⟩ | ⟨-, hs⟩
      · exact ⟨r, hr, hdht.symm⟩
      · exact ⟨s, hs, rfl⟩
    obtain ⟨s₀, hs₀, hs⟩ := hbefore hs
    obtain ⟨t₀, ht₀, ht⟩ := hbefore ht
    exact h.once j k s₀ hs₀ t₀ ht₀ (hs.trans (hst.trans ht.symm))
  gone d hlt hheld hnone := by
    have hne : r'.dht ≠ d := hnone i r' set_reapers_self
    rw [history_advance, if_neg hne]
    refine h.gone d hlt hheld fun j s hs ↦ ?_
    by_cases hj : j = i
    · subst hj
      rw [Option.mem_unique hs hr, ← hdht]
      exact hne
    · exact hnone j s (Option.mem_def.mpr ((set_reapers_of_ne hj).trans hs))
  unborn d hd := by
    have hne : r'.dht ≠ d := by
      rintro rfl
      exact absurd (h.lt i r hr).1 (not_lt.mpr (hdht ▸ hd))
    rw [history_advance, if_neg hne]
    exact h.unborn d hd

theorem Sound.delete (h : Sound w) (hr : r ∈ w.reapers i) (hdone : w.history r.dht = script) :
    Sound (w.delete i) where
  held_nodup := h.held_nodup
  held_lt := h.held_lt
  held_history := h.held_history
  rest j hj := by
    by_cases hi : j = i
    · rw [hi]
      exact delete_reapers_self
    · exact (delete_reapers_of_ne hi).trans (h.rest j hj)
  lt j s hs := h.lt j s (mem_delete_reapers hs).2
  stage j s hs := h.stage j s (mem_delete_reapers hs).2
  once j k s hs t ht := h.once j k s (mem_delete_reapers hs).2 t (mem_delete_reapers ht).2
  gone d hlt hheld hnone := by
    by_cases hd : r.dht = d
    · rw [← hd]
      exact hdone
    · refine h.gone d hlt hheld fun j s hs ↦ ?_
      by_cases hj : j = i
      · subst hj
        rwa [Option.mem_unique hs hr]
      · exact hnone j s (Option.mem_def.mpr ((delete_reapers_of_ne hj).trans hs))
  unborn := h.unborn

theorem Sound.create (h : Sound w) : Sound w.create.2 where
  held_nodup := by
    refine List.Nodup.append h.held_nodup (List.nodup_singleton _) ?_
    rw [List.disjoint_singleton]
    exact fun hmem ↦ absurd (h.held_lt _ hmem) (lt_irrefl _)
  held_lt d hd := by
    rcases List.mem_append.mp hd with hd | hd
    · exact (h.held_lt d hd).trans (Nat.lt_succ_self _)
    · rw [List.mem_singleton.mp hd]
      exact Nat.lt_succ_self _
  held_history d hd := by
    rcases List.mem_append.mp hd with hd | hd
    · exact h.held_history d hd
    · rw [List.mem_singleton.mp hd]
      exact h.unborn _ le_rfl
  rest := h.rest
  lt i r hr := by
    obtain ⟨hlt, hheld⟩ := h.lt i r hr
    refine ⟨hlt.trans (Nat.lt_succ_self _), fun hmem ↦ ?_⟩
    rcases List.mem_append.mp hmem with hmem | hmem
    · exact hheld hmem
    · exact absurd hlt (by rw [List.mem_singleton.mp hmem]; exact lt_irrefl _)
  stage := h.stage
  once := h.once
  gone d hlt hheld hnone := by
    obtain ⟨hheld, hne⟩ := not_or.mp (mt List.mem_append.mpr hheld)
    refine h.gone d (lt_of_le_of_ne (Nat.lt_succ_iff.mp hlt) ?_) hheld hnone
    exact fun heq ↦ hne (List.mem_singleton.mpr heq)
  unborn d hd := h.unborn d ((Nat.le_succ _).trans hd)

theorem Sound.reapDht (h : Sound w) {d : ℕ} (hd : d ∈ w.held) : Sound (w.reapDht (some d)) where
  held_nodup := h.held_nodup.erase d
  held_lt d' hd' := h.held_lt d' (List.mem_of_mem_erase hd')
  held_history d' hd' := h.held_history d' (List.mem_of_mem_erase hd')
  rest j hj := by
    have hne : j ≠ w.made := Nat.ne_of_gt hj
    exact (set_reapers_of_ne hne).trans (h.rest j ((Nat.le_succ _).trans hj))
  lt j s hs := by
    rcases mem_set_reapers hs with ⟨-, rfl⟩ | ⟨-, hs⟩
    · exact ⟨h.held_lt d hd, h.held_nodup.not_mem_erase⟩
    · exact ⟨(h.lt j s hs).1, fun hmem ↦ (h.lt j s hs).2 (List.mem_of_mem_erase hmem)⟩
  stage j s hs := by
    rcases mem_set_reapers hs with ⟨-, rfl⟩ | ⟨-, hs⟩
    · have hnothing : (w.reapDht (some d)).history d = [] := h.held_history d hd
      rw [hnothing]
      exact .armed d
    · exact h.stage j s hs
  once j k s hs t ht hst := by
    rcases mem_set_reapers hs with ⟨rfl, rfl⟩ | ⟨-, hs⟩ <;>
      rcases mem_set_reapers ht with ⟨rfl, rfl⟩ | ⟨-, ht⟩
    · rfl
    · exact absurd (hst ▸ hd) (h.lt k t ht).2
    · exact absurd (hst ▸ hd) (h.lt j s hs).2
    · exact h.once j k s hs t ht hst
  gone d' hlt hheld hnone := by
    have hne : d ≠ d' := hnone w.made _ set_reapers_self
    refine h.gone d' hlt (fun hmem ↦ hheld ((List.mem_erase_of_ne hne.symm).mpr hmem)) ?_
    intro j s hs
    refine hnone j s (Option.mem_def.mpr ((set_reapers_of_ne ?_).trans hs))
    exact Nat.ne_of_lt (h.lt_made hs)
  unborn := h.unborn

/-! ## How many callbacks are left -/

variable (w) in
/-- How many callbacks the reapers still wait for, together. -/
def outstanding : ℕ := ∑ i ∈ Finset.range w.made, (w.reapers i).elim 0 remaining

theorem outstanding_update (hi : i < w.made) (w' : Dhts) (x : Option DhtReaper)
    (hmade : w'.made = w.made) (hreapers : w'.reapers = Function.update w.reapers i x) :
    w'.outstanding + (w.reapers i).elim 0 remaining = w.outstanding + x.elim 0 remaining := by
  have hmem : i ∈ Finset.range w.made := Finset.mem_range.mpr hi
  have hothers : ∑ j ∈ (Finset.range w.made).erase i, (w'.reapers j).elim 0 remaining
      = ∑ j ∈ (Finset.range w.made).erase i, (w.reapers j).elim 0 remaining := by
    refine Finset.sum_congr rfl fun j hj ↦ ?_
    rw [hreapers, Function.update_of_ne (Finset.ne_of_mem_erase hj)]
  have hself : w'.reapers i = x := by rw [hreapers, Function.update_self]
  rw [outstanding, outstanding, hmade, ← Finset.add_sum_erase _ _ hmem, hothers, hself,
    ← Finset.add_sum_erase (Finset.range w.made) (fun j ↦ (w.reapers j).elim 0 remaining) hmem]
  omega

theorem exists_reaper_of_due {c : Callback} (hdue : w.Due c) :
    ∃ i, ∃ r ∈ w.reapers i, c = .timer i ∨ c = .withdrawn i ∨ c = .closed i := by
  cases c with
  | timer i =>
    obtain ⟨r, hr, -⟩ := hdue
    exact ⟨i, r, hr, Or.inl rfl⟩
  | withdrawn i =>
    obtain ⟨r, hr, -⟩ := hdue
    exact ⟨i, r, hr, Or.inr (Or.inl rfl)⟩
  | closed i =>
    obtain ⟨r, hr, -⟩ := hdue
    exact ⟨i, r, hr, Or.inr (Or.inr rfl)⟩

/-- **A callback** keeps the invariant, and leaves one less. -/
theorem Sound.call (h : Sound w) {c : Callback} (hdue : w.Due c) :
    Sound (w.call c) ∧ w.outstanding = (w.call c).outstanding + 1 := by
  obtain ⟨i, r, hr, hc⟩ := exists_reaper_of_due hdue
  have hi := h.lt_made hr
  have hbefore : (w.reapers i).elim 0 remaining = remaining r := by rw [Option.mem_def.mp hr]; rfl
  cases (h.stage i r hr).turn hr hc hdue with
  | advance r' acts hw hdht hstage hleft =>
    have hafter := outstanding_update hi (w.advance i r' acts) (some r') rfl rfl
    rw [hbefore, hleft, Option.elim_some] at hafter
    rw [hw]
    exact ⟨h.advance hr hdht hstage, by omega⟩
  | delete hw hdone hleft =>
    have hafter := outstanding_update hi (w.delete i) none rfl rfl
    rw [hbefore, hleft, Option.elim_none] at hafter
    rw [hw]
    exact ⟨h.delete hr hdone, by omega⟩

theorem held_call (w : Dhts) (c : Callback) : (w.call c).held = w.held := by
  cases c with
  | timer i =>
    rw [Dhts.call.eq_def]
    dsimp only
    split
    · split
      · rfl
      · rw [reapTick]
        dsimp only
        split_ifs <;> rfl
      · rfl
    · rfl
  | withdrawn i =>
    rw [Dhts.call.eq_def]
    dsimp only
    split <;> rfl
  | closed i =>
    rw [Dhts.call.eq_def]
    dsimp only
    split
    · rw [closedCb]
      split_ifs <;> rfl
    · rfl

theorem Stage.remaining_ne_zero (h : Stage r acts) : remaining r ≠ 0 := by
  cases h with
  | armed d => exact Nat.succ_ne_zero _
  | withdrawing d => exact Nat.succ_ne_zero _
  | ticking d k hk => exact Nat.succ_ne_zero _
  | closing d => exact Nat.succ_ne_zero _

theorem Sound.exists_due_of_mem (h : Sound w) (hr : r ∈ w.reapers i) : ∃ c, w.Due c := by
  have hstage := h.stage i r hr
  generalize w.history r.dht = acts at hstage
  cases hstage with
  | armed d => exact ⟨.timer i, _, hr, rfl, rfl⟩
  | withdrawing d => exact ⟨.withdrawn i, _, hr, rfl, rfl⟩
  | ticking d k hk => exact ⟨.timer i, _, hr, rfl, rfl⟩
  | closing d => exact ⟨.closed i, _, hr, rfl⟩

theorem Sound.over_iff (h : Sound w) : w.Over ↔ ∀ i, w.reapers i = none := by
  constructor
  · intro hover i
    by_contra hi
    obtain ⟨r, hr⟩ := Option.ne_none_iff_exists'.mp hi
    obtain ⟨c, hdue⟩ := h.exists_due_of_mem (Option.mem_def.mpr hr)
    obtain ⟨j, s, hs, hc⟩ := exists_reaper_of_due hdue
    obtain ⟨htimer, hwithdrawn, hclosed⟩ := hover j (h.lt_made hs)
    rcases hc with rfl | rfl | rfl
    · exact htimer hdue
    · exact hwithdrawn hdue
    · exact hclosed hdue
  · intro hnone i _
    have hidle : ∀ c, ¬w.Due c := by
      intro c hdue
      obtain ⟨j, s, hs, -⟩ := exists_reaper_of_due hdue
      rw [hnone j] at hs
      exact absurd hs (Option.not_mem_none s)
    exact ⟨hidle _, hidle _, hidle _⟩

theorem walk_of_none (hnone : ∀ i, w.reapers i = none) : w.walk = w := by
  have hreapers : (fun i ↦ (w.reapers i).map fun r ↦
      if r.handle = .opened then { r with timer := none, handle := .closing } else r)
      = w.reapers := by
    funext i
    rw [hnone i, Option.map_none]
  rw [walk, hreapers]

theorem Sound.outstanding_eq_zero_iff (h : Sound w) :
    w.outstanding = 0 ↔ ∀ i, w.reapers i = none := by
  rw [outstanding, Finset.sum_eq_zero_iff]
  constructor
  · intro hnothing i
    by_contra hi
    obtain ⟨r, hr⟩ := Option.ne_none_iff_exists'.mp hi
    have hzero := hnothing i (Finset.mem_range.mpr (h.lt_made hr))
    rw [hr] at hzero
    exact (h.stage i r hr).remaining_ne_zero hzero
  · intro hnone i _
    rw [hnone i]
    rfl

/-! ## Runs -/

theorem Sound.step (h : Sound w) (he : w.Enabled e) : Sound (w.step e) := by
  cases e with
  | create => exact h.create
  | reap d => exact h.reapDht he
  | callback c => exact (h.call he).1

theorem sound_run {es : List Event} (h : Along step Enabled {} es) : Sound (run step {} es) :=
  invariant_of_along (fun _ _ hw he ↦ Sound.step hw he) sound_empty h

theorem Stage.prefix_script (h : Stage r acts) : acts <+: script := by
  cases h with
  | armed d => exact List.nil_prefix
  | withdrawing d => exact ⟨_, rfl⟩
  | ticking d k hk =>
    refine List.cons_prefix_cons.mpr ⟨rfl, List.cons_prefix_cons.mpr ⟨rfl, ?_⟩⟩
    refine List.IsPrefix.trans ?_ (List.prefix_append _ _)
    exact ⟨List.replicate (kDrainTurns.toNat - k) .tick, by
      rw [List.replicate_append_replicate, Nat.add_sub_cancel' hk.le]⟩
  | closing d => exact List.prefix_rfl

theorem Sound.history_prefix (h : Sound w) (d : ℕ) : w.history d <+: script := by
  by_cases hlt : d < w.created
  · by_cases hheld : d ∈ w.held
    · rw [h.held_history d hheld]
      exact List.nil_prefix
    · by_cases hnone : ∀ i, ∀ r ∈ w.reapers i, r.dht ≠ d
      · rw [h.gone d hlt hheld hnone]
      · push Not at hnone
        obtain ⟨i, r, hr, rfl⟩ := hnone
        exact (h.stage i r hr).prefix_script
  · rw [h.unborn d (not_lt.mp hlt)]
    exact List.nil_prefix

/-- **The life of a DHT.** In whatever order DHTs are created and handed over and the loop calls
back, a DHT is destroyed once, then withdrawn, then left for `kDrainTurns` turns and then freed,
once; nothing happens to it while it is held; and if no reaper is left, all of that has happened to
every DHT that is not held. -/
theorem life_of_dht {es : List Event} (h : Along step Enabled {} es) :
    let w := run step {} es
    (∀ d, w.history d <+: script ∧ (d ∈ w.held → w.history d = [])) ∧
      ((∀ i, w.reapers i = none) → ∀ d < w.created, d ∉ w.held → w.history d = script) := by
  have hsound := sound_run h
  refine ⟨fun d ↦ ⟨hsound.history_prefix d, hsound.held_history d⟩, fun hnone d hlt hheld ↦ ?_⟩
  refine hsound.gone d hlt hheld fun i r hr ↦ ?_
  rw [hnone i] at hr
  exact absurd hr (Option.not_mem_none r)

/-- One DHT is handed over while another is held, and is done with. -/
theorem life_of_dht_reaped :
    let w := run step {} ([.create, .create, .reap 0, .callback (.timer 0),
      .callback (.withdrawn 0)] ++ List.replicate 16 (.callback (.timer 0)) ++
      [.callback (.closed 0)])
    (w.history 0 <+: script ∧ w.history 0 = script) ∧ w.history 1 = [] :=
  ⟨⟨((life_of_dht (by decide +kernel)).1 0).1, by decide +kernel⟩,
    ((life_of_dht (by decide +kernel)).1 1).2 (by decide +kernel)⟩

theorem Sound.run_call (h : Sound w) {cs : List Callback} (hdue : Along Dhts.call Due w cs) :
    Sound (run Dhts.call w cs) ∧
      w.outstanding = (run Dhts.call w cs).outstanding + cs.length :=
  ⟨invariant_of_along (fun _ _ h hc ↦ (h.call hc).1) h hdue,
    rank_eq_of_along (fun _ _ h hc ↦ h.call hc) h hdue⟩

/-- **The reaping ends.** From any state that is reached, whichever callback comes first at each
turn, there are at most `outstanding` of them, and the loop has no callback left exactly after that
many. -/
theorem length_callbacks {es : List Event} (h : Along step Enabled {} es) {cs : List Callback}
    (hdue : Along call Due (run step {} es) cs) :
    cs.length ≤ (run step {} es).outstanding ∧
      (cs.length = (run step {} es).outstanding ↔
        ∀ c, ¬(run call (run step {} es) cs).Due c) := by
  obtain ⟨hsound, hleft⟩ := (sound_run h).run_call hdue
  refine ⟨by omega, fun hall c hc ↦ ?_, fun hnone ↦ ?_⟩
  · have hzero : (run call (run step {} es) cs).outstanding = 0 := by omega
    obtain ⟨i, r, hr, -⟩ := exists_reaper_of_due hc
    rw [hsound.outstanding_eq_zero_iff.mp hzero i] at hr
    exact absurd hr (Option.not_mem_none r)
  · have hzero : (run call (run step {} es) cs).outstanding = 0 := by
      refine hsound.outstanding_eq_zero_iff.mpr fun i ↦ ?_
      by_contra hi
      obtain ⟨r, hr⟩ := Option.ne_none_iff_exists'.mp hi
      obtain ⟨c, hc⟩ := hsound.exists_due_of_mem (Option.mem_def.mpr hr)
      exact hnone c hc
    omega

/-- A DHT takes nineteen callbacks. -/
theorem length_callbacks_reap :
    ([.timer 0, .withdrawn 0] ++ List.replicate 16 (.timer 0) ++ [.closed 0] :
        List Callback).length ≤ (run step {} [.create, .reap 0]).outstanding ∧
      (run step {} [.create, .reap 0]).outstanding = 19 :=
  ⟨(length_callbacks (by decide +kernel) (by decide +kernel)).1, by decide +kernel⟩

end Dhts

end Holesail
