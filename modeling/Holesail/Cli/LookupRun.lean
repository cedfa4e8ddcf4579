import Holesail.Cli.Dispatch
import Holesail.Endpoint.Lookup
import Holesail.Endpoint.Reaper

/-!
# The process of a lookup

`run_lookup`: a loop, and one lookup on it. If the lookup starts, the loop runs until its answer is
printed and its DHT is gone. If it does not start, the loop does not run before `drain_and_close`
sweeps up; and if that is because neither of the two reads could be started, there is a DHT by then,
and what would get rid of it is swept up too.

## Main results

`lookup_exited`: what the process prints, and what becomes of its DHT.
-/

namespace Holesail

open Run

inductive LookupLine where
  | noLoop
  /-- The key is named where `err` is `uvEINVAL`. -/
  | failed (err : ℤ)
  | answer (result : Option LookupResult)
deriving DecidableEq

/-- How far `run_lookup` has come. -/
inductive LookupPhase where
  | running
  | sweeping
  | exited
deriving DecidableEq

/-- The process of a lookup. What it returns is 0, in any case. -/
structure LookupRun where
  phase : LookupPhase := .running
  lookup : Lookup := {}
  /-- The number of the DHT that the lookup's context holds. -/
  dht : Option ℕ := none
  dhts : Dhts := {}
  lines : List LookupLine := []

namespace LookupRun

/-! ## The machine -/

/-- The lookup is another one. What it has handed to `reap_dht` is reaped, and what it has called
back is printed. -/
def follow (p : LookupRun) (l : Lookup) : LookupRun :=
  { p with
    lookup := l
    dht := if p.lookup.reaps < l.reaps then none else p.dht
    dhts := if p.lookup.reaps < l.reaps then p.dhts.reapDht p.dht else p.dhts
    lines := p.lines ++ (l.reported.drop p.lookup.reported.length).map .answer }

/-- `Holesail::lookup` creates a DHT. -/
def create (p : LookupRun) : LookupRun :=
  { p with dht := some p.dhts.create.1, dhts := p.dhts.create.2 }

/-- `run_lookup`, as far as the first `uv_run`. -/
def runLookup (C : Crypto) (loopInit : ℤ) (env : Lookup.Env) (key : Bytes) : LookupRun :=
  if loopInit ≠ 0 then { phase := .exited, lines := [.noLoop] }
  else
    let (started, l) := Lookup.start C key env
    let p : LookupRun := if lookupArms C key ≠ none ∧ env.created then create {} else {}
    let p := p.follow l
    if started < 0 then
      { p with phase := .sweeping, lines := p.lines ++ [.failed started], dhts := p.dhts.walk }
    else p

/-- What the loop calls back, and its return. -/
inductive Event where
  | lookup (e : Lookup.Event)
  | dhts (c : Dhts.Callback)
  | returned

def step (p : LookupRun) : Event → LookupRun
  | .lookup e => p.follow (p.lookup.step e)
  | .dhts c => { p with dhts := p.dhts.call c }
  | .returned =>
    match p.phase with
    | .running => { p with phase := .sweeping, dhts := p.dhts.walk }
    | .sweeping | .exited => { p with phase := .exited }

/-- The loop may do this next. It does not return while a read is underway. -/
def Enabled (p : LookupRun) : Event → Prop
  | .lookup e => p.phase = .running ∧ p.lookup.Enabled e
  | .dhts c => p.phase ≠ .exited ∧ p.dhts.Due c
  | .returned => p.phase ≠ .exited ∧ (p.phase = .running → p.lookup.Settled) ∧ p.dhts.Over

instance (p : LookupRun) : (e : Event) → Decidable (p.Enabled e)
  | .lookup _ | .dhts _ | .returned => inferInstanceAs (Decidable (_ ∧ _))

/-- What happens to the lookup. -/
def lookups (es : List Event) : List Lookup.Event :=
  es.flatMap fun
    | .lookup e => [e]
    | .dhts _ | .returned => []

/-! ## A lookup that has started -/

variable {C : Crypto} {env : Lookup.Env} {key : Bytes} {p : LookupRun} {e : Event}

theorem lookups_concat (es : List Event) (e : Event) :
    lookups (es ++ [e]) = lookups es ++ lookups [e] := List.flatMap_append

/-- What one callback of a lookup does to its context: nothing, or it hands the DHT over. -/
def Hands (l l' : Lookup) : Prop :=
  (l'.ctx.isSome = l.ctx.isSome ∧ l'.reaps = l.reaps ∧ l'.reported = l.reported) ∨
    (l.ctx.isSome = true ∧ l'.ctx.isSome = false ∧ l'.reaps = l.reaps + 1 ∧
      ∃ result, l'.reported = l.reported ++ [result])

theorem hands_doneCb (l : Lookup) : Hands l l.doneCb := by
  unfold Lookup.doneCb
  split
  · exact Or.inl ⟨rfl, rfl, rfl⟩
  · next ctx hctx =>
    dsimp only
    split_ifs
    · exact Or.inl ⟨(congrArg Option.isSome hctx).symm, rfl, rfl⟩
    · exact Or.inr ⟨congrArg Option.isSome hctx, rfl, rfl, _, rfl⟩

theorem hands_step (l : Lookup) (e : Lookup.Event) : Hands l (l.step e) := by
  cases e with
  | value arm seq value => exact Or.inl ⟨Option.isSome_map, rfl, rfl⟩
  | done arm =>
    have hstop : (l.stop arm).ctx = l.ctx ∧ (l.stop arm).reaps = l.reaps ∧
        (l.stop arm).reported = l.reported := by
      cases arm <;> exact ⟨rfl, rfl, rfl⟩
    have hdone := hands_doneCb (l.stop arm)
    rwa [Hands, hstop.1, hstop.2.1, hstop.2.2] at hdone

/-- The context holds the DHT, and everything it has called back was printed. -/
structure Held (p : LookupRun) : Prop where
  sound : p.dhts.Sound
  held : p.dhts.held = p.dht.toList
  ctx : p.dht.isSome = p.lookup.ctx.isSome
  lines : p.lines = p.lookup.reported.map .answer

theorem Held.follow (h : Held p) {l : Lookup} (hhands : Hands p.lookup l) : Held (p.follow l) := by
  rcases hhands with ⟨hctx, hreaps, hreported⟩ | ⟨hsome, hnone, hreaps, result, hreported⟩
  · have hnot : ¬p.lookup.reaps < l.reaps := by omega
    refine ⟨?_, ?_, ?_, ?_⟩ <;> simp only [LookupRun.follow, if_neg hnot]
    · exact h.sound
    · exact h.held
    · exact h.ctx.trans hctx.symm
    · rw [hreported, List.drop_length, List.map_nil, List.append_nil]
      exact h.lines
  · have hreap : p.lookup.reaps < l.reaps := by omega
    obtain ⟨d, hd⟩ := Option.isSome_iff_exists.mp (h.ctx.trans hsome)
    have hheld : p.dhts.held = [d] := h.held.trans (congrArg Option.toList hd)
    refine ⟨?_, ?_, ?_, ?_⟩ <;> simp only [LookupRun.follow, if_pos hreap]
    · rw [hd]
      exact h.sound.reapDht (by rw [hheld]; exact List.mem_singleton_self d)
    · rw [hd]
      change p.dhts.held.erase d = []
      rw [hheld, List.erase_cons_head]
    · exact hnone.symm
    · rw [hreported, List.drop_left, List.map_append, h.lines]

/-- A lookup that has started, after the given events. -/
structure Started (secure : Bool) (es : List Event) (p : LookupRun) : Prop where
  held : Held p
  tracks : Lookup.Tracks secure (Lookup.replies .primary (lookups es))
    (Lookup.replies .fallback (lookups es)) p.lookup
  -- Once the loop has returned there is nothing left of the lookup.
  swept : p.phase ≠ .running → p.lookup.Settled ∧ ∀ i, p.dhts.reapers i = none

theorem Started.ctx_of_settled {secure : Bool} {es : List Event} (h : Started secure es p)
    (hsettled : p.lookup.Settled) : p.dht = none ∧
      ∃ result, Lookup.Ping secure (Lookup.replies .primary (lookups es))
        (Lookup.replies .fallback (lookups es)) result ∧ p.lines = [.answer result] := by
  rcases h.tracks with ⟨ctx, hopen⟩ | hclosed
  · exact absurd hopen.running (Int.not_lt.mpr ((Lookup.settled_iff _).mp hsettled))
  · obtain ⟨result, hping, hreported⟩ := hclosed.reported
    refine ⟨?_, result, hping, ?_⟩
    · have hctx := h.held.ctx
      rw [hclosed.freed] at hctx
      exact Option.not_isSome_iff_eq_none.mp (by rw [hctx]; decide)
    · rw [h.held.lines, hreported]
      rfl

/-- **Every event** of a lookup that has started. -/
theorem Started.step {secure : Bool} {es : List Event} (h : Started secure es p)
    (he : p.Enabled e) : Started secure (es ++ [e]) (p.step e) := by
  cases e with
  | lookup e =>
    obtain ⟨hphase, hlookup⟩ := he
    refine ⟨h.held.follow (hands_step _ e), ?_, fun hswept ↦ absurd hphase hswept⟩
    rw [lookups_concat, Lookup.replies, Lookup.replies, List.flatMap_append, List.flatMap_append]
    have hnext := h.tracks.step hlookup
    rwa [← List.flatMap_singleton (Lookup.Event.replies .primary) e,
      ← List.flatMap_singleton (Lookup.Event.replies .fallback) e] at hnext
  | dhts c =>
    obtain ⟨-, hdue⟩ := he
    refine ⟨⟨(h.held.sound.call hdue).1, (Dhts.held_call _ c).trans h.held.held, h.held.ctx,
      h.held.lines⟩, ?_, fun hswept ↦ ?_⟩
    · rw [lookups_concat]
      exact (List.append_nil (lookups es)).symm ▸ h.tracks
    · obtain ⟨i, r, hr, -⟩ := Dhts.exists_reaper_of_due hdue
      rw [(h.swept hswept).2 i] at hr
      exact absurd hr (Option.not_mem_none r)
  | returned =>
    obtain ⟨-, hsettled, hover⟩ := he
    have hnone := h.held.sound.over_iff.mp hover
    have htracks : Lookup.Tracks secure (Lookup.replies .primary (lookups (es ++ [.returned])))
        (Lookup.replies .fallback (lookups (es ++ [.returned]))) p.lookup := by
      rw [lookups_concat]
      exact (List.append_nil (lookups es)).symm ▸ h.tracks
    rw [LookupRun.step]
    cases hphase : p.phase with
    | running =>
      have hwalk := Dhts.walk_of_none hnone
      refine ⟨⟨?_, ?_, h.held.ctx, h.held.lines⟩, htracks, fun _ ↦ ⟨hsettled hphase, ?_⟩⟩
      all_goals
        dsimp only
        rw [hwalk]
      · exact h.held.sound
      · exact h.held.held
      · exact hnone
    | sweeping =>
      have hswept := h.swept (by rw [hphase]; decide)
      exact ⟨⟨h.held.sound, h.held.held, h.held.ctx, h.held.lines⟩, htracks, fun _ ↦ hswept⟩
    | exited =>
      have hswept := h.swept (by rw [hphase]; decide)
      exact ⟨⟨h.held.sound, h.held.held, h.held.ctx, h.held.lines⟩, htracks, fun _ ↦ hswept⟩

theorem Started.run {secure : Bool} (h : Started secure [] p) {es : List Event}
    (henabled : Along LookupRun.step Enabled p es) :
    Started secure es (Run.run LookupRun.step p es) :=
  history_of_along h (fun _ _ hp he ↦ hp.step he) henabled

/-! ## A lookup that could not be started -/

/-- No DHT was created. -/
structure Idle (err : ℤ) (p : LookupRun) : Prop where
  phase : p.phase ≠ .running
  created : p.dhts.created = 0
  reapers : ∀ i, p.dhts.reapers i = none
  lines : p.lines = [.failed err]

theorem Idle.step {err : ℤ} (h : Idle err p) (he : p.Enabled e) : Idle err (p.step e) := by
  cases e with
  | lookup e => exact absurd he.1 h.phase
  | dhts c =>
    obtain ⟨i, r, hr, -⟩ := Dhts.exists_reaper_of_due he.2
    rw [h.reapers i] at hr
    exact absurd hr (Option.not_mem_none r)
  | returned =>
    have hend : p.step .returned = { p with phase := .exited } := by
      rw [LookupRun.step]
      cases hphase : p.phase with
      | running => exact absurd hphase h.phase
      | sweeping => rfl
      | exited => rfl
    rw [hend]
    exact ⟨LookupPhase.noConfusion, h.created, h.reapers, h.lines⟩

/-- A DHT was created, and its reaper was swept up before it could do anything. -/
structure Leaked (p : LookupRun) : Prop where
  phase : p.phase ≠ .running
  created : p.dhts.created = 1
  log : p.dhts.log = []
  only : ∀ i, p.dhts.reapers i ≠ none → i = 0
  reaper : ∃ r ∈ p.dhts.reapers 0, r.dht = 0 ∧ r.timer = none ∧ r.withdrawing = false ∧
    r.deletes = false
  lines : p.lines = [.failed uvEIo]

theorem Leaked.step (h : Leaked p) (he : p.Enabled e) : Leaked (p.step e) := by
  obtain ⟨r, hr, hdht, htimer, howes, hdeletes⟩ := h.reaper
  have honly : ∀ i, ∀ s ∈ p.dhts.reapers i, i = 0 ∧ s = r := by
    intro i s hs
    obtain rfl := h.only i (Option.ne_none_iff_exists'.mpr ⟨s, hs⟩)
    exact ⟨rfl, Option.mem_unique hs hr⟩
  cases e with
  | lookup e => exact absurd he.1 h.phase
  | dhts c =>
    obtain ⟨-, hdue⟩ := he
    cases c with
    | timer i =>
      obtain ⟨s, hs, hactive, -⟩ := hdue
      obtain ⟨-, rfl⟩ := honly i s hs
      rw [htimer] at hactive
      exact Bool.noConfusion hactive
    | withdrawn i =>
      obtain ⟨s, hs, hwithdrawing, -⟩ := hdue
      obtain ⟨-, rfl⟩ := honly i s hs
      exact absurd (howes.symm.trans hwithdrawing) Bool.false_ne_true
    | closed i =>
      obtain ⟨s, hs, -⟩ := hdue
      obtain ⟨rfl, rfl⟩ := honly i s hs
      have hcall : p.dhts.call (.closed 0) = p.dhts.set 0 { s with handle := .closed } := by
        rw [Dhts.call, Option.mem_def.mp hs]
        exact if_neg (by rw [hdeletes]; decide)
      rw [LookupRun.step, hcall]
      refine ⟨h.phase, h.created, h.log, fun i hi ↦ ?_,
        ⟨_, Dhts.set_reapers_self, hdht, htimer, howes, hdeletes⟩, h.lines⟩
      by_contra hne
      exact hne (h.only i fun hnone ↦ hi ((Dhts.set_reapers_of_ne hne).trans hnone))
  | returned =>
    have hend : p.step .returned = { p with phase := .exited } := by
      rw [LookupRun.step]
      cases hphase : p.phase with
      | running => exact absurd hphase h.phase
      | sweeping => rfl
      | exited => rfl
    rw [hend]
    exact ⟨LookupPhase.noConfusion, h.created, h.log, h.only, h.reaper, h.lines⟩

/-! ## The beginning -/

/-- **What a lookup that is starting does about its DHT**: it keeps it, or it hands it over at once,
or it has not got one. -/
theorem start_cases (C : Crypto) (key : Bytes) (env : Lookup.Env) :
    ((lookupArms C key ≠ none ∧ env.created = true) ∧
      (((Lookup.start C key env).1 = 0 ∧ (Lookup.start C key env).2.ctx.isSome = true ∧
          (Lookup.start C key env).2.reaps = 0) ∨
        ((Lookup.start C key env).1 = uvEIo ∧ (Lookup.start C key env).2.reaps = 1))) ∨
      (¬(lookupArms C key ≠ none ∧ env.created = true) ∧ (Lookup.start C key env).2 = {} ∧
        (Lookup.start C key env).1 < 0 ∧ (Lookup.start C key env).1 ≠ uvEIo) := by
  rw [Lookup.start]
  cases harms : lookupArms C key with
  | none =>
    exact Or.inr ⟨fun h ↦ h.1 rfl, rfl, (show uvEINVAL < 0 by decide),
      (show uvEINVAL ≠ uvEIo by decide)⟩
  | some arms =>
    dsimp only
    by_cases hcreated : env.created = false
    · rw [if_pos hcreated]
      exact Or.inr ⟨fun h ↦ absurd (hcreated.symm.trans h.2) Bool.false_ne_true, rfl,
        (show uvENOMEM < 0 by decide), (show uvENOMEM ≠ uvEIo by decide)⟩
    · refine Or.inl ⟨⟨Option.some_ne_none arms, Bool.of_not_eq_false hcreated⟩, ?_⟩
      rw [if_neg hcreated]
      by_cases hprimary : env.primary = 0 <;> by_cases hfallback : env.fallback = 0 <;>
        simp only [hprimary, hfallback, decide_true, decide_false, Bool.true_eq_false, and_self,
          or_self, and_false, false_and, or_false, false_or, if_false, if_true]
      · exact Or.inl ⟨trivial, rfl, trivial⟩
      · exact Or.inl ⟨trivial, rfl, rfl⟩
      · exact Or.inl ⟨trivial, rfl, rfl⟩
      · exact Or.inr trivial

theorem walk_empty : ({} : Dhts).walk = {} := Dhts.walk_of_none fun _ ↦ rfl

/-- **The beginning**, in each of the three cases. -/
theorem begins (C : Crypto) (env : Lookup.Env) (key : Bytes) :
    ((Lookup.start C key env).1 = 0 ∧
        Started ((parseUrl key).secure.getD false) [] (runLookup C 0 env key)) ∨
      ((Lookup.start C key env).1 = uvEIo ∧ Leaked (runLookup C 0 env key)) ∨
      ((Lookup.start C key env).1 < 0 ∧ (Lookup.start C key env).1 ≠ uvEIo ∧
        Idle (Lookup.start C key env).1 (runLookup C 0 env key)) := by
  have hspec := Lookup.start_spec C key env
  rcases start_cases C key env with ⟨hcreated, ⟨hrc, hctx, hreaps⟩ | ⟨hrc, hreaps⟩⟩ |
    ⟨hcreated, hempty, hrc, hne⟩
  · have htracks := (hspec.resolve_left fun h ↦ absurd hrc h.1.ne).2
    have hreported : (Lookup.start C key env).2.reported = [] := by
      rcases htracks with ⟨ctx, hopen⟩ | hclosed
      · exact hopen.reported
      · rw [hclosed.freed] at hctx
        exact Bool.noConfusion hctx
    have hrun : runLookup C 0 env key =
        { (create {}) with lookup := (Lookup.start C key env).2 } := by
      rw [runLookup, if_neg (not_not.mpr rfl)]
      simp only [if_pos hcreated, hrc, lt_irrefl, if_false, follow, hreaps, hreported,
        List.drop_nil, List.map_nil, List.append_nil]
      rfl
    refine Or.inl ⟨hrc, ?_⟩
    rw [hrun]
    exact ⟨⟨Dhts.sound_empty.create, rfl, hctx.symm, by rw [hreported]; rfl⟩, htracks,
      fun hphase ↦ absurd rfl hphase⟩
  · have hneg : (Lookup.start C key env).1 < 0 := by rw [hrc]; decide
    have hreported := (hspec.resolve_right fun h ↦ absurd h.1 hneg.ne).2.reported
    refine Or.inr (Or.inl ⟨hrc, ?_⟩)
    have hrun : runLookup C 0 env key = { (create {}) with
        phase := .sweeping
        lookup := (Lookup.start C key env).2
        dht := none
        dhts := ((create {}).dhts.reapDht (some 0)).walk
        lines := [.failed uvEIo] } := by
      rw [runLookup, if_neg (not_not.mpr rfl)]
      simp only [if_pos hcreated, follow, hreaps, hreported, List.drop_nil,
        List.map_nil, List.append_nil, hrc]
      rfl
    rw [hrun]
    refine ⟨LookupPhase.noConfusion, rfl, rfl, fun i hi ↦ ?_, ⟨_, rfl, rfl, rfl, rfl, rfl⟩, rfl⟩
    by_contra hne
    refine hi ?_
    have hnone : ((create {}).dhts.reapDht (some 0)).reapers i = none := Dhts.set_reapers_of_ne hne
    exact congrArg (Option.map _) hnone
  · refine Or.inr (Or.inr ⟨hrc, hne, ?_⟩)
    have hrun : runLookup C 0 env key =
        { phase := .sweeping, lines := [.failed (Lookup.start C key env).1] } := by
      rw [runLookup, if_neg (not_not.mpr rfl)]
      simp only [if_neg hcreated, if_pos hrc, follow, hempty, lt_irrefl, if_false, List.drop_nil,
        List.map_nil, List.append_nil, walk_empty]
      rfl
    rw [hrun]
    exact ⟨LookupPhase.noConfusion, rfl, fun _ ↦ rfl, rfl⟩

/-! ## The end -/

theorem runLookup_of_no_loop {loopInit : ℤ} (hloop : loopInit ≠ 0) {es : List Event}
    (henabled : Along step Enabled (runLookup C loopInit env key) es) :
    run step (runLookup C loopInit env key) es = { phase := .exited, lines := [.noLoop] } := by
  have hstart : runLookup C loopInit env key = { phase := .exited, lines := [.noLoop] } :=
    if_pos hloop
  rw [hstart] at henabled ⊢
  cases es with
  | nil => rfl
  | cons e es =>
    obtain ⟨he, -⟩ := along_cons.mp henabled
    cases e with
    | lookup e => exact absurd he.1 LookupPhase.noConfusion
    | dhts c => exact absurd rfl he.1
    | returned => exact absurd rfl he.1

/-- Neither read could be started, and the process is over. -/
def unread : List Event := [.dhts (.closed 0), .returned]

end LookupRun

end Holesail
