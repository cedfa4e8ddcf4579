import Holesail.Cli.Process

/-!
# Shutting down

Whatever ends an endpoint, be it a signal, a failure or the want of anything to wait for, the
process ends in the same state, with everything it made torn down once. It takes a fixed number of
callbacks to get there, and no callback can delay it.

## Main results

* `process_exited`: the exit status, the fate of the DHT, and the handles of the signals.
* `stranded_iff`: when the handle of a signal outlives its storage.
* `length_after_shutdown`: how many callbacks a shutdown takes.
-/

namespace Holesail

namespace Process

open Run

variable {C : Crypto} {env : Env} {options : Options} {p : Process} {e : Event}

/-! ## Closing the endpoint -/

@[simp] theorem phase_closeConn (p : Process) : p.closeConn.phase = p.phase := by
  unfold closeConn
  split <;> rfl

@[simp] theorem shutdown_closeConn (p : Process) : p.closeConn.shutdown = p.shutdown := by
  unfold closeConn
  split <;> rfl

@[simp] theorem status_closeConn (p : Process) : p.closeConn.status = p.status := by
  unfold closeConn
  split <;> rfl

@[simp] theorem lines_closeConn (p : Process) : p.closeConn.lines = p.lines := by
  unfold closeConn
  split <;> rfl

@[simp] theorem uvCloses_closeConn (p : Process) : p.closeConn.uvCloses = p.uvCloses := by
  unfold closeConn
  split <;> rfl

@[simp] theorem stranded_closeConn (p : Process) : p.closeConn.stranded = p.stranded := by
  unfold closeConn
  split <;> rfl

/-- The endpoint has the DHT that is held, if it has one. -/
structure Core (p : Process) : Prop where
  sound : p.dhts.Sound
  held : p.dhts.held = p.dht.toList
  conn : p.conn = none → p.dht = none

/-- The endpoint was closed, or never started. -/
structure Parted (p : Process) : Prop where
  dht : p.dht = none
  gone : ∀ h ∈ p.conn, h.server = none ∧ h.client = none

/-- **`close`** hands the DHT over. -/
theorem Core.closeConn (h : Core p) : Core p.closeConn ∧ Parted p.closeConn := by
  unfold Process.closeConn
  split
  · next hconn =>
    refine ⟨h, h.conn hconn, fun x hx ↦ ?_⟩
    rw [hconn] at hx
    exact absurd hx (Option.not_mem_none x)
  · next x hconn =>
    have hgone : ∀ y ∈ some x.close, y.server = none ∧ y.client = none := by
      rintro y hy
      obtain rfl := Option.some.inj hy
      exact ⟨rfl, rfl⟩
    refine ⟨?_, rfl, hgone⟩
    cases hdht : p.dht with
    | none => exact ⟨h.sound, h.held.trans (congrArg Option.toList hdht), fun _ ↦ rfl⟩
    | some d =>
      have hheld : p.dhts.held = [d] := h.held.trans (congrArg Option.toList hdht)
      have hmem : d ∈ p.dhts.held := by rw [hheld]; exact List.mem_singleton_self d
      refine ⟨h.sound.reapDht hmem, ?_, fun _ ↦ rfl⟩
      have herased : p.dhts.held.erase d = [] := by rw [hheld, List.erase_cons_head]
      exact herased

theorem Parted.closeConn (h : Parted p) : Parted p.closeConn ∧ p.closeConn.dhts = p.dhts := by
  unfold Process.closeConn
  split
  · exact ⟨h, rfl⟩
  · refine ⟨⟨rfl, ?_⟩, ?_⟩
    · rintro y hy
      obtain rfl := Option.some.inj hy
      exact ⟨rfl, rfl⟩
    · change p.dhts.reapDht p.dht = p.dhts
      rw [h.dht]
      rfl

/-! ## The handlers -/

/-- The signals whose handles `run_endpoint` has opened. -/
def opened (env : Env) : List Signal :=
  [.sigint, .sigterm].filter fun s ↦ ((install env).signal s).handle = some .opened

/-- Where the handlers stand. `entered` says whether they were to be installed at all. -/
inductive Handlers (env : Env) (entered : Prop) (p : Process) : Prop
  | fresh (s : Shutdown) (hs : p.shutdown = some s) (hsignal : s.signal = (install env).signal)
      (hinstalled : s.installed = (install env).installed)
      (hclosing : s.closing = true → s.installed = false)
      (hcloses : p.uvCloses = []) (hstranded : p.stranded = []) (hentered : entered)
  | leaving (s : Shutdown) (hs : p.shutdown = some s) (hinstalled : (install env).installed = true)
      (hclosing : s.closing = true) (hdeaf : ∀ x, (s.signal x).watching = false)
      (hhandle : ∀ x, (s.signal x).handle = some .closing ∨ (s.signal x).handle = some .closed)
      (hcloses : p.uvCloses = [.sigint, .sigterm]) (hstranded : p.stranded = [])
      (hentered : entered)
  /-- The handlers were never installed. -/
  | never (hs : p.shutdown = none) (hcloses : p.uvCloses = []) (hstranded : p.stranded = [])
      (hentered : ¬entered)
  | orderly (hs : p.shutdown = none) (hinstalled : (install env).installed = true)
      (hcloses : p.uvCloses = [.sigint, .sigterm]) (hstranded : p.stranded = [])
      (hentered : entered)
  /-- There was no shutdown. -/
  | left (hs : p.shutdown = none) (hdeaf : ∀ x, ((install env).signal x).watching = false)
      (hcloses : p.uvCloses = opened env) (hstranded : p.stranded = opened env)
      (hentered : entered)

/-- Only `shutdown`, `uvCloses` and `stranded` matter to the handlers. -/
theorem Handlers.of_eq {entered : Prop} {q : Process} (h : Handlers env entered p)
    (hs : q.shutdown = p.shutdown) (hcloses : q.uvCloses = p.uvCloses)
    (hstranded : q.stranded = p.stranded) : Handlers env entered q := by
  cases h with
  | fresh s h₁ h₂ h₃ h₄ h₅ h₆ h₇ =>
    exact .fresh s (hs.trans h₁) h₂ h₃ h₄ (hcloses.trans h₅) (hstranded.trans h₆) h₇
  | leaving s h₁ h₂ h₃ h₄ h₅ h₆ h₇ h₈ =>
    exact .leaving s (hs.trans h₁) h₂ h₃ h₄ h₅ (hcloses.trans h₆) (hstranded.trans h₇) h₈
  | never h₁ h₂ h₃ h₄ =>
    exact .never (hs.trans h₁) (hcloses.trans h₂) (hstranded.trans h₃) h₄
  | orderly h₁ h₂ h₃ h₄ h₅ =>
    exact .orderly (hs.trans h₁) h₂ (hcloses.trans h₃) (hstranded.trans h₄) h₅
  | left h₁ h₂ h₃ h₄ h₅ =>
    exact .left (hs.trans h₁) h₂ (hcloses.trans h₃) (hstranded.trans h₄) h₅

/-- A shutdown that does not know of its closing yet has fresh handlers. -/
theorem Handlers.of_not_closing {entered : Prop} {s : Shutdown} (h : Handlers env entered p)
    (hs : p.shutdown = some s) (hclosing : s.closing = false) :
    s.signal = (install env).signal ∧ s.installed = (install env).installed ∧ p.uvCloses = [] ∧
      p.stranded = [] ∧ entered := by
  cases h with
  | fresh s' hs' hsignal hinstalled _ hcloses hstranded hentered =>
    obtain rfl := Option.some.inj (hs.symm.trans hs')
    exact ⟨hsignal, hinstalled, hcloses, hstranded, hentered⟩
  | leaving s' hs' _ hclosing' =>
    obtain rfl := Option.some.inj (hs.symm.trans hs')
    exact absurd (hclosing.symm.trans hclosing') Bool.false_ne_true
  | never hs' => exact absurd (hs.symm.trans hs') (Option.some_ne_none s)
  | orderly hs' => exact absurd (hs.symm.trans hs') (Option.some_ne_none s)
  | left hs' => exact absurd (hs.symm.trans hs') (Option.some_ne_none s)

/-! ## The invariant -/

/-- The invariant, but for the handlers. -/
structure Good (p : Process) : Prop where
  core : Core p
  status : p.status = if p.lines.any Line.isError then 1 else 0
  caught : p.phase ≠ .threw
  parted : p.phase ≠ .running → Parted p
  closing : ∀ s ∈ p.shutdown, s.closing = true → Parted p
  block : p.phase = .running ∨ p.phase = .draining → p.shutdown.isSome = true
  swept : p.phase = .sweeping ∨ p.phase = .exited →
    p.conn = none ∧ p.shutdown = none ∧ ∀ i, p.dhts.reapers i = none

/-! ## Beginning a shutdown -/

/-- The process that knows of its shutdown and has closed the endpoint. -/
def parting (p : Process) (s : Shutdown) : Process :=
  closeConn { p with shutdown := some { s with closing := true } }

theorem shutdown_parting (p : Process) (s : Shutdown) :
    (p.parting s).shutdown = some { s with closing := true } := shutdown_closeConn _

theorem beginShutdown_of_none (hs : p.shutdown = none) : p.beginShutdown = p := by
  rw [beginShutdown, hs]

theorem beginShutdown_of_closing {s : Shutdown} (hs : p.shutdown = some s)
    (hclosing : s.closing = true) : p.beginShutdown = p := by
  rw [beginShutdown, hs]
  exact if_pos hclosing

theorem beginShutdown_of_not_closing {s : Shutdown} (hs : p.shutdown = some s)
    (hclosing : s.closing = false) : p.beginShutdown =
      if s.installed = false then p.parting s
      else ((p.parting s).uvClose .sigint).uvClose .sigterm := by
  rw [beginShutdown, hs]
  exact if_neg (by rw [hclosing]; decide)

section Good

variable (h : Good p)

include h

/-- A shutdown that is known of is one of a process that has not swept up. -/
theorem Good.not_swept {s : Shutdown} (hs : p.shutdown = some s) :
    ¬(p.phase = .sweeping ∨ p.phase = .exited) :=
  fun hswept ↦ Option.some_ne_none s (hs.symm.trans (h.swept hswept).2.1)

theorem Good.parting {s : Shutdown} (hs : p.shutdown = some s) : Good (p.parting s) := by
  have hcore : Core { p with shutdown := some { s with closing := true } } :=
    ⟨h.core.sound, h.core.held, h.core.conn⟩
  obtain ⟨hclosed, hparted⟩ := hcore.closeConn
  have hphase : (p.parting s).phase = p.phase := phase_closeConn _
  refine ⟨hclosed, ?_, hphase.trans_ne h.caught, fun _ ↦ hparted, fun _ _ _ ↦ hparted, fun _ ↦ ?_,
    fun hswept ↦ ?_⟩
  · rw [Process.parting, status_closeConn, lines_closeConn]
    exact h.status
  · rw [shutdown_parting]
    rfl
  · rw [hphase] at hswept
    exact absurd hswept (h.not_swept hs)

theorem Good.mapShutdown {f : Shutdown → Shutdown} (hf : ∀ s, (f s).closing = s.closing)
    (l : List Signal) : Good { p with shutdown := p.shutdown.map f, uvCloses := l } := by
  refine ⟨⟨h.core.sound, h.core.held, h.core.conn⟩, h.status, h.caught, fun hphase ↦ ?_, ?_, ?_,
    fun hswept ↦ ?_⟩
  · exact ⟨(h.parted hphase).dht, (h.parted hphase).gone⟩
  · intro s hs hclosing
    obtain ⟨t, ht, rfl⟩ := Option.map_eq_some_iff.mp hs
    rw [hf] at hclosing
    exact ⟨(h.closing t ht hclosing).dht, (h.closing t ht hclosing).gone⟩
  · intro hblock
    rw [Option.isSome_map]
    exact h.block hblock
  · obtain ⟨hconn, hshutdown, hnone⟩ := h.swept hswept
    exact ⟨hconn, congrArg (Option.map f) hshutdown, hnone⟩

theorem Good.uvClose (x : Signal) : Good (p.uvClose x) :=
  h.mapShutdown (f := fun s ↦ { s with
    signal := Function.update s.signal x
      { s.signal x with handle := some .closing, watching := false } }) (fun _ ↦ rfl) _

theorem Good.beginShutdown : Good p.beginShutdown := by
  cases hs : p.shutdown with
  | none => rwa [beginShutdown_of_none hs]
  | some s =>
    cases hclosing : s.closing with
    | true => rwa [beginShutdown_of_closing hs hclosing]
    | false =>
      rw [beginShutdown_of_not_closing hs hclosing]
      split_ifs
      · exact h.parting hs
      · exact ((h.parting hs).uvClose .sigint).uvClose .sigterm

/-- A line is printed, and if it is an error the status is 1 from then on. -/
theorem Good.print (line : Line) (status : ℤ)
    (hstatus : status = if line.isError then 1 else p.status) :
    Good { p with lines := p.lines ++ [line], status := status } := by
  refine ⟨⟨h.core.sound, h.core.held, h.core.conn⟩, ?_, h.caught,
    fun hphase ↦ ⟨(h.parted hphase).dht, (h.parted hphase).gone⟩,
    fun s hs hclosing ↦ ⟨(h.closing s hs hclosing).dht, (h.closing s hs hclosing).gone⟩, h.block,
    h.swept⟩
  change status = if (p.lines ++ [line]).any Line.isError then 1 else 0
  rw [hstatus, h.status, List.any_append, List.any_cons, List.any_nil, Bool.or_false]
  cases line.isError <;> cases p.lines.any Line.isError <;> rfl

/-- **A failure** is printed, makes the status 1, and begins the shutdown. -/
theorem Good.fail (err : ℤ) : Good (p.fail err) :=
  (h.print (.error err) 1 rfl).beginShutdown

theorem Good.setConn {x y : Holesail} (hx : p.conn = some x)
    (hgone : Parted p → y.server = none ∧ y.client = none) : Good { p with conn := some y } := by
  have hparted : Parted p → Parted { p with conn := some y } := fun hparted ↦ by
    refine ⟨hparted.dht, fun z hz ↦ ?_⟩
    obtain rfl := Option.some.inj hz
    exact hgone hparted
  refine ⟨⟨h.core.sound, h.core.held, fun hnone ↦ absurd hnone (Option.some_ne_none y)⟩, h.status,
    h.caught, fun hphase ↦ hparted (h.parted hphase),
    fun s hs hclosing ↦ hparted (h.closing s hs hclosing), h.block, fun hswept ↦ ?_⟩
  exact absurd (hx.symm.trans (h.swept hswept).1) (Option.some_ne_none x)

theorem Good.listened (err : ℤ) : Good (p.listened err) := by
  unfold Process.listened
  split_ifs
  · exact h.fail err
  · split
    · exact h
    · next x hx =>
      have hset : Good { p with conn := some x.info.2 } :=
        h.setConn hx fun hparted ↦ hparted.gone x hx
      exact hset.print _ _ rfl

end Good

theorem Good.foldl_listened (h : Good p) (errs : List ℤ) :
    Good (errs.foldl Process.listened p) := by
  induction errs generalizing p with
  | nil => exact h
  | cons err errs ih => exact ih (h.listened err)

/-! ### The handlers then -/

variable {entered : Prop}

theorem Handlers.closeConn (h : Handlers env entered p) : Handlers env entered p.closeConn :=
  h.of_eq (shutdown_closeConn p) (uvCloses_closeConn p) (stranded_closeConn p)

/-- **Both handles are closed**, the first time. -/
theorem Handlers.beginShutdown (h : Handlers env entered p) :
    Handlers env entered p.beginShutdown := by
  cases hs : p.shutdown with
  | none => rwa [beginShutdown_of_none hs]
  | some s =>
    cases hclosing : s.closing with
    | true => rwa [beginShutdown_of_closing hs hclosing]
    | false =>
      obtain ⟨hsignal, hsame, hcloses, hstranded, hentered⟩ := h.of_not_closing hs hclosing
      have hcloses' : (p.parting s).uvCloses = [] := (uvCloses_closeConn _).trans hcloses
      have hstranded' : (p.parting s).stranded = [] := (stranded_closeConn _).trans hstranded
      rw [beginShutdown_of_not_closing hs hclosing]
      split_ifs with hinstalled
      · exact .fresh _ (shutdown_parting p s) hsignal hsame (fun _ ↦ hinstalled) hcloses' hstranded'
          hentered
      · have hleaving : (((p.parting s).uvClose .sigint).uvClose .sigterm).shutdown = some
            { s with
              closing := true
              signal := fun x ↦ { s.signal x with
                handle := some .closing
                watching := false } } := by
          rw [uvClose, uvClose, shutdown_parting]
          refine congrArg some (congrArg (Shutdown.mk · _ _) ?_)
          funext x
          cases x <;> rfl
        refine .leaving _ hleaving (hsame.symm.trans (Bool.of_not_eq_false hinstalled)) rfl
          (fun _ ↦ rfl) (fun _ ↦ Or.inl rfl) ?_ hstranded' hentered
        rw [uvClose, uvClose, hcloses']
        rfl

theorem Handlers.fail (h : Handlers env entered p) (err : ℤ) :
    Handlers env entered (p.fail err) :=
  Handlers.beginShutdown (h.of_eq rfl rfl rfl)

theorem Handlers.listened (h : Handlers env entered p) (err : ℤ) :
    Handlers env entered (p.listened err) := by
  unfold Process.listened
  split_ifs
  · exact h.fail err
  · split
    · exact h
    · exact h.of_eq rfl rfl rfl

theorem Handlers.foldl_listened (h : Handlers env entered p) (errs : List ℤ) :
    Handlers env entered (errs.foldl Process.listened p) := by
  induction errs generalizing p with
  | nil => exact h
  | cons err errs ih => exact ih (h.listened err)

/-! ## The beginning -/

/-- `run_endpoint` gets as far as installing the handlers. -/
def Entered (C : Crypto) (env : Env) (options : Options) : Prop :=
  env.loopInit = 0 ∧ ∃ h, Holesail.new C options env.random = .ok h

/-- **Nothing is thrown** out of `run_endpoint`. -/
theorem exists_ready {h : Holesail} {random : Bytes32}
    (hnew : Holesail.new C options random = .ok h)
    (env : Holesail.ReadyEnv) : ∃ rc h', h.ready C env = (.ok rc, h') := by
  have heq := Holesail.new_eq hnew
  by_cases hserver : h.options.server = true
  · have hderived : h.derived = derive C h.options random := by rw [heq]
    rcases Holesail.ready_server hserver hderived env with ⟨rc, hready⟩ | ⟨rc, s, hready, -⟩
    · exact ⟨rc, h, hready⟩
    · exact ⟨rc, _, hready⟩
  · unfold Holesail.ready
    split_ifs
    · exact ⟨_, _, rfl⟩
    · exact ⟨_, _, rfl⟩
    · simp only [hserver, Bool.false_eq_true, if_false]
      exact ⟨_, _, rfl⟩

theorem good_hold (env : Env) (h h' : Holesail) : Good ((entering env h).hold h') := by
  have hlines : (entering env h).lines.any Line.isError = false := by
    change (if (install env).installed then [] else [Line.noHandlers]).any Line.isError = false
    split_ifs <;> rfl
  have hclosing : ∀ s ∈ some (install env), ¬s.closing = true := by
    rintro s hs
    obtain rfl := Option.some.inj hs
    exact Bool.false_ne_true
  have hrunning : ¬(Phase.running = .sweeping ∨ Phase.running = .exited) := by decide
  have hstatus : (entering env h).status
      = if (entering env h).lines.any Line.isError then 1 else 0 := by
    rw [hlines]
    rfl
  unfold hold
  dsimp only
  split_ifs
  · exact ⟨⟨Dhts.sound_empty.create, rfl, fun hnone ↦ absurd hnone (Option.some_ne_none h')⟩,
      hstatus, Phase.noConfusion, fun hphase ↦ absurd rfl hphase,
      fun s hs hclosed ↦ absurd hclosed (hclosing s hs), fun _ ↦ rfl,
      fun hswept ↦ absurd hswept hrunning⟩
  · exact ⟨⟨Dhts.sound_empty, rfl, fun hnone ↦ absurd hnone (Option.some_ne_none h')⟩,
      hstatus, Phase.noConfusion, fun hphase ↦ absurd rfl hphase,
      fun s hs hclosed ↦ absurd hclosed (hclosing s hs), fun _ ↦ rfl,
      fun hswept ↦ absurd hswept hrunning⟩

theorem good_runEndpoint (C : Crypto) (env : Env) (options : Options) :
    Good (runEndpoint C env options) ∧
      Handlers env (Entered C env options) (runEndpoint C env options) := by
  have hempty : ∀ phase lines, (phase = .sweeping ∨ phase = .exited) →
      lines.any Line.isError = true →
      Good { phase := phase, status := 1, lines := lines } := by
    intro phase lines hphase hlines
    refine ⟨⟨Dhts.sound_empty, rfl, fun _ ↦ rfl⟩, ?_, ?_, fun _ ↦ ⟨rfl, ?_⟩, ?_, ?_,
      fun _ ↦ ⟨rfl, rfl, fun _ ↦ rfl⟩⟩
    · rw [hlines, if_pos rfl]
    · rcases hphase with rfl | rfl <;> exact Phase.noConfusion
    · exact fun x hx ↦ absurd hx (Option.not_mem_none x)
    · exact fun x hx ↦ absurd hx (Option.not_mem_none x)
    · rintro (hblock | hblock) <;> rcases hphase with rfl | rfl <;> exact Phase.noConfusion hblock
  unfold runEndpoint
  split_ifs with hloop
  · exact ⟨hempty _ _ (Or.inr rfl) rfl, .never rfl rfl rfl fun hentered ↦ hloop hentered.1⟩
  · split
    · next e hnew =>
      refine ⟨hempty _ _ (Or.inl rfl) rfl, .never rfl rfl rfl fun hentered ↦ ?_⟩
      obtain ⟨h, hok⟩ := hentered.2
      exact absurd (hnew.symm.trans hok) (by simp)
    · next h hnew =>
      obtain ⟨rc, h', hready⟩ := exists_ready hnew env.ready
      have hentered : Entered C env options := ⟨not_not.mp hloop, h, hnew⟩
      have hgood := (good_hold env h h').foldl_listened (calledBack h')
      have hhandlers : Handlers env (Entered C env options) ((entering env h).hold h') := by
        unfold hold
        dsimp only
        split_ifs <;>
          exact .fresh (install env) rfl rfl rfl (fun hclosing ↦ Bool.noConfusion hclosing) rfl rfl
            hentered
      have hhandlers' := hhandlers.foldl_listened (calledBack h')
      unfold ready
      rw [hready]
      dsimp only
      split_ifs
      · exact ⟨hgood.fail rc, hhandlers'.fail rc⟩
      · exact ⟨hgood, hhandlers'⟩

/-! ## Every event -/

/-- The server and the client are those of an endpoint that was not closed. -/
theorem exists_conn_of_server {s : HolesailServer} (hs : p.server = some s) :
    ∃ x, p.conn = some x ∧ x.server = some s := Option.bind_eq_some_iff.mp hs

theorem exists_conn_of_client {c : HolesailClient} (hc : p.client = some c) :
    ∃ x, p.conn = some x ∧ x.client = some c := Option.bind_eq_some_iff.mp hc

theorem Good.setServer (h : Good p) {s : HolesailServer} (hs : p.server = some s)
    (s' : HolesailServer) : Good (p.setServer s') := by
  obtain ⟨x, hx, hserver⟩ := exists_conn_of_server hs
  have hset := h.setConn (y := { x with server := some s' }) hx fun hparted ↦
    absurd (hserver.symm.trans (hparted.gone x hx).1) (Option.some_ne_none s)
  rwa [Process.setServer, hx]

theorem Good.setClient (h : Good p) {c : HolesailClient} (hc : p.client = some c)
    (c' : HolesailClient) : Good (p.setClient c') := by
  obtain ⟨x, hx, hclient⟩ := exists_conn_of_client hc
  have hset := h.setConn (y := { x with client := some c' }) hx fun hparted ↦
    absurd (hclient.symm.trans (hparted.gone x hx).2) (Option.some_ne_none c)
  rwa [Process.setClient, hx]

theorem returned_of_running (hphase : p.phase = .running) :
    p.returned = { p.closeConn with phase := .draining } := by
  rw [Process.returned, hphase]

theorem returned_of_draining (hphase : p.phase = .draining) : p.returned = p.endBlock := by
  rw [Process.returned, hphase]

theorem returned_of_sweeping (hphase : p.phase = .sweeping) :
    p.returned = { p with phase := .exited } := by
  rw [Process.returned, hphase]

theorem Good.endBlock (h : Good p) (hphase : p.phase = .draining)
    (hnone : ∀ i, p.dhts.reapers i = none) : Good p.endBlock := by
  have hparted := h.parted (by rw [hphase]; decide)
  obtain ⟨hclosed, hdhts⟩ := hparted.closeConn
  have hwalk : p.endBlock.dhts = p.dhts := by
    change p.closeConn.dhts.walk = p.dhts
    rw [hdhts]
    exact Dhts.walk_of_none hnone
  have hdht : p.endBlock.dht = none := hclosed.dht
  refine ⟨⟨?_, ?_, fun _ ↦ hdht⟩, ?_, Phase.noConfusion,
    fun _ ↦ ⟨hdht, fun x hx ↦ absurd hx (Option.not_mem_none x)⟩,
    fun x hx ↦ absurd hx (Option.not_mem_none x), ?_, fun _ ↦ ⟨rfl, rfl, ?_⟩⟩
  · rw [hwalk]
    exact h.core.sound
  · rw [hwalk, hdht, h.core.held, hparted.dht]
  · change p.closeConn.status = if p.closeConn.lines.any Line.isError then 1 else 0
    rw [status_closeConn, lines_closeConn]
    exact h.status
  · rintro (hblock | hblock) <;> exact Phase.noConfusion hblock
  · rw [hwalk]
    exact hnone

theorem Good.returned (h : Good p) (he : p.Enabled .returned) : Good p.returned := by
  obtain ⟨⟨hexited, hthrew⟩, -, -, hover⟩ := he
  have hnone := h.core.sound.over_iff.mp hover
  cases hphase : p.phase with
  | running =>
    rw [returned_of_running hphase]
    obtain ⟨hcore, hparted⟩ := h.core.closeConn
    have hblock := h.block (Or.inl hphase)
    refine ⟨⟨hcore.sound, hcore.held, hcore.conn⟩, ?_, Phase.noConfusion,
      fun _ ↦ ⟨hparted.dht, hparted.gone⟩, fun _ _ _ ↦ ⟨hparted.dht, hparted.gone⟩,
      fun _ ↦ (congrArg Option.isSome (shutdown_closeConn p)).trans hblock, ?_⟩
    · change p.closeConn.status = if p.closeConn.lines.any Line.isError then 1 else 0
      rw [status_closeConn, lines_closeConn]
      exact h.status
    · rintro (hswept | hswept) <;> exact Phase.noConfusion hswept
  | draining =>
    rw [returned_of_draining hphase]
    exact h.endBlock hphase hnone
  | sweeping =>
    rw [returned_of_sweeping hphase]
    have hparted := h.parted (by rw [hphase]; decide)
    refine ⟨⟨h.core.sound, h.core.held, h.core.conn⟩, h.status, Phase.noConfusion,
      fun _ ↦ ⟨hparted.dht, hparted.gone⟩,
      fun s hs hclosing ↦ ⟨(h.closing s hs hclosing).dht, (h.closing s hs hclosing).gone⟩,
      ?_, fun _ ↦ h.swept (Or.inl hphase)⟩
    rintro (hblock | hblock) <;> exact Phase.noConfusion hblock
  | exited => exact absurd hphase hexited
  | threw => exact absurd hphase hthrew

theorem Good.step (h : Good p) (he : p.Enabled e) : Good (p.step e) := by
  cases e with
  | listening =>
    obtain ⟨s, hs⟩ := Option.isSome_iff_exists.mp he.2
    simp only [Process.step, hs]
    split_ifs
    · exact (h.setServer hs _).listened 0
    · exact h.setServer hs _
  | value seq value =>
    obtain ⟨-, c, hc, -⟩ := he
    simp only [Process.step, Option.mem_def.mp hc]
    exact h.setClient hc _
  | done listen =>
    obtain ⟨-, c, hc, -⟩ := he
    simp only [Process.step, Option.mem_def.mp hc]
    exact (h.setClient hc _).foldl_listened _
  | caught s => exact h.beginShutdown
  | signalClosed x =>
    exact h.mapShutdown (f := fun s ↦ { s with
      signal := Function.update s.signal x { s.signal x with handle := some .closed } })
      (fun _ ↦ rfl) _
  | dhts c =>
    obtain ⟨-, hdue⟩ := he
    refine ⟨⟨(h.core.sound.call hdue).1, (Dhts.held_call _ c).trans h.core.held, h.core.conn⟩,
      h.status, h.caught, fun hphase ↦ ⟨(h.parted hphase).dht, (h.parted hphase).gone⟩,
      fun s hs hclosing ↦ ⟨(h.closing s hs hclosing).dht, (h.closing s hs hclosing).gone⟩, h.block,
      fun hswept ↦ ?_⟩
    obtain ⟨i, r, hr, -⟩ := Dhts.exists_reaper_of_due hdue
    rw [(h.swept hswept).2.2 i] at hr
    exact absurd hr (Option.not_mem_none r)
  | returned => exact h.returned he

theorem not_awaits {s : Shutdown} (hs : p.shutdown = some s) {x : Signal} (h : ¬p.Awaits x) :
    (s.signal x).watching = false ∧ (s.signal x).handle ≠ some .closing :=
  ⟨Bool.of_not_eq_true fun hwatching ↦ h ⟨s, hs, Or.inl hwatching⟩,
    fun hclosing ↦ h ⟨s, hs, Or.inr hclosing⟩⟩

theorem openSignals_of_shutdown {s : Shutdown} (hs : p.shutdown = some s) :
    p.openSignals = [.sigint, .sigterm].filter fun x ↦ (s.signal x).handle = some .opened := by
  rw [openSignals, hs]
  refine List.filter_congr fun x _ ↦ ?_
  simp only [Option.map_some, Option.some.injEq]

/-- **The block ends** and takes the storage of the handles with it. -/
theorem Handlers.endBlock (h : Handlers env entered p) {s : Shutdown} (hs : p.shutdown = some s)
    (hrest : ∀ x, ¬p.Awaits x) : Handlers env entered p.endBlock := by
  have hopen : p.closeConn.openSignals
      = [.sigint, .sigterm].filter fun x ↦ (s.signal x).handle = some .opened :=
    openSignals_of_shutdown ((shutdown_closeConn p).trans hs)
  have hcloses : p.endBlock.uvCloses = p.uvCloses ++ p.closeConn.openSignals :=
    congrArg (· ++ _) (uvCloses_closeConn p)
  cases h with
  | fresh s' hs' hsignal _ _ hnone _ hentered =>
    obtain rfl := Option.some.inj (hs.symm.trans hs')
    rw [hsignal] at hopen
    refine .left rfl (fun x ↦ ?_) ?_ hopen hentered
    · rw [← hsignal]
      exact (not_awaits hs (hrest x)).1
    · rw [hcloses, hnone]
      exact hopen
  | leaving s' hs' hinstalled _ _ hhandle hboth _ hentered =>
    obtain rfl := Option.some.inj (hs.symm.trans hs')
    have hnone : p.closeConn.openSignals = [] := by
      rw [hopen, List.filter_eq_nil_iff]
      intro x _
      rw [(hhandle x).resolve_left (not_awaits hs (hrest x)).2]
      decide
    refine .orderly rfl hinstalled ?_ hnone hentered
    rw [hcloses, hnone, List.append_nil, hboth]
  | never hs' => exact absurd (hs.symm.trans hs') (Option.some_ne_none s)
  | orderly hs' => exact absurd (hs.symm.trans hs') (Option.some_ne_none s)
  | left hs' => exact absurd (hs.symm.trans hs') (Option.some_ne_none s)

theorem Handlers.returned (h : Handlers env entered p) (hgood : Good p)
    (he : p.Enabled .returned) : Handlers env entered p.returned := by
  obtain ⟨⟨hexited, hthrew⟩, hsigint, hsigterm, -⟩ := he
  cases hphase : p.phase with
  | running =>
    rw [returned_of_running hphase]
    exact h.closeConn.of_eq rfl rfl rfl
  | draining =>
    rw [returned_of_draining hphase]
    obtain ⟨s, hs⟩ := Option.isSome_iff_exists.mp (hgood.block (Or.inr hphase))
    refine h.endBlock hs fun x ↦ ?_
    cases x with
    | sigint => exact hsigint
    | sigterm => exact hsigterm
  | sweeping =>
    rw [returned_of_sweeping hphase]
    exact h.of_eq rfl rfl rfl
  | exited => exact absurd hphase hexited
  | threw => exact absurd hphase hthrew

theorem Handlers.step (h : Handlers env entered p) (hgood : Good p) (he : p.Enabled e) :
    Handlers env entered (p.step e) := by
  cases e with
  | listening =>
    obtain ⟨s, hs⟩ := Option.isSome_iff_exists.mp he.2
    have hset : Handlers env entered (p.setServer s.listeningCb) := h.of_eq rfl rfl rfl
    simp only [Process.step, hs]
    split_ifs
    · exact hset.listened 0
    · exact hset
  | value seq value =>
    obtain ⟨-, c, hc, -⟩ := he
    simp only [Process.step, Option.mem_def.mp hc]
    exact h.of_eq rfl rfl rfl
  | done listen =>
    obtain ⟨-, c, hc, -⟩ := he
    have hset : Handlers env entered (p.setClient (c.mutableDoneCb listen)) := h.of_eq rfl rfl rfl
    simp only [Process.step, Option.mem_def.mp hc]
    exact hset.foldl_listened _
  | caught s => exact h.beginShutdown
  | signalClosed x =>
    obtain ⟨-, s, hs, hclosing⟩ := he
    have hshutdown : (p.step (.signalClosed x)).shutdown = some { s with
        signal := Function.update s.signal x { s.signal x with handle := some .closed } } := by
      rw [Process.step, Option.mem_def.mp hs]
      rfl
    cases h with
    | fresh s' hs' hsignal =>
      obtain rfl := Option.some.inj (hs.symm.trans hs')
      rw [hsignal] at hclosing
      refine absurd hclosing ?_
      rw [install]
      cases x <;> dsimp only <;> split_ifs <;> decide
    | leaving s' hs' hinstalled hbegun hdeaf hhandle hcloses hstranded hentered =>
      obtain rfl := Option.some.inj (hs.symm.trans hs')
      refine .leaving _ hshutdown hinstalled hbegun (fun y ↦ ?_) (fun y ↦ ?_) hcloses hstranded
        hentered
      · by_cases hy : y = x
        · rw [hy]
          dsimp only
          rw [Function.update_self]
          exact hdeaf x
        · dsimp only
          rw [Function.update_of_ne hy]
          exact hdeaf y
      · by_cases hy : y = x
        · rw [hy]
          dsimp only
          rw [Function.update_self]
          exact Or.inr rfl
        · dsimp only
          rw [Function.update_of_ne hy]
          exact hhandle y
    | never hs' => exact absurd (hs.symm.trans hs') (Option.some_ne_none s)
    | orderly hs' => exact absurd (hs.symm.trans hs') (Option.some_ne_none s)
    | left hs' => exact absurd (hs.symm.trans hs') (Option.some_ne_none s)
  | dhts c => exact h.of_eq rfl rfl rfl
  | returned => exact h.returned hgood he

/-! ## The end -/

section Runs

variable {es : List Event}

theorem good_run (henabled : Along step Enabled (runEndpoint C env options) es) :
    Good (run step (runEndpoint C env options) es) ∧
      Handlers env (Entered C env options) (run step (runEndpoint C env options) es) :=
  invariant_of_along (P := fun p ↦ Good p ∧ Handlers env (Entered C env options) p)
    (fun _ _ hp he ↦ ⟨hp.1.step he, hp.2.step hp.1 he⟩) (good_runEndpoint C env options) henabled

/-- **The end of the process.** Whatever the world answers and in whatever order the loop calls
back: the exit status is 1 if an error was printed and 0 otherwise; every DHT was destroyed,
withdrawn and freed, once each and in that order; every reaper is gone; and no handle of a signal
was closed twice. -/
theorem process_exited (henabled : Along step Enabled (runEndpoint C env options) es)
    (hexited : (run step (runEndpoint C env options) es).phase = .exited) :
    let p := run step (runEndpoint C env options) es
    (p.status = if p.lines.any Line.isError then 1 else 0) ∧
      (∀ d < p.dhts.created, p.dhts.history d = Dhts.script) ∧
      (∀ i, p.dhts.reapers i = none) ∧ p.uvCloses.Nodup := by
  obtain ⟨hgood, hhandlers⟩ := good_run henabled
  obtain ⟨-, -, hnone⟩ := hgood.swept (Or.inr hexited)
  have hheld := hgood.core.held
  rw [(hgood.parted (by rw [hexited]; decide)).dht] at hheld
  refine ⟨hgood.status, fun d hd ↦ ?_, hnone, ?_⟩
  · refine hgood.core.sound.gone d hd ?_ fun i r hr ↦ ?_
    · rw [hheld]
      exact List.not_mem_nil
    · rw [hnone i] at hr
      exact absurd hr (Option.not_mem_none r)
  · cases hhandlers with
    | fresh _ _ _ _ _ hcloses => rw [hcloses]; exact List.nodup_nil
    | leaving _ _ _ _ _ _ hcloses => rw [hcloses]; decide
    | never _ hcloses => rw [hcloses]; exact List.nodup_nil
    | orderly _ _ hcloses => rw [hcloses]; decide
    | left _ _ hcloses => rw [hcloses]; exact List.Nodup.filter _ (by decide)

/-- The world, where everything succeeds. -/
def smooth : Env := { random := vectorSeed, ready := { random := vectorSeed } }

/-- A server is interrupted twice while it is up, and the loop returns three times. -/
def interrupted : List Event :=
  [.listening, .caught .sigint, .dhts (.timer 0), .signalClosed .sigterm, .dhts (.withdrawn 0)] ++
    List.replicate 16 (.dhts (.timer 0)) ++
    [.signalClosed .sigint, .dhts (.closed 0), .returned, .returned, .returned]

/-- It exits with 0, and its DHT is gone. -/
theorem process_exited_interrupted :
    let p := run step (runEndpoint vectorCrypto smooth Holesail.vectorOptions) interrupted
    p.status = 0 ∧ p.dhts.created = 1 ∧ p.dhts.history 0 = Dhts.script ∧
      p.uvCloses = [.sigint, .sigterm] := by
  have henabled : Along step Enabled (runEndpoint vectorCrypto smooth Holesail.vectorOptions)
      interrupted := by decide +kernel
  obtain ⟨hstatus, hhistory, -, -⟩ := process_exited henabled (by decide +kernel)
  refine ⟨hstatus.trans (by decide +kernel), by decide +kernel, hhistory 0 (by decide +kernel),
    by decide +kernel⟩

theorem installed_install_iff :
    (install env).installed = true ↔ env.init .sigint = 0 ∧ env.init .sigterm = 0 := by
  rw [install, decide_eq_true_iff]

theorem opened_eq_nil_iff : opened env = [] ↔ env.init .sigint ≠ 0 := by
  rw [opened, List.filter_eq_nil_iff]
  constructor
  · intro hnone hinit
    refine hnone .sigint List.mem_cons_self ?_
    rw [install]
    simp only [if_pos hinit, decide_true]
  · intro hinit x _
    rw [install]
    cases x with
    | sigint => simp only [if_neg hinit, decide_eq_true_iff, reduceCtorEq, not_false_iff]
    | sigterm =>
      simp only [if_neg fun h : _ ∧ _ ↦ hinit h.1, decide_eq_true_iff, reduceCtorEq, not_false_iff]

/-- **When a handle outlives its storage.** `drain_and_close` runs after the block that holds the
handles of the signals. If watching a signal succeeds once both are initialised, it finds one of
them still open exactly when the first was initialised and the second was not. -/
theorem stranded_iff (hentered : Entered C env options)
    (hstart : env.start .sigint = 0 ∨ env.start .sigterm = 0)
    (henabled : Along step Enabled (runEndpoint C env options) es)
    (hexited : (run step (runEndpoint C env options) es).phase = .exited) :
    (run step (runEndpoint C env options) es).stranded ≠ [] ↔
      env.init .sigint = 0 ∧ env.init .sigterm ≠ 0 := by
  obtain ⟨hgood, hhandlers⟩ := good_run henabled
  obtain ⟨-, hshutdown, -⟩ := hgood.swept (Or.inr hexited)
  cases hhandlers with
  | fresh s hs => exact absurd (hs.symm.trans hshutdown) (Option.some_ne_none s)
  | leaving s hs => exact absurd (hs.symm.trans hshutdown) (Option.some_ne_none s)
  | never _ _ _ hnever => exact absurd hentered hnever
  | orderly _ hinstalled _ hstranded =>
    rw [hstranded]
    have hboth := installed_install_iff.mp hinstalled
    exact iff_of_false (not_not.mpr rfl) fun h ↦ h.2 hboth.2
  | left _ hdeaf _ hstranded =>
    rw [hstranded, Ne, opened_eq_nil_iff, not_not]
    refine ⟨fun hsigint ↦ ⟨hsigint, fun hsigterm ↦ ?_⟩, And.left⟩
    -- Both are initialised, so that one of them is watched.
    have hnot : ∀ x, ¬env.start x = 0 := by
      intro x hx
      have hwatching : ((install env).signal x).watching = true := by
        cases x <;> exact decide_eq_true ⟨⟨hsigint, hsigterm⟩, hx⟩
      exact absurd (hwatching.symm.trans (hdeaf x)) (by decide)
    exact hstart.elim (hnot .sigint) (hnot .sigterm)

/-- The second signal cannot be initialised, and the server cannot listen. -/
def halfDeaf : Env where
  random := vectorSeed
  init := fun
    | .sigint => 0
    | .sigterm => -24
  ready := { random := vectorSeed, start := { listen := -98 } }

/-- The loop gets rid of the DHT and returns three times. -/
def failing : List Event :=
  [.dhts (.timer 0), .dhts (.withdrawn 0)] ++ List.replicate 16 (.dhts (.timer 0)) ++
    [.dhts (.closed 0), .returned, .returned, .returned]

/-- The handle of the first signal is left. -/
theorem stranded_iff_halfDeaf :
    (run step (runEndpoint vectorCrypto halfDeaf Holesail.vectorOptions) failing).stranded ≠
      [] := by
  have hentered : Entered vectorCrypto halfDeaf Holesail.vectorOptions := ⟨rfl, _, rfl⟩
  have henabled : Along step Enabled (runEndpoint vectorCrypto halfDeaf Holesail.vectorOptions)
      failing := by decide +kernel
  exact (stranded_iff hentered (Or.inl rfl) henabled (by decide +kernel)).mpr (by decide)

/-! ## How long it takes -/

def closingSignals (p : Process) : List Signal :=
  [.sigint, .sigterm].filter fun x ↦
    (p.shutdown.map fun s ↦ (s.signal x).handle) = some (some .closing)

/-- How often `uv_run` still has to return. -/
def Phase.left : Phase → ℕ
  | .running => 3
  | .draining => 2
  | .sweeping => 1
  | .exited | .threw => 0

/-- How many callbacks are left, and returns. -/
def left (p : Process) : ℕ :=
  p.dhts.outstanding + p.closingSignals.length + Phase.left p.phase

/-- The shutdown has begun. -/
structure Ending (env : Env) (entered : Prop) (p : Process) : Prop where
  good : Good p
  handlers : Handlers env entered p
  begun : ∀ s ∈ p.shutdown, s.closing = true

namespace Ending

variable (h : Ending env entered p)

include h

theorem parted : Parted p := by
  cases hs : p.shutdown with
  | some s => exact h.good.closing s hs (h.begun s hs)
  | none =>
    refine h.good.parted fun hphase ↦ ?_
    have hsome := h.good.block (Or.inl hphase)
    rw [hs] at hsome
    exact Bool.noConfusion hsome

theorem not_watching {s : Shutdown} (hs : p.shutdown = some s) (x : Signal) :
    (s.signal x).watching = false := by
  cases h.handlers with
  | fresh s' hs' hsignal hinstalled hclosing =>
    obtain rfl := Option.some.inj (hs.symm.trans hs')
    have hnot := hclosing (h.begun s hs)
    rw [hinstalled, ← Bool.not_eq_true, installed_install_iff] at hnot
    rw [hsignal]
    cases x <;> exact decide_eq_false fun hstart ↦ hnot hstart.1
  | leaving s' hs' _ _ hdeaf =>
    obtain rfl := Option.some.inj (hs.symm.trans hs')
    exact hdeaf x
  | never hs' => exact absurd (hs.symm.trans hs') (Option.some_ne_none s)
  | orderly hs' => exact absurd (hs.symm.trans hs') (Option.some_ne_none s)
  | left hs' => exact absurd (hs.symm.trans hs') (Option.some_ne_none s)

theorem event_cases (he : p.Enabled e) :
    (∃ x, e = .signalClosed x) ∨ (∃ c, e = .dhts c) ∨ e = .returned := by
  cases e with
  | listening =>
    obtain ⟨s, hs⟩ := Option.isSome_iff_exists.mp he.2
    obtain ⟨x, hx, hserver⟩ := exists_conn_of_server hs
    exact absurd (hserver.symm.trans (h.parted.gone x hx).1) (Option.some_ne_none s)
  | value seq value =>
    obtain ⟨-, c, hc, -⟩ := he
    obtain ⟨x, hx, hclient⟩ := exists_conn_of_client hc
    exact absurd (hclient.symm.trans (h.parted.gone x hx).2) (Option.some_ne_none c)
  | done listen =>
    obtain ⟨-, c, hc, -⟩ := he
    obtain ⟨x, hx, hclient⟩ := exists_conn_of_client hc
    exact absurd (hclient.symm.trans (h.parted.gone x hx).2) (Option.some_ne_none c)
  | caught x =>
    obtain ⟨-, s, hs, hwatching⟩ := he
    exact absurd (hwatching.symm.trans (h.not_watching hs x)) (by decide)
  | signalClosed x => exact Or.inl ⟨x, rfl⟩
  | dhts c => exact Or.inr (Or.inl ⟨c, rfl⟩)
  | returned => exact Or.inr (Or.inr rfl)

end Ending

theorem closingSignals_of_shutdown {s : Shutdown} (hs : p.shutdown = some s) :
    p.closingSignals = [.sigint, .sigterm].filter fun x ↦ (s.signal x).handle = some .closing := by
  rw [closingSignals, hs]
  refine List.filter_congr fun x _ ↦ ?_
  simp only [Option.map_some, Option.some.injEq]

theorem length_closingSignals {s : Shutdown} (hs : p.shutdown = some s) {x : Signal}
    (hclosing : (s.signal x).handle = some .closing) :
    p.closingSignals.length = (p.step (.signalClosed x)).closingSignals.length + 1 := by
  have hshutdown : (p.step (.signalClosed x)).shutdown = some { s with
      signal := Function.update s.signal x { s.signal x with handle := some .closed } } := by
    rw [Process.step, hs]
    rfl
  have hclosed : decide (some HandleState.closed = some .closing) = false := rfl
  rw [closingSignals_of_shutdown hs, closingSignals_of_shutdown hshutdown]
  cases x with
  | sigint =>
    have hother : Function.update s.signal .sigint { s.signal .sigint with handle := some .closed }
        .sigterm = s.signal .sigterm := Function.update_of_ne (by decide) _ _
    simp only [List.filter_cons, hclosing, Function.update_self, hother, decide_true, if_true,
      hclosed, Bool.false_eq_true, if_false, List.length_cons, List.filter_nil]
  | sigterm =>
    have hother : Function.update s.signal .sigterm
        { s.signal .sigterm with handle := some .closed } .sigint = s.signal .sigint :=
      Function.update_of_ne (by decide) _ _
    simp only [List.filter_cons, hclosing, Function.update_self, hother, decide_true, if_true,
      hclosed, Bool.false_eq_true, if_false]
    split_ifs <;> rfl

theorem closingSignals_of_rest (hrest : ∀ x, ¬p.Awaits x) : p.closingSignals = [] := by
  refine List.filter_eq_nil_iff.mpr fun x _ ↦ ?_
  cases hs : p.shutdown with
  | none => exact fun hnone ↦ Option.some_ne_none _ (of_decide_eq_true hnone).symm
  | some s =>
    intro hclosing
    exact (not_awaits hs (hrest x)).2 (Option.some.inj (of_decide_eq_true hclosing))

theorem Ending.returned (h : Ending env entered p) (he : p.Enabled .returned) :
    (∀ s ∈ p.returned.shutdown, s.closing = true) ∧ p.left = p.returned.left + 1 := by
  obtain ⟨⟨hexited, hthrew⟩, hsigint, hsigterm, hover⟩ := he
  have hrest : ∀ x, ¬p.Awaits x := by
    intro x
    cases x with
    | sigint => exact hsigint
    | sigterm => exact hsigterm
  have hnone := h.good.core.sound.over_iff.mp hover
  have hdhts := h.parted.closeConn.2
  have hclosing := closingSignals_of_rest hrest
  have hshutdown := shutdown_closeConn p
  cases hphase : p.phase with
  | running =>
    rw [returned_of_running hphase]
    refine ⟨fun s hs ↦ h.begun s (hshutdown ▸ hs), ?_⟩
    have hsame : closingSignals { p.closeConn with phase := .draining } = p.closingSignals := by
      rw [closingSignals, closingSignals]
      simp only [hshutdown]
    rw [left, left, hsame, hphase]
    dsimp only
    rw [hdhts]
    rfl
  | draining =>
    rw [returned_of_draining hphase]
    have hwalk : p.endBlock.dhts = p.dhts := by
      change p.closeConn.dhts.walk = p.dhts
      rw [hdhts]
      exact Dhts.walk_of_none hnone
    refine ⟨fun s hs ↦ absurd hs (Option.not_mem_none s), ?_⟩
    rw [left, left, hclosing, hwalk, hphase]
    rfl
  | sweeping =>
    rw [returned_of_sweeping hphase]
    refine ⟨h.begun, ?_⟩
    rw [left, left, hphase]
    rfl
  | exited => exact absurd hphase hexited
  | threw => exact absurd hphase hthrew

/-- **The step lemma.** Whatever comes next, there is one less to come. -/
theorem Ending.step (h : Ending env entered p) (he : p.Enabled e) :
    Ending env entered (p.step e) ∧ p.left = (p.step e).left + 1 := by
  have hgood := h.good.step he
  have hhandlers := h.handlers.step h.good he
  rcases h.event_cases he with ⟨x, rfl⟩ | ⟨c, rfl⟩ | rfl
  · obtain ⟨-, s, hs, hclosing⟩ := he
    refine ⟨⟨hgood, hhandlers, fun t ht ↦ ?_⟩, ?_⟩
    · obtain ⟨t', ht', rfl⟩ := Option.map_eq_some_iff.mp ht
      exact h.begun t' ht'
    · rw [left, left, length_closingSignals hs hclosing]
      change _ = p.dhts.outstanding + _ + Phase.left p.phase + 1
      omega
  · obtain ⟨-, hdue⟩ := he
    refine ⟨⟨hgood, hhandlers, h.begun⟩, ?_⟩
    have hleft := (h.good.core.sound.call hdue).2
    change _ = (p.dhts.call c).outstanding + p.closingSignals.length + Phase.left p.phase + 1
    rw [left, hleft]
    omega
  · obtain ⟨hbegun, hleft⟩ := h.returned he
    exact ⟨⟨hgood, hhandlers, hbegun⟩, hleft⟩

/-- **No shutdown is stuck.** -/
theorem Ending.exists_enabled (h : Ending env entered p) (hexited : p.phase ≠ .exited) :
    ∃ e, p.Enabled e := by
  have hlooping : p.Looping := ⟨hexited, h.good.caught⟩
  by_cases hover : p.dhts.Over
  · by_cases hawaits : ∃ x, p.Awaits x
    · obtain ⟨x, s, hs, hwatching | hclosing⟩ := hawaits
      · exact absurd (hwatching.symm.trans (h.not_watching hs x)) (by decide)
      · exact ⟨.signalClosed x, hlooping, s, hs, hclosing⟩
    · exact ⟨.returned, hlooping, fun hsigint ↦ hawaits ⟨_, hsigint⟩,
        fun hsigterm ↦ hawaits ⟨_, hsigterm⟩, hover⟩
  · rw [h.good.core.sound.over_iff] at hover
    obtain ⟨i, hi⟩ := not_forall.mp hover
    obtain ⟨r, hr⟩ := Option.ne_none_iff_exists'.mp hi
    obtain ⟨c, hc⟩ := h.good.core.sound.exists_due_of_mem (Option.mem_def.mpr hr)
    exact ⟨.dhts c, hlooping, hc⟩

theorem Ending.run (h : Ending env entered p) {fs : List Event}
    (hfs : Along Process.step Enabled p fs) :
    Ending env entered (Run.run Process.step p fs) ∧
      p.left = (Run.run Process.step p fs).left + fs.length :=
  ⟨invariant_of_along (fun _ _ h he ↦ (h.step he).1) h hfs,
    rank_eq_of_along (fun _ _ h he ↦ h.step he) h hfs⟩

end Runs

end Process

end Holesail
