import Holesail.Cli.Dispatch
import Holesail.Endpoint.Identity
import Holesail.Endpoint.Reaper

/-!
# The process of an endpoint

`run_endpoint`: a loop, the endpoint on it, and the handlers of two signals. The loop runs until
nothing is left to wait for. Then the endpoint is closed, if a signal or a failure has not closed it
before; the loop runs once more to get rid of the DHT; and `drain_and_close` sweeps up.

In what order the loop calls back is up to the events. It returns when nothing is left of what is
modelled here: signals that are watched or closing, and reapers.
-/

namespace Holesail

open Run

/-- The two signals that are caught. -/
inductive Signal where
  | sigint
  | sigterm
deriving DecidableEq

structure UvSignal where
  /-- Nothing, before `uv_signal_init` has succeeded. -/
  handle : Option HandleState := none
  watching : Bool := false
deriving DecidableEq

structure Shutdown where
  /-- `sigint` and `sigterm`. -/
  signal : Signal → UvSignal
  installed : Bool
  closing : Bool := false

inductive Line where
  | noLoop
  | badOptions (e : OptionsError)
  | noHandlers
  | error (err : ℤ)
  | started (info : Info)
deriving DecidableEq

def Line.isError : Line → Bool
  | .noLoop | .badOptions _ | .error _ => true
  | .noHandlers | .started _ => false

/-- How far `run_endpoint` has come. -/
inductive Phase where
  | running
  /-- The second `uv_run`. -/
  | draining
  /-- The `uv_run` of `drain_and_close`. -/
  | sweeping
  | exited
  /-- An exception has left `run_endpoint`. -/
  | threw
deriving DecidableEq

structure Process where
  phase : Phase := .running
  conn : Option Holesail := none
  /-- The number of the DHT of `conn`. -/
  dht : Option ℕ := none
  dhts : Dhts := {}
  shutdown : Option Shutdown := none
  /-- What `run_endpoint` returns. -/
  status : ℤ := 0
  lines : List Line := []
  /-- The signals on whose handles `uv_close` was called. -/
  uvCloses : List Signal := []
  /-- The signals whose handles were still open when their storage went. -/
  stranded : List Signal := []

namespace Process

/-! ## Closing -/

section Closing

variable (p : Process)

/-- `conn->close()`. -/
def closeConn : Process :=
  match p.conn with
  | none => p
  | some h => { p with conn := some h.close, dht := none, dhts := p.dhts.reapDht p.dht }

/-- `uv_close` on the handle of a signal. -/
def uvClose (s : Signal) : Process :=
  { p with
    shutdown := p.shutdown.map fun shutdown ↦ { shutdown with
      signal := Function.update shutdown.signal s
        { shutdown.signal s with handle := some .closing, watching := false } }
    uvCloses := p.uvCloses ++ [s] }

def beginShutdown : Process :=
  match p.shutdown with
  | none => p
  | some shutdown =>
    if shutdown.closing then p
    else
      let p := { p with shutdown := some { shutdown with closing := true } }
      let p := p.closeConn
      if shutdown.installed = false then p else (p.uvClose .sigint).uvClose .sigterm

def fail (err : ℤ) : Process :=
  beginShutdown { p with lines := p.lines ++ [.error err], status := 1 }

/-- The callback that `run_endpoint` passes to `ready`. -/
def listened (err : ℤ) : Process :=
  if err < 0 then p.fail err
  else match p.conn with
    | none => p
    | some h => { p with conn := some h.info.2, lines := p.lines ++ [.started h.info.1] }

end Closing

/-! ## Starting -/

/-- What the world answers while an endpoint is started. -/
structure Env where
  loopInit : ℤ := 0
  /-- What `random_hex32` draws while the key is derived. -/
  random : Bytes32
  /-- What `uv_signal_init` and `uv_signal_start` return. -/
  init : Signal → ℤ := fun _ ↦ 0
  start : Signal → ℤ := fun _ ↦ 0
  ready : Holesail.ReadyEnv

/-- The two signals, initialised and, if that went well, watched. -/
def install (env : Env) : Shutdown :=
  let sigint := env.init .sigint = 0
  -- `&&` does not initialise the second if the first has failed.
  let sigterm := sigint ∧ env.init .sigterm = 0
  { signal := fun
      | .sigint =>
        { handle := if sigint then some .opened else none
          watching := sigterm ∧ env.start .sigint = 0 }
      | .sigterm =>
        { handle := if sigterm then some .opened else none
          watching := sigterm ∧ env.start .sigterm = 0 }
    installed := sigterm }

/-- What the callback of `ready` is called with while `ready` runs. -/
def calledBack (h : Holesail) : List ℤ := (h.client.map HolesailClient.reported).getD []

/-- The endpoint is what `ready` made of it, and has the DHT that `ready` created. -/
def hold (h : Holesail) (p : Process) : Process :=
  let p := { p with conn := some h }
  if h.dht then { p with dht := some p.dhts.create.1, dhts := p.dhts.create.2 } else p

/-- `ready`, for an endpoint that was just made, and what `run_endpoint` does about it. -/
def ready (C : Crypto) (env : Holesail.ReadyEnv) (h : Holesail) (p : Process) : Process :=
  match h.ready C env with
  | (.error _, _) => { p with phase := .threw }
  | (.ok started, h') =>
    let p := (calledBack h').foldl listened (p.hold h')
    if started < 0 then p.fail started else p

/-- The process that is about to call `ready`. -/
def entering (env : Env) (h : Holesail) : Process where
  conn := some h
  shutdown := some (install env)
  lines := if (install env).installed then [] else [.noHandlers]

/-- `run_endpoint`, as far as the first `uv_run`. -/
def runEndpoint (C : Crypto) (env : Env) (options : Options) : Process :=
  if env.loopInit ≠ 0 then { phase := .exited, status := 1, lines := [.noLoop] }
  else match Holesail.new C options env.random with
    | .error e => { phase := .sweeping, status := 1, lines := [.badOptions e] }
    | .ok h => ready C env.ready h (entering env h)

/-! ## The loop -/

/-- What the loop calls back, and its return. -/
inductive Event where
  /-- The listening callback of the server. -/
  | listening
  /-- A reply to the client's read of the record. -/
  | value (seq : UInt64) (value : Option Bytes)
  /-- The read is over. `listen` is what the local proxy's `listen` returns. -/
  | done (listen : ℤ)
  | caught (s : Signal)
  | signalClosed (s : Signal)
  | dhts (e : Dhts.Callback)
  | returned

def setClient (p : Process) (c : HolesailClient) : Process :=
  { p with conn := p.conn.map fun h ↦ { h with client := some c } }

def setServer (p : Process) (s : HolesailServer) : Process :=
  { p with conn := p.conn.map fun h ↦ { h with server := some s } }

def server (p : Process) : Option HolesailServer := p.conn.bind Holesail.server

def client (p : Process) : Option HolesailClient := p.conn.bind Holesail.client

def openSignals (p : Process) : List Signal :=
  [.sigint, .sigterm].filter fun s ↦
    (p.shutdown.map fun shutdown ↦ (shutdown.signal s).handle) = some (some .opened)

/-- The block of `conn` and `shutdown` ends, and `drain_and_close` begins. Its `uv_walk` closes the
handles that are still open. -/
def endBlock (p : Process) : Process :=
  let p := p.closeConn
  { p with
    phase := .sweeping
    conn := none
    shutdown := none
    uvCloses := p.uvCloses ++ p.openSignals
    stranded := p.openSignals
    dhts := p.dhts.walk }

/-- `uv_run` returns. -/
def returned (p : Process) : Process :=
  match p.phase with
  | .running => { p.closeConn with phase := .draining }
  | .draining => p.endBlock
  | .sweeping => { p with phase := .exited }
  | .exited | .threw => p

def step (p : Process) : Event → Process
  | .listening =>
    match p.server with
    | none => p
    | some s =>
      let p := p.setServer s.listeningCb
      if s.onListening then p.listened 0 else p
  | .value seq value =>
    match p.client with
    | none => p
    | some c => p.setClient (c.mutableCb seq value)
  | .done listen =>
    match p.client with
    | none => p
    | some c =>
      let c' := c.mutableDoneCb listen
      (c'.reported.drop c.reported.length).foldl listened (p.setClient c')
  | .caught _ => p.beginShutdown
  | .signalClosed s =>
    { p with shutdown := p.shutdown.map fun shutdown ↦ { shutdown with
        signal := Function.update shutdown.signal s
          { shutdown.signal s with handle := some .closed } } }
  | .dhts e => { p with dhts := p.dhts.call e }
  | .returned => p.returned

/-- `run_endpoint` is in a `uv_run`. -/
def Looping (p : Process) : Prop := p.phase ≠ .exited ∧ p.phase ≠ .threw

instance (p : Process) : Decidable p.Looping := inferInstanceAs (Decidable (_ ∧ _))

/-- A signal keeps the loop waiting. -/
def Awaits (p : Process) (s : Signal) : Prop :=
  ∃ shutdown ∈ p.shutdown, (shutdown.signal s).watching = true ∨
    (shutdown.signal s).handle = some .closing

instance (p : Process) (s : Signal) : Decidable (p.Awaits s) :=
  inferInstanceAs (Decidable (∃ shutdown ∈ p.shutdown, _))

/-- The loop may do this next. -/
def Enabled (p : Process) : Event → Prop
  | .listening => p.Looping ∧ p.server.isSome = true
  | .value _ _ | .done _ => p.Looping ∧ ∃ c ∈ p.client, c.query = true
  | .caught s => p.Looping ∧ ∃ shutdown ∈ p.shutdown, (shutdown.signal s).watching = true
  | .signalClosed s =>
    p.Looping ∧ ∃ shutdown ∈ p.shutdown, (shutdown.signal s).handle = some .closing
  | .dhts e => p.Looping ∧ p.dhts.Due e
  | .returned => p.Looping ∧ ¬p.Awaits .sigint ∧ ¬p.Awaits .sigterm ∧ p.dhts.Over

instance (p : Process) : (e : Event) → Decidable (p.Enabled e)
  | .listening => inferInstanceAs (Decidable (_ ∧ _))
  | .value _ _ | .done _ => inferInstanceAs (Decidable (_ ∧ ∃ c ∈ p.client, _))
  | .caught _ | .signalClosed _ => inferInstanceAs (Decidable (_ ∧ ∃ s ∈ p.shutdown, _))
  | .dhts _ => inferInstanceAs (Decidable (_ ∧ _))
  | .returned => inferInstanceAs (Decidable (_ ∧ _))

end Process

end Holesail
