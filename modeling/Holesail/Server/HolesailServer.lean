import Holesail.Codec.Keys
import Holesail.Codec.Record
import Holesail.Endpoint.Uv

/-!
# The server

`HolesailServer`: the identity it derives from its seed, the lifecycle from `start` to `destroy`,
and the rounds in which it publishes its record. The connections it accepts are modelled in
`Holesail.Server.Conn`.

What the DHT answers is an argument of each function that asks. Every call made on the DHT is
logged in `calls`, in order.
-/

namespace Holesail

namespace HolesailServer

structure Config where
  localPort : UInt16 := 0
  localHost : Bytes := ascii "127.0.0.1"
  seedHex : Bytes := []
  secure : Bool := true
  udp : Bool := false
deriving DecidableEq

/-- The record `start` publishes: the exact bytes of `record_`. -/
def Config.record (config : Config) : Bytes :=
  encodeRecord config.localHost (if config.udp then some true else none) config.localPort

inductive DhtCall where
  | serverCreate
  | setFirewall
  | serverListen
  | serverClose
  | suspend
  | resume
  | mutableGet
  | mutablePut (value : Bytes) (seq : UInt64)
deriving DecidableEq

/-- `GetCtx`: the newest reply one read of the record has seen. -/
structure GetCtx where
  seq : UInt64 := 0
  value : Bytes := []
  had : Bool := false
deriving DecidableEq

end HolesailServer

/-- The state of one `HolesailServer`. Pointers the source only tests for null are Booleans. -/
structure HolesailServer where
  dht : Bool
  config : HolesailServer.Config
  keypair : Keypair
  seed : Bytes32
  srv : Bool := false
  refresh : Bool := false
  record : Bytes := []
  state : EndpointState := .initial
  onListening : Bool := false
  /-- The reads of the record still in flight. -/
  gets : List HolesailServer.GetCtx := []
  calls : List HolesailServer.DhtCall := []
deriving DecidableEq

namespace HolesailServer

/-! ## Construction and identity -/

/-- A server with its identity derived and nothing started. -/
def ofSeed (C : Crypto) (dht : Bool) (config : Config) (seed : Bytes32) : HolesailServer where
  dht := dht
  config := config
  keypair := C.keypairFromSeed seed
  seed := seed

/-- The constructor. `random` is what `random_hex32` draws when the seed is left to it. -/
def new (C : Crypto) (dht : Bool) (config : Config) (random : Bytes32) :
    Except String HolesailServer :=
  let config := if config.seedHex = [] then { config with seedHex := randomHex32 random }
    else config
  match fromHex config.seedHex with
  | some bytes =>
    if h : bytes.length = 32 then
      .ok (ofSeed C dht config ⟨bytes, h⟩)
    else .error "seed must be 64 hex characters"
  | none => .error "seed must be 64 hex characters"

variable (s : HolesailServer)

def publicKey : Bytes32 := s.keypair.publicKey

/-- `key`: the seed in secure mode, the public key otherwise. -/
def key : Bytes :=
  if s.config.secure then z32Encode s.seed.1 else z32Encode s.publicKey.1

def publicKeyZ32 : Bytes := z32Encode s.publicKey.1

/-- `firewallCb`: 0 accepts. -/
def firewallCb (remotePk : Option Bytes32) : ℤ :=
  match remotePk with
  | some pk => if pk = s.publicKey then 0 else 1
  | none => 1

def nextSeq (hadRecord : Bool) (oldSeq : UInt64) (valueUnchanged : Bool) : UInt64 :=
  if !hadRecord then 0 else if valueUnchanged then oldSeq else oldSeq + 1

/-! ## The record -/

/-- `publish`: start a read of the record. `rc` is what `hyperdht_mutable_get` returns. -/
def publish (rc : ℤ) : HolesailServer :=
  if s.dht = false ∨ s.record = [] then s
  else { s with
    calls := s.calls ++ [.mutableGet]
    gets := if rc < 0 then s.gets else s.gets ++ [{}] }

/-- `getValueCb`: keep the newest reply. -/
def getValueCb (ctx : GetCtx) (seq : UInt64) (value : Option Bytes) : GetCtx :=
  match value with
  | none => ctx
  | some value => if ctx.had ∧ seq < ctx.seq then ctx else ⟨seq, value, true⟩

/-- `getDoneCb`: put the record with the sequence number the read calls for. -/
def getDoneCb (ctx : GetCtx) : HolesailServer :=
  let seq := nextSeq ctx.had ctx.seq (ctx.value = s.record)
  { s with calls := s.calls ++ [.mutablePut s.record seq] }

/-! ## Lifecycle -/

/-- What the DHT answers while `start` runs. -/
structure StartEnv where
  /-- `hyperdht_server_create` returned a server. -/
  created : Bool := true
  listen : ℤ := 0
  get : ℤ := 0

def start (env : StartEnv) : ℤ × HolesailServer :=
  if s.dht = false ∨ s.srv = true then (uvEINVAL, s)
  else
    let s := { s with calls := s.calls ++ [.serverCreate] }
    if env.created = false then (uvENOMEM, s)
    else
      let s := { s with srv := true, onListening := true }
      let s := if s.config.secure then { s with calls := s.calls ++ [.setFirewall] } else s
      let s := { s with calls := s.calls ++ [.serverListen] }
      if env.listen < 0 then (env.listen, s)
      else
        let s := { s with record := s.config.record }
        let s := s.publish env.get
        (0, { s with refresh := true })

def listeningCb : HolesailServer := { s with state := .listening }

def pause : HolesailServer :=
  if s.dht = false then s
  else { s with calls := s.calls ++ [.suspend], state := .paused }

def resume : HolesailServer :=
  if s.dht = false then s
  else { s with calls := s.calls ++ [.resume], state := .listening }

/-- `destroy`, apart from the connections. -/
def destroy : HolesailServer :=
  let s := { s with refresh := false }
  let s := if s.srv then { s with calls := s.calls ++ [.serverClose], srv := false } else s
  { s with state := .destroyed }

/-! ## What the lifecycle leaves alone -/

variable {s}

/-- The constructor accepts a seed of 64 hex digits and derives the identity from it. -/
theorem new_of_seed (C : Crypto) (dht : Bool) {config : Config} {seed : Bytes32} (random : Bytes32)
    (h : config.seedHex = toHex seed.1) :
    new C dht config random = .ok (ofSeed C dht config seed) := by
  have hne : config.seedHex ≠ [] := by
    rw [h]
    intro hnil
    have hlen := congrArg List.length hnil
    rw [length_toHex, seed.2] at hlen
    exact absurd hlen (by decide)
  rw [new, if_neg hne]
  simp only [h, fromHex_toHex, dif_pos seed.2]

theorem new_of_no_seed (C : Crypto) (dht : Bool) {config : Config} (random : Bytes32)
    (h : config.seedHex = []) :
    new C dht config random
      = .ok (ofSeed C dht { config with seedHex := toHex random.1 } random) := by
  rw [new, if_pos h]
  simp only [randomHex32, fromHex_toHex, dif_pos random.2]

/-- `start` issues calls, takes the server handle and sets the record and the flags of its own; the
identity, the lifecycle state and the reads of earlier rounds are not touched. -/
theorem start_eq (env : StartEnv) : ∃ (srv refresh onListening : Bool) (record : Bytes)
    (gets : List GetCtx) (calls : List DhtCall), (s.start env).2 = { s with
      srv := srv, refresh := refresh, onListening := onListening, record := record,
      gets := gets, calls := calls } := by
  unfold start
  by_cases hnull : s.dht = false ∨ s.srv = true
  · rw [if_pos hnull]
    exact ⟨_, _, _, _, _, _, rfl⟩
  · rw [if_neg hnull]
    by_cases hcreated : env.created = false
    · rw [if_pos hcreated]
      exact ⟨_, _, _, _, _, _, rfl⟩
    · rw [if_neg hcreated]
      cases s.config.secure <;> by_cases hlisten : env.listen < 0 <;>
        simp only [hlisten, if_true, if_false, publish] <;>
        split_ifs <;> exact ⟨_, _, _, _, _, _, rfl⟩

/-- `start` leaves the record and the reads alone, or sets the record and starts a read at most. -/
theorem start_cases (s : HolesailServer) (env : StartEnv) :
    (s.start env).2.record = s.record ∧ (s.start env).2.gets = s.gets ∨
      (s.start env).2.record = s.config.record ∧
        ((s.start env).2.gets = s.gets ∨
          (s.start env).2.gets = s.gets ++ [({} : GetCtx)]) := by
  unfold start
  by_cases hnull : s.dht = false ∨ s.srv = true
  · rw [if_pos hnull]
    exact Or.inl ⟨rfl, rfl⟩
  · rw [if_neg hnull]
    by_cases hcreated : env.created = false
    · rw [if_pos hcreated]
      exact Or.inl ⟨rfl, rfl⟩
    · rw [if_neg hcreated]
      by_cases hlisten : env.listen < 0
      · simp only [if_pos hlisten]
        split_ifs <;> exact Or.inl ⟨rfl, rfl⟩
      · -- The record is set, and `publish` reads what is there.
        refine Or.inr ?_
        simp only [if_neg hlisten, publish]
        split_ifs <;>
          first
            | exact ⟨rfl, Or.inl rfl⟩
            | exact ⟨rfl, Or.inr rfl⟩

/-- `destroy` drops the timer and the server handle; the identity and the record stay. -/
theorem destroy_eq (s : HolesailServer) : ∃ calls, s.destroy = { s with
    refresh := false, srv := false, state := .destroyed, calls := calls } := by
  unfold destroy
  cases hsrv : s.srv with
  | true => exact ⟨_, rfl⟩
  | false => exact ⟨s.calls, by simp only [Bool.false_eq_true, if_false]⟩

theorem record_start {env : StartEnv} (h : (s.start env).1 = 0) :
    (s.start env).2.record = s.config.record := by
  unfold start at h ⊢
  by_cases hnull : s.dht = false ∨ s.srv = true
  · rw [if_pos hnull] at h
    exact absurd (show uvEINVAL = 0 from h) (by decide)
  · rw [if_neg hnull] at h ⊢
    by_cases hcreated : env.created = false
    · simp only [if_pos hcreated] at h
      exact absurd h (by decide)
    · simp only [if_neg hcreated] at h ⊢
      by_cases hlisten : env.listen < 0
      · simp only [if_pos hlisten] at h
        exact absurd h (Int.ne_of_lt hlisten)
      · cases s.config.secure <;> simp only [if_neg hlisten, publish] <;> split_ifs <;> rfl

end HolesailServer

end Holesail
