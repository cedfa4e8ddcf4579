import Holesail.Codec.Keys
import Holesail.Codec.Record
import Holesail.Endpoint.Uv

/-!
# The client

`HolesailClient`: the target it resolves from its key, the read of the server's record, and the
lifecycle from `connect` to `destroy`. The connections it makes are modelled in
`Holesail.Client.Conn` and `Holesail.Client.Connections`.

What the DHT and the local listen answer are arguments of each function that asks.
-/

namespace Holesail

namespace HolesailClient

structure Config where
  key : Bytes
  secure : Bool := false
  localPort : Option UInt16 := none
  localHost : Option Bytes := none
  udp : Option Bool := none
deriving DecidableEq

structure Resolved where
  port : UInt16
  host : Bytes
  udp : Bool
deriving DecidableEq

def kDefaultPort : UInt16 := 8989

/-- `resolve`: an option beats the record, the record beats the default. -/
def resolve (config : Config) (record : Option Record) : Resolved :=
  let r : Resolved := ⟨kDefaultPort, ascii "127.0.0.1", false⟩
  let r := match record with
    | none => r
    | some record =>
      let r := match record.port with
        | some port => { r with port := port }
        | none => r
      let r := if record.host ≠ [] then { r with host := record.host } else r
      match record.udp with
        | some udp => { r with udp := udp }
        | none => r
  let r := match config.localPort with
    | some port => { r with port := port }
    | none => r
  let r := match config.localHost with
    | some host => { r with host := host }
    | none => r
  match config.udp with
    | some udp => { r with udp := udp }
    | none => r

/-- A call made on the DHT outside the connections. -/
inductive DhtCall where
  | mutableGet
  | suspend
  | resume
  | queryCancel
deriving DecidableEq

end HolesailClient

/-- The state of one `HolesailClient`, apart from its connections. -/
structure HolesailClient where
  dht : Bool
  config : HolesailClient.Config
  /-- The server's keypair, re-derived from the key in secure mode. -/
  keypair : Option Keypair
  target : Bytes32
  initError : ℤ := 0
  resolved : HolesailClient.Resolved := ⟨HolesailClient.kDefaultPort, ascii "127.0.0.1", false⟩
  record : Option Record := none
  recordSeq : UInt64 := 0
  query : Bool := false
  /-- `tcp_proxy_` and `udp_proxy_` are bound. -/
  tcpProxy : Bool := false
  udpProxy : Bool := false
  onListening : Bool := false
  state : EndpointState := .initial
  destroyed : Bool := false
  /-- What `on_listening` was called with, in order. -/
  reported : List ℤ := []
  calls : List HolesailClient.DhtCall := []
deriving DecidableEq

namespace HolesailClient

/-- The zeroes `target_{}` starts from. -/
def zero32 : Bytes32 := ⟨List.replicate 32 0, rfl⟩

/-- The constructor. In secure mode the key is hashed to the server's seed; in public mode it is
the public key itself, and a key that is not is reported by `connect`. -/
def new (C : Crypto) (dht : Bool) (config : Config) : HolesailClient :=
  if config.secure then
    let keypair := C.keypairFromSeed (C.sha256 config.key)
    { dht := dht, config := config, keypair := some keypair, target := keypair.publicKey }
  else
    let failed : HolesailClient :=
      { dht := dht, config := config, keypair := none, target := zero32, initError := uvEINVAL }
    match z32Decode config.key with
    | some raw =>
      if h : raw.length = 32 then
        { dht := dht, config := config, keypair := none, target := ⟨raw, h⟩ }
      else failed
    | none => failed

variable (c : HolesailClient)

/-- `start_proxy`. `listen` is what the proxy's `listen` returns. A socket that the proxy had bound
before is forgotten, not closed, so a `listen` that fails leaves it bound. -/
def startProxy (listen : ℤ) : ℤ × HolesailClient :=
  let resolved := resolve c.config c.record
  let c := { c with
    resolved := resolved
    udpProxy := c.udpProxy || resolved.udp && decide (listen = 0)
    tcpProxy := c.tcpProxy || !resolved.udp && decide (listen = 0) }
  let c := if listen = 0 then { c with state := .listening } else c
  let c := if c.onListening then
    { c with onListening := false, reported := c.reported ++ [listen] } else c
  (listen, c)

/-- `connect`. `started` says whether the read of the record could be started; without it the
proxy is started at once. -/
def connect (started : Bool) (listen : ℤ) : ℤ × HolesailClient :=
  if c.initError ≠ 0 then (c.initError, c)
  else if c.destroyed then (uvECANCELED, c)
  else if c.dht = false then (uvEINVAL, c)
  else
    let c : HolesailClient := { c with
      onListening := true
      state := .waiting
      calls := c.calls ++ [.mutableGet]
      query := started }
    if started = false then c.startProxy listen else (0, c)

/-- `mutable_cb`: keep the newest reply that decodes. -/
def mutableCb (seq : UInt64) (value : Option Bytes) : HolesailClient :=
  match value with
  | none => c
  | some value =>
    if c.destroyed ∨ value = [] then c
    else if c.record.isSome ∧ seq ≤ c.recordSeq then c
    else match decodeRecord value with
      | none => c
      | some r => { c with record := some r, recordSeq := seq }

def mutableDoneCb (listen : ℤ) : HolesailClient :=
  let c := { c with query := false }
  if c.destroyed then c else (c.startProxy listen).2

def pause : HolesailClient :=
  if c.destroyed ∨ c.dht = false then c
  else { c with calls := c.calls ++ [.suspend], state := .paused }

def resume : HolesailClient :=
  if c.destroyed ∨ c.dht = false then c
  else { c with calls := c.calls ++ [.resume], state := .listening }

/-- `destroy`, apart from the connections. The cancelled query's done callback finds `query_`
cleared and `destroyed_` set, so it does nothing. -/
def destroy : HolesailClient :=
  if c.destroyed then c
  else
    let c := { c with destroyed := true }
    let c := if c.query then { c with query := false, calls := c.calls ++ [.queryCancel] } else c
    { c with tcpProxy := false, udpProxy := false, state := .destroyed }

/-! ## Resolving -/

/-- Without overrides, a record that says everything decides everything. -/
theorem resolve_of_record {config : Config} {host : Bytes} {port : UInt16} {udp : Option Bool}
    (hport : config.localPort = none) (hhost : config.localHost = none) (hudp : config.udp = none)
    (hne : host ≠ []) :
    resolve config (some ⟨host, udp, some port⟩) = ⟨port, host, udp.getD false⟩ := by
  cases udp <;> simp only [resolve, hport, hhost, hudp, if_pos hne, Option.getD_none,
    Option.getD_some]

end HolesailClient

end Holesail
