import Holesail.Client.HolesailClient
import Holesail.Server.HolesailServer

/-!
# The facade

`Holesail`: one endpoint, server or client. It checks its options, derives the key, the seed and
the mode from them, creates the DHT together with the server or client that borrows it, and tears
both down again. `info()` recomputes its report from whichever of server, client and options is
there to ask, and keeps the rest from the report before.
-/

-- The facade is called `Holesail` in namespace `holesail`, and keeps both names.
set_option linter.dupNamespace false

namespace Holesail

/-- `Options`, without the log level. -/
structure Options where
  server : Bool := false
  client : Bool := false
  port : Option UInt16 := none
  host : Option Bytes := none
  key : Option Bytes := none
  secure : Option Bool := none
  udp : Option Bool := none
deriving DecidableEq

structure Info where
  type : Bytes := []
  state : EndpointState := .initial
  secure : Bool := false
  port : UInt16 := 0
  host : Bytes := []
  protocol : Bytes := []
  seed : Bytes := []
  key : Bytes := []
  url : Bytes := []
  publicKey : Bytes := []
deriving DecidableEq

structure Derived where
  secure : Bool
  key : Bytes := []
  seedHex : Bytes := []
deriving DecidableEq

structure OptionsError where
  message : String
deriving DecidableEq

def validateOpts (options : Options) : Except OptionsError Options :=
  if (options.client ∧ options.key = none) ∨ options.key = some [] then
    .error ⟨"Key is empty"⟩
  else if options.server ∧ options.client then
    .error ⟨"Can not set both server and client at once"⟩
  else if options.server ∧ (options.host = none ∨ options.host = some []) then
    .error ⟨"No host specified"⟩
  else .ok options

def hashHex (C : Crypto) (key : Bytes) : Bytes := toHex (C.sha256 key).1

/-- `derive`. `random` is what `random_hex32` draws for a private server without a key. -/
def derive (C : Crypto) (options : Options) (random : Bytes32) : Derived :=
  let parsed := parseUrl (options.key.getD [])
  -- An `hs://s000` url decides on its own; only when it says nothing does the flag count.
  let secure := parsed.secure.getD (options.secure.getD false)
  if options.server then
    if parsed.key ≠ [] then ⟨secure, parsed.key, hashHex C parsed.key⟩
    else if secure then ⟨secure, randomHex32 random, hashHex C (randomHex32 random)⟩
    else ⟨secure, [], []⟩
  else ⟨secure, parsed.key, if secure then hashHex C parsed.key else []⟩

/-- The word `info()` uses for a transport. -/
def protocolName (udp : Bool) : Bytes := if udp then ascii "udp" else ascii "tcp"

structure Holesail where
  options : Options
  derived : Derived
  dht : Bool := false
  opened : Bool := false
  server : Option HolesailServer := none
  client : Option HolesailClient := none
  /-- `info_`: the last report. -/
  lastInfo : Info := {}
deriving DecidableEq

namespace Holesail

def new (C : Crypto) (options : Options) (random : Bytes32) : Except OptionsError Holesail :=
  match validateOpts options with
  | .error e => .error e
  | .ok options => .ok { options := options, derived := derive C options random }

/-- What the world answers while `ready` runs. -/
structure ReadyEnv where
  /-- `create_dht` returned a DHT. -/
  created : Bool := true
  /-- What `random_hex32` draws for a public server without a key. -/
  random : Bytes32
  start : HolesailServer.StartEnv := {}
  /-- `hyperdht_mutable_get_ex` returned a query. -/
  queried : Bool := true
  listen : ℤ := 0

variable (h : Holesail)

/-- The configuration `ready` hands to the server. -/
def serverConfig : HolesailServer.Config where
  localPort := h.options.port.getD 0
  localHost := h.options.host.getD (ascii "127.0.0.1")
  seedHex := h.derived.seedHex
  secure := h.derived.secure
  udp := h.options.udp.getD false

/-- The configuration `ready` hands to the client. -/
def clientConfig : HolesailClient.Config where
  key := h.derived.key
  secure := h.derived.secure
  localPort := h.options.port
  localHost := h.options.host
  udp := h.options.udp

/-- `ready`. The `Except` is what the server's constructor may throw. -/
def ready (C : Crypto) (env : ReadyEnv) : Except String ℤ × Holesail :=
  if h.dht then (.ok uvEALREADY, h)
  else if env.created = false then (.ok uvENOMEM, h)
  else
    let h := { h with dht := true, opened := true }
    if h.options.server then
      match HolesailServer.new C true h.serverConfig env.random with
      | .error e => (.error e, h)
      | .ok s => (.ok (s.start env.start).1, { h with server := some (s.start env.start).2 })
    else
      let c := (HolesailClient.new C true h.clientConfig).connect env.queried env.listen
      (.ok c.1, { h with client := some c.2 })

def pause : Holesail :=
  { h with
    server := h.server.map HolesailServer.pause
    client := h.client.map HolesailClient.pause }

def resume : Holesail :=
  { h with
    server := h.server.map HolesailServer.resume
    client := h.client.map HolesailClient.resume }

/-- `info`: the report, and the endpoint that remembers it. -/
def info : Info × Holesail :=
  let i := { h.lastInfo with
    type := if h.options.server then ascii "server" else ascii "client"
    secure := h.derived.secure
    seed := h.derived.seedHex }
  let (i, underlying) : Info × Bytes := match h.server, h.client with
    | some s, _ => ({ i with
        state := s.state
        port := s.config.localPort
        host := s.config.localHost
        protocol := protocolName s.config.udp
        publicKey := s.publicKeyZ32 }, s.key)
    | none, some c => ({ i with
        state := c.state
        port := c.resolved.port
        host := c.resolved.host
        protocol := protocolName c.resolved.udp
        publicKey := z32Encode c.target.1 }, h.derived.key)
    | none, none =>
      -- Once opened, these keep what the server or client reported last.
      (if h.opened then i else { i with
        port := h.options.port.getD 0
        host := h.options.host.getD []
        protocol := protocolName (h.options.udp.getD false) }, h.derived.key)
  let key := if h.derived.key ≠ [] ∧ h.derived.secure then h.derived.key else underlying
  let i := { i with key := key, url := makeUrl h.derived.secure key }
  (i, { h with lastInfo := i })

def close : Holesail :=
  let h := { h with
    server := h.server.map HolesailServer.destroy
    client := h.client.map HolesailClient.destroy }
  let h := h.info.2
  { h with
    server := none
    client := none
    dht := false
    lastInfo := { h.lastInfo with state := .destroyed } }

end Holesail

/-! ## Lookup -/

/-- The two interpretations of a key that `Holesail::lookup` queries: as the seed of the key it
reads, and as that key itself. -/
structure LookupArms where
  secure : Bool
  primary : Bytes32
  fallback : Bytes32
deriving DecidableEq

/-- The arms `Holesail::lookup` queries for a url; `none` is its `UV_EINVAL`. -/
def lookupArms (C : Crypto) (url : Bytes) : Option LookupArms :=
  let parsed := parseUrl url
  let secure := parsed.secure.getD false
  let arg := if secure then z32Encode (C.sha256 parsed.key).1 else parsed.key
  match z32Decode arg with
  | some raw =>
    if h : raw.length = 32 then
      some ⟨secure, (C.keypairFromSeed ⟨raw, h⟩).publicKey, ⟨raw, h⟩⟩
    else none
  | none => none

end Holesail
