import Holesail.Endpoint.Lifecycle

/-!
# One identity on both sides

The server path and the client path derive the connection's identity separately: the server hashes
its key to a seed, makes a keypair of it and prints a url; the client, and the lookup, take the url
apart again. This file says that the two agree for every key string, including one that carries an
`hs://` prefix of its own, in both modes.

Nothing is assumed of the hash and of the keypair derivation but that they are functions.
-/

-- The facade is called `Holesail` in namespace `holesail`, and keeps both names.
set_option linter.dupNamespace false

namespace Holesail

variable {C : Crypto}

/-- What a client makes of a printed url, unless a flag insists on private mode. -/
theorem derive_client_of_url {options : Options} {secure : Bool} {key : Bytes}
    (hserver : options.server = false) (hkey : options.key = some (makeUrl secure key))
    (hflag : options.secure ≠ some true) (random : Bytes32) :
    (derive C options random).secure = secure ∧ (derive C options random).key = key := by
  have hgetD : options.secure.getD false = false := by
    cases hs : options.secure with
    | none => rfl
    | some b =>
      cases b with
      | true => exact absurd hs hflag
      | false => rfl
  rw [derive, hkey, Option.getD_some, parseUrl_makeUrl, hserver]
  cases secure with
  | true => exact ⟨rfl, rfl⟩
  | false => exact ⟨hgetD, rfl⟩

/-- `connect` keeps what the constructor resolved from the key. -/
theorem HolesailClient.target_connect (c : HolesailClient) (started : Bool) (listen : ℤ) :
    (c.connect started listen).2.target = c.target ∧
      (c.connect started listen).2.keypair = c.keypair ∧
      (c.connect started listen).2.initError = c.initError := by
  have hproxy : ∀ c : HolesailClient, (c.startProxy listen).2.target = c.target ∧
      (c.startProxy listen).2.keypair = c.keypair ∧
      (c.startProxy listen).2.initError = c.initError := by
    intro c
    unfold startProxy
    by_cases hlisten : listen = 0 <;> cases c.onListening <;> simp [hlisten]
  unfold connect
  by_cases hinit : c.initError ≠ 0
  · simp only [if_pos hinit, and_self]
  · by_cases hdestroyed : c.destroyed = true
    · simp only [if_neg hinit, if_pos hdestroyed, and_self]
    · by_cases hdht : c.dht = false
      · simp only [if_neg hinit, if_neg hdestroyed, if_pos hdht, and_self]
      · simp only [if_neg hinit, if_neg hdestroyed, if_neg hdht]
        cases started with
        | true => exact ⟨rfl, rfl, rfl⟩
        | false => exact hproxy _

/-- `connect` does not touch the address either way, so the client that `ready` starts is the one
the constructor made, with its lifecycle begun. -/
theorem Holesail.ready_client {h : Holesail} (hserver : h.options.server = false)
    (hdht : h.dht = false) {env : ReadyEnv} (hcreated : env.created = true) :
    ∃ rc c, h.ready C env = (.ok rc, { h with dht := true, opened := true, client := some c }) ∧
      c.target = (HolesailClient.new C true h.clientConfig).target ∧
      c.keypair = (HolesailClient.new C true h.clientConfig).keypair ∧
      c.initError = (HolesailClient.new C true h.clientConfig).initError := by
  have hkeep := HolesailClient.target_connect (HolesailClient.new C true h.clientConfig)
    env.queried env.listen
  refine ⟨((HolesailClient.new C true h.clientConfig).connect env.queried env.listen).1, _, ?_,
    hkeep⟩
  rw [Holesail.ready, hdht, if_neg Bool.false_ne_true, hcreated, if_neg Bool.noConfusion]
  simp only [hserver, Bool.false_eq_true, if_false]
  rfl

/-- In secure mode the client hashes the key again: it gets the keypair itself. -/
theorem HolesailClient.new_secure (config : Config) (h : config.secure = true) :
    (HolesailClient.new C true config).keypair = some (C.keypairFromSeed (C.sha256 config.key)) ∧
      (HolesailClient.new C true config).target
        = (C.keypairFromSeed (C.sha256 config.key)).publicKey ∧
      (HolesailClient.new C true config).initError = 0 := by
  rw [HolesailClient.new, if_pos h]
  exact ⟨rfl, rfl, rfl⟩

/-- In public mode the key is the address. -/
theorem HolesailClient.new_public (config : Config) {pk : Bytes32} (h : config.secure = false)
    (hkey : config.key = z32Encode pk.1) :
    (HolesailClient.new C true config).target = pk ∧
      (HolesailClient.new C true config).initError = 0 := by
  simp only [HolesailClient.new, h, Bool.false_eq_true, if_false, hkey, z32Decode_z32Encode,
    dif_pos pk.2, and_self]

theorem lookupArms_secure (key : Bytes) :
    lookupArms C (makeUrl true key)
      = some ⟨true, (C.keypairFromSeed (C.sha256 key)).publicKey, C.sha256 key⟩ := by
  simp only [lookupArms, parseUrl_makeUrl, if_true, Option.getD_some, z32Decode_z32Encode,
    dif_pos (C.sha256 key).2]

/-- What a lookup of a printed public url queries: the second arm is the address itself. -/
theorem lookupArms_public (pk : Bytes32) :
    lookupArms C (makeUrl false (z32Encode pk.1))
      = some ⟨false, (C.keypairFromSeed pk).publicKey, pk⟩ := by
  simp only [lookupArms, parseUrl_makeUrl, Bool.false_eq_true, if_false, Option.getD_none,
    z32Decode_z32Encode, dif_pos pk.2]

/-! ## The server and everyone who reads its url -/

/-- The address a lookup must query to find the server: the primary arm reads the key as a seed,
the fallback arm reads it as the address. -/
def LookupArms.address (arms : LookupArms) : Bytes32 :=
  if arms.secure then arms.primary else arms.fallback

/-- The client started from `url` has the identity of the server `s`. -/
structure JoinedBy (C : Crypto) (derived : Derived) (s : HolesailServer) (hc : Holesail)
    (env : Holesail.ReadyEnv) : Prop where
  secure : hc.derived.secure = derived.secure
  target : ∃ rc c, (hc.ready C env).1 = .ok rc ∧ (hc.ready C env).2.client = some c ∧
    c.target = s.publicKey ∧ c.initError = 0 ∧
    (derived.secure = true →
      ∃ keypair, c.keypair = some keypair ∧ s.firewallCb (some keypair.publicKey) = 0)

namespace Holesail

open Run

theorem new_client {options : Options} {secure : Bool} {key : Bytes}
    (hserver : options.server = false) (hkey : options.key = some (makeUrl secure key))
    (random : Bytes32) :
    new C options random = .ok { options := options, derived := derive C options random } := by
  have hne : options.key ≠ some [] := by
    rw [hkey]
    cases secure <;> exact fun h ↦ absurd (Option.some.inj h) (List.cons_ne_nil _ _)
  have hvalid : validateOpts options = .ok options := by
    unfold validateOpts
    rw [if_neg (by rw [not_or]; exact ⟨fun h ↦ absurd (h.2.symm.trans hkey) (by simp), hne⟩),
      if_neg fun h ↦ absurd (h.1.symm.trans hserver) Bool.noConfusion,
      if_neg fun h ↦ absurd (h.1.symm.trans hserver) Bool.noConfusion]
  rw [new, hvalid]

/-- The url of a server that has the identity of the derived key leads back to that server. -/
theorem joinedBy_of_identified {derived : Derived} {s : HolesailServer}
    (hs : Identified C derived s) (hkey : derived.secure = true → derived.key ≠ [])
    {options : Options} (hserver : options.server = false)
    (hurl : options.key = some (makeUrl derived.secure
      (if derived.secure then derived.key else s.publicKeyZ32)))
    (hflag : options.secure ≠ some true) (random : Bytes32) {env : ReadyEnv}
    (hcreated : env.created = true) :
    JoinedBy C derived s { options := options, derived := derive C options random } env := by
  obtain ⟨hsecure, hderived⟩ := derive_client_of_url (C := C) hserver hurl hflag random
  refine ⟨hsecure, ?_⟩
  obtain ⟨rc, c, hready, htarget, hkeypair, hinit⟩ := ready_client (C := C)
    (h := { options := options, derived := derive C options random }) hserver rfl hcreated
  refine ⟨rc, c, by rw [hready], by rw [hready], ?_⟩
  rw [htarget, hkeypair, hinit]
  -- In secure mode both sides hash the same key; in public mode the client dials the public key
  -- it was given.
  cases hmode : derived.secure with
  | true =>
    rw [hmode, if_pos rfl] at hderived
    rw [hmode] at hsecure
    obtain ⟨hpair, haddr, hzero⟩ := HolesailClient.new_secure (C := C)
      ({ options := options, derived := derive C options random } : Holesail).clientConfig hsecure
    have hpk : (C.keypairFromSeed (C.sha256 (derive C options random).key)).publicKey
        = s.publicKey := by
      rw [hderived, HolesailServer.publicKey, hs.keypair, hs.seed (hkey hmode)]
    refine ⟨haddr.trans hpk, hzero, fun _ ↦ ⟨_, hpair, ?_⟩⟩
    exact if_pos hpk
  | false =>
    rw [hmode, if_neg Bool.false_ne_true] at hderived
    rw [hmode] at hsecure
    obtain ⟨haddr, hzero⟩ := HolesailClient.new_public (C := C)
      ({ options := options, derived := derive C options random } : Holesail).clientConfig hsecure
      hderived
    exact ⟨haddr, hzero, fun h ↦ absurd h Bool.false_ne_true⟩

theorem lookupArms_of_identified {derived : Derived} {s : HolesailServer}
    (hs : Identified C derived s) (hkey : derived.secure = true → derived.key ≠ []) :
    ∃ arms, lookupArms C (makeUrl derived.secure
      (if derived.secure then derived.key else s.publicKeyZ32)) = some arms ∧
      arms.secure = derived.secure ∧ arms.address = s.publicKey := by
  cases hmode : derived.secure with
  | true =>
    refine ⟨_, lookupArms_secure derived.key, rfl, ?_⟩
    rw [HolesailServer.publicKey, hs.keypair, hs.seed (hkey hmode)]
    rfl
  | false => exact ⟨_, lookupArms_public s.publicKey, rfl, rfl⟩

/-- What is known of a server endpoint that runs: who its server is, and the url it prints. -/
theorem identified_of_running {options : Options} {random : Bytes32} {h : Holesail}
    (hserver : options.server = true) (hnew : new C options random = .ok h) (es : List Event)
    {s : HolesailServer} (hs : (run (step C) h es).server = some s) :
    Identified C (derive C options random) s ∧
      ((derive C options random).secure = true → (derive C options random).key ≠ []) ∧
      (run (step C) h es).info.1.url = makeUrl (derive C options random).secure
        (if (derive C options random).secure then (derive C options random).key
          else s.publicKeyZ32) := by
  have hserves := (Serves.of_new hnew).run hserver es
  have hkey : (derive C options random).secure = true → (derive C options random).key ≠ [] := by
    intro hsecure
    rcases derive_server (C := C) hserver random with ⟨hne, -⟩ | ⟨hpublic, -⟩
    · exact hne
    · exact absurd (hsecure.symm.trans hpublic) Bool.noConfusion
  have hid := hserves.server s hs
  refine ⟨hid, hkey, ?_⟩
  have hurl := url_info_of_server hs (by rw [hid.secure, hserves.derived])
    (by rw [hserves.derived]; exact hkey)
  rwa [hserves.derived] at hurl

/-- A private server with the key of the test vector. -/
def vectorOptions : Options where
  server := true
  host := some (ascii "127.0.0.1")
  key := some vectorKey
  secure := some true

/-- A client with the url that server prints. -/
def vectorClientOptions : Options where
  client := true
  key := some (ascii "hs://s000" ++ vectorKey)

/-- **One identity on both sides.** Whatever options a server endpoint was made with and whatever
happened to it since, starting it does not throw; and while its server runs, the url it prints
leads a client, and a lookup, to that server's public key, with a keypair that the firewall
accepts where there is one. -/
theorem identity_of_url {options : Options} {random : Bytes32} {h : Holesail}
    (hserver : options.server = true) (hnew : new C options random = .ok h) (es : List Event) :
    (∀ env, ∃ rc, ((run (step C) h es).ready C env).1 = .ok rc) ∧
    ∀ s, (run (step C) h es).server = some s →
      (∀ (clientOptions : Options) (random' : Bytes32) (env : ReadyEnv),
        clientOptions.server = false →
        clientOptions.key = some (run (step C) h es).info.1.url →
        clientOptions.secure ≠ some true → env.created = true →
        ∃ hc, new C clientOptions random' = .ok hc ∧
          JoinedBy C (derive C options random) s hc env) ∧
      ∃ arms, lookupArms C (run (step C) h es).info.1.url = some arms ∧
        arms.secure = (derive C options random).secure ∧ arms.address = s.publicKey := by
  have hserves := (Serves.of_new hnew).run hserver es
  have hopts : (run (step C) h es).options.server = true := by rw [hserves.options, hserver]
  constructor
  · intro env
    have hderived : (run (step C) h es).derived
        = derive C (run (step C) h es).options random := by rw [hserves.derived, hserves.options]
    rcases ready_server hopts hderived env with ⟨rc, hready⟩ | ⟨rc, s, hready, -⟩
    · exact ⟨rc, by rw [hready]⟩
    · exact ⟨rc, by rw [hready]⟩
  · intro s hs
    obtain ⟨hid, hkey, hurl⟩ := identified_of_running hserver hnew es hs
    rw [hurl]
    refine ⟨fun clientOptions random' env hclient hckey hflag hcreated ↦ ?_,
      lookupArms_of_identified hid hkey⟩
    exact ⟨_, new_client hclient hckey random',
      joinedBy_of_identified hid hkey hclient hckey hflag random' hcreated⟩

/-- The private server of the test vector, and a client started from its url. -/
theorem identity_of_url_at :
    ∃ s, s.publicKey = vectorPublicKey ∧
      JoinedBy vectorCrypto ⟨true, vectorKey, toHex vectorSeed.1⟩ s
        { options := vectorClientOptions
          derived := derive vectorCrypto vectorClientOptions vectorSeed }
        { random := vectorSeed } ∧
      ∃ arms, lookupArms vectorCrypto (ascii "hs://s000" ++ vectorKey) = some arms ∧
        arms.address = vectorPublicKey := by
  have hnew : new vectorCrypto vectorOptions vectorSeed = .ok
      { options := vectorOptions
        derived := derive vectorCrypto vectorOptions vectorSeed } := rfl
  obtain ⟨-, hup⟩ := identity_of_url rfl hnew [.ready { random := vectorSeed }]
  obtain ⟨hclient, arms, harms, -, haddress⟩ := hup _ rfl
  obtain ⟨hc, hok, hjoined⟩ := hclient vectorClientOptions vectorSeed { random := vectorSeed }
    rfl rfl (by decide) rfl
  rw [← Except.ok.inj hok] at hjoined
  exact ⟨_, rfl, hjoined, arms, harms, haddress⟩

end Holesail

end Holesail
