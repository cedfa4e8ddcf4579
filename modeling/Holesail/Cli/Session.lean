import Holesail.Cli.Invocation
import Holesail.Client.Query
import Holesail.Endpoint.Identity

/-!
# Two command lines

A server is started from one command line, and the url it prints is given to another. That one
starts a client which dials the server's public key, is let in by its firewall, and, once it has
read the server's record, listens on the port, the host and the transport that the first command
line asked for.

## Main results

* `configured_run`: a server keeps the configuration that its options say.
* `session`: from one command line to the other.
-/

-- The facade is called `Holesail` in namespace `holesail`, and keeps both names.
set_option linter.dupNamespace false

namespace Holesail

open Run

/-! ## What a server publishes -/

namespace HolesailServer

theorem new_config {C : Crypto} {dht : Bool} {config : Config} {random : Bytes32}
    {s : HolesailServer} (h : new C dht config random = .ok s) :
    s.config.record = config.record ∧ s.record = [] := by
  have hconfig : ∀ config' : Config, config'.record = config.record → ∀ seed : Bytes32,
      .ok (ofSeed C dht config' seed) = (.ok s : Except String HolesailServer) →
        s.config.record = config.record ∧ s.record = [] := by
    intro config' hsame seed hs
    obtain rfl := Except.ok.inj hs
    exact ⟨hsame, rfl⟩
  rw [new] at h
  split_ifs at h with hempty
  · split at h
    · split_ifs at h
      exact hconfig { config with seedHex := randomHex32 random } rfl _ h
    · exact absurd h (by simp)
  · split at h
    · split_ifs at h
      exact hconfig _ rfl _ h
    · exact absurd h (by simp)

end HolesailServer

namespace Holesail

variable {C : Crypto} {o : Options} {random : Bytes32} {h : Holesail}

/-- The record of the server is that of the options, before it is set and after. -/
def Configured (o : Options) (h : Holesail) : Prop :=
  ∀ s, h.server = some s → s.config.record = encodeRecord (o.host.getD (ascii "127.0.0.1"))
    (if o.udp.getD false then some true else none) (o.port.getD 0) ∧
      (s.record = [] ∨ s.record = s.config.record)

theorem Configured.map {f : HolesailServer → HolesailServer} (hc : Configured o h)
    (hf : ∀ s, (f s).config = s.config ∧ (f s).record = s.record) {h' : Holesail}
    (hserver : h'.server = h.server.map f) : Configured o h' := by
  intro s hs
  rw [hserver] at hs
  obtain ⟨s', hs', rfl⟩ := Option.map_eq_some_iff.mp hs
  rw [(hf s').1, (hf s').2]
  exact hc s' hs'

theorem Configured.ready (hc : Configured o h) (hs : Serves C o (derive C o random) h)
    (hserver : o.server = true) (env : ReadyEnv) : Configured o (h.ready C env).2 := by
  have hopts : h.options.server = true := by rw [hs.options, hserver]
  have hderived : h.derived = derive C h.options random := by rw [hs.options, hs.derived]
  rw [Holesail.ready]
  by_cases hdht : h.dht = true
  · rw [if_pos hdht]
    exact hc
  by_cases hcreated : env.created = false
  · rw [if_neg hdht, if_pos hcreated]
    exact hc
  obtain ⟨s, hnew, -⟩ := new_server hopts hderived env.random
  have hconfig : ({ h with dht := true, opened := true } : Holesail).serverConfig
      = h.serverConfig := rfl
  rw [if_neg hdht, if_neg hcreated]
  simp only [if_pos hopts, hconfig, hnew]
  intro s' hs'
  obtain ⟨hrecord, hempty⟩ := HolesailServer.new_config hnew
  obtain ⟨_, _, _, _, _, _, heq⟩ := HolesailServer.start_eq (s := s) env.start
  have hsame : (s.start env.start).2.config = s.config := by rw [heq]
  obtain rfl := Option.some.inj hs'
  rw [hsame]
  refine ⟨hrecord.trans ?_,
    (HolesailServer.start_cases s env.start).imp (·.1.trans hempty) And.left⟩
  rw [← hs.options]
  rfl

theorem Configured.step (hc : Configured o h) (hs : Serves C o (derive C o random) h)
    (hserver : o.server = true) (e : Event) : Configured o (h.step C e) := by
  cases e with
  | ready env => exact hc.ready hs hserver env
  | listening => exact hc.map (f := HolesailServer.listeningCb) (fun _ ↦ ⟨rfl, rfl⟩) rfl
  | pause =>
    refine hc.map (f := HolesailServer.pause) (fun s ↦ ?_) rfl
    unfold HolesailServer.pause
    split_ifs <;> exact ⟨rfl, rfl⟩
  | resume =>
    refine hc.map (f := HolesailServer.resume) (fun s ↦ ?_) rfl
    unfold HolesailServer.resume
    split_ifs <;> exact ⟨rfl, rfl⟩
  | info => exact hc
  | close => exact fun s hs ↦ absurd hs.symm (Option.some_ne_none s)

theorem configured_run (hserver : o.server = true) (hnew : new C o random = .ok h)
    (es : List Event) : Configured o (run (step C) h es) := by
  have hstart : Serves C o (derive C o random) h ∧ Configured o h := by
    refine ⟨Serves.of_new hnew, fun s hs ↦ ?_⟩
    rw [new_eq hnew] at hs
    exact absurd hs.symm (Option.some_ne_none s)
  exact (invariant (P := fun h ↦ Serves C o (derive C o random) h ∧ Configured o h)
    (fun _ e hh ↦ ⟨hh.1.step hserver e, hh.2.step hh.1 hserver e⟩) hstart es).2

theorem client_ready (hserver : h.options.server = false) (hdht : h.dht = false) {env : ReadyEnv}
    (hcreated : env.created = true) : (h.ready C env).2.client =
      some ((HolesailClient.new C true h.clientConfig).connect env.queried env.listen).2 := by
  rw [Holesail.ready, hdht, if_neg Bool.false_ne_true, hcreated, if_neg Bool.noConfusion]
  simp only [hserver, Bool.false_eq_true, if_false]
  rfl

end Holesail

/-! ## From one command line to the other -/

namespace Cli

open LastWins

/-- The command line names `url`, behind `--connect` or by itself, and asks for nothing else that
concerns the endpoint. -/
structure Quotes (argv : List Bytes) (url : Bytes) : Prop where
  url : Given argv (ascii "connect") (some (.value url)) ∧ Positionals argv [] ∨
    Given argv (ascii "connect") none ∧ Positionals argv [url]
  rest :
    ∀ name ∈ ["help", "h", "version", "key", "live", "port", "host", "udp", "public"].map ascii,
      Given argv name none

section Quotes

variable {argv : List Bytes} {secure : Bool} {key : Bytes}

theorem not_numeral_makeUrl (n : ℤ) : ¬Numeral (makeUrl secure key) n := by
  intro h
  have hhead : (makeUrl secure key).head? = some 0x68 := by cases secure <;> rfl
  generalize makeUrl secure key = url at h hhead
  cases h with
  | digits hne hdigit =>
    have := hdigit _ (List.mem_of_mem_head? hhead)
    exact absurd this (by decide)
  | minus => exact absurd (Option.some.inj hhead) (by decide)

theorem truthy_makeUrl {args : Args} {name : Bytes}
    (h : args.read name = some (.value (makeUrl secure key))) : truthy args name = true := by
  refine truthy_eq_true_iff.mpr (Or.inr ⟨_, h, ?_, fun hnum ↦ ?_⟩)
  · cases secure <;> exact List.cons_ne_nil _ _
  · obtain ⟨value, hvalue, hzero, -⟩ := Args.num_eq_some_iff.mp hnum
    obtain rfl := Setting.value.inj (Option.some.inj (h.symm.trans hvalue))
    exact not_numeral_makeUrl 0 hzero

/-- **The options of a client that is only given a url.** -/
theorem Quotes.run (h : Quotes argv (makeUrl secure key)) {sodiumInit : ℤ}
    (hsodium : 0 ≤ sodiumInit) :
    Cli.run sodiumInit argv
      = .endpoint { client := true, key := some (makeUrl secure key) } := by
  have hnone : ∀ name ∈ ["help", "h", "version", "key", "live", "port", "host", "udp",
      "public"].map ascii, (parseArgv argv).read name = none := fun name hname ↦
    given_iff.mp (h.rest name hname)
  have hurl := h.url
  rw [given_iff, given_iff, positionals_iff, positionals_iff] at hurl
  have hport := hnone (ascii "port") (by decide)
  have hlive := hnone (ascii "live") (by decide)
  have hoptions : clientOptions (parseArgv argv)
      = { client := true, key := some (makeUrl secure key) } := by
    have hkey : ((parseArgv argv).str (ascii "connect")).getD ((parseArgv argv).rest.head?.getD [])
        = makeUrl secure key := by
      rw [Args.str_eq]
      rcases hurl with ⟨hconnect, -⟩ | ⟨hconnect, hrest⟩
      · rw [hconnect]
        rfl
      · rw [hconnect, hrest]
        rfl
    have hhost : (parseArgv argv).str (ascii "host") = none := by
      rw [Args.str_eq, hnone _ (by decide)]
      rfl
    have hpublic : ¬(parseArgv argv).has (ascii "public") = true := by
      rw [Args.has_eq, hnone _ (by decide)]
      exact Bool.false_ne_true
    rw [clientOptions, commonOptions_of_read (b := none) (hnone _ (by decide)), hkey, hhost,
      if_neg hpublic]
    have hinvalid := port_clientOptions_of_none hport
    rw [clientOptions] at hinvalid
    simp only at hinvalid
    rw [hinvalid]
    rfl
  have haccepted : Accepted (parseArgv argv) := by
    refine accepted_of_none (hnone _ (by decide)) hlive (fun htruthy ↦ ?_) fun setting hs ↦ ?_
    · rcases hurl with ⟨-, hrest⟩ | ⟨hconnect, -⟩
      · exact hrest
      · exact absurd ((truthy_eq_false_of_none hconnect).symm.trans htruthy) (by decide)
    · exact absurd (hport.symm.trans hs) (Option.some_ne_none _).symm
  have hplain : Plain (parseArgv argv) :=
    ⟨hnone _ (by decide), hnone _ (by decide), hnone _ (by decide)⟩
  rw [← hoptions]
  refine run_of_connect hsodium haccepted hplain hlive ?_
  rcases hurl with ⟨hconnect, -⟩ | ⟨-, hrest⟩
  · exact Or.inl (truthy_makeUrl hconnect)
  · rw [hrest]
    exact Or.inr (List.cons_ne_nil _ _)

end Quotes

theorem serverOptions_of_run {sodiumInit : ℤ} {argv : List Bytes} {o : Options}
    (h : run sodiumInit argv = .endpoint o) (hserver : o.server = true) :
    ∃ setting port host, Given argv (ascii "live") (some setting) ∧ IsPort 1 setting port ∧
      o.port = some port ∧ o.host = some host ∧ host ≠ [] := by
  obtain ⟨haccepted, ⟨hlive, rfl⟩ | ⟨-, rfl⟩⟩ := accepted_of_run h
  · obtain ⟨setting, port, hread, hisPort, hport⟩ := haccepted.isPort_serverOptions hlive
    obtain ⟨host, hhost, hne⟩ := exists_host_serverOptions (parseArgv argv)
    exact ⟨setting, port, host, given_iff.mpr hread, hisPort, hport, hhost, hne⟩
  · exact absurd hserver Bool.false_ne_true

/-- **From one command line to the other.** Whatever happened to a server since its command line
started it, a command line that only names the url it prints starts a client; that client dials the
server's public key, with a keypair that the firewall accepts where there is one; and once its query
has brought what the server puts on the DHT, it listens on the port of `--live`, and on the host
and for the transport of the server. -/
theorem session {C : Crypto} {sodiumInit : ℤ} {argv : List Bytes} {o : Options} {random : Bytes32}
    {h : Holesail} (hrun : run sodiumInit argv = .endpoint o) (hserver : o.server = true)
    (hnew : Holesail.new C o random = .ok h) (es : List Holesail.Event) {s : HolesailServer}
    (hs : (Run.run (Holesail.step C) h es).server = some s) {sodiumInit' : ℤ}
    (hsodium : 0 ≤ sodiumInit') {argv' : List Bytes}
    (hquotes : Quotes argv' (Run.run (Holesail.step C) h es).info.1.url) :
    ∃ o', run sodiumInit' argv' = .endpoint o' ∧ ∀ random', ∃ hc,
      Holesail.new C o' random' = .ok hc ∧ ∀ env, env.created = true →
        JoinedBy C (derive C o random) s hc env ∧ (env.queried = true → s.record ≠ [] →
          ∃ setting port host c, Given argv (ascii "live") (some setting) ∧
            IsPort 1 setting port ∧ o.port = some port ∧ o.host = some host ∧
            (hc.ready C env).2.client = some c ∧ ∀ replies listen, replies ≠ [] →
              (∀ reply ∈ replies, ∃ ctx,
                (s.getDoneCb ctx).calls.getLast? = some (.mutablePut reply.2 reply.1)) →
              ((c.heard replies).mutableDoneCb listen).resolved
                = ⟨port, host, o.udp.getD false⟩) := by
  obtain ⟨setting, port, host, hlive, hisPort, hport, hhost, hne⟩ :=
    serverOptions_of_run hrun hserver
  obtain ⟨hid, hkey, hurl⟩ := Holesail.identified_of_running hserver hnew es hs
  rw [hurl] at hquotes
  refine ⟨_, hquotes.run hsodium, fun random' ↦ ⟨_, Holesail.new_client rfl rfl random', ?_⟩⟩
  intro env hcreated
  refine ⟨Holesail.joinedBy_of_identified hid hkey rfl rfl (Option.some_ne_none true).symm random'
    hcreated, ?_⟩
  intro hqueried hstarted
  -- What it was started with is what it publishes.
  obtain ⟨hconfig, hrecord⟩ := Holesail.configured_run hserver hnew es s hs
  have hrecord' := (hrecord.resolve_left hstarted).trans hconfig
  rw [hhost, hport, Option.getD_some, Option.getD_some] at hrecord'
  have hpositive : 1 ≤ port.toNat := by
    obtain ⟨_, n, -, -, hlo, -, hn⟩ := hisPort
    omega
  refine ⟨setting, port, host, _, hlive, hisPort, hport, hhost,
    Holesail.client_ready rfl rfl hcreated, fun replies listen hne' hputs ↦ ?_⟩
  rw [hqueried]
  refine ((HolesailClient.blank_new C ⟨rfl, rfl, rfl⟩).connect env.listen).resolved hne hpositive
    hne' (fun reply hreply ↦ ?_) listen
  obtain ⟨ctx, hput⟩ := hputs reply hreply
  rw [HolesailServer.getDoneCb, List.getLast?_concat, Option.some_inj] at hput
  rw [← (HolesailServer.DhtCall.mutablePut.inj hput).1, hrecord']

/-- A private UDP server with the key of the test vector. -/
def vectorSession : Options where
  server := true
  port := some 8080
  host := some kDefaultHost
  key := some vectorKey
  secure := some true
  udp := some true

/-- A client that is given its url. -/
theorem session_vector :
    let o := vectorSession
    let argv' := ["holesail", "hs://s000this-is-a-32-char-holesail-key!!"].map ascii
    ∃ s o', run 0 argv' = .endpoint o' ∧ ∃ hc, Holesail.new vectorCrypto o' vectorSeed = .ok hc ∧
      JoinedBy vectorCrypto (derive vectorCrypto o vectorSeed) s hc { random := vectorSeed } ∧
      ∃ c, (hc.ready vectorCrypto { random := vectorSeed }).2.client = some c ∧
        ((c.heard [(0, encodeRecord kDefaultHost (some true) 8080)]).mutableDoneCb 0).resolved
          = ⟨8080, kDefaultHost, true⟩ := by
  intro o argv'
  have hrun : run 0 (["holesail", "--udp", "--live", "8080",
      "--key=this-is-a-32-char-holesail-key!!"].map ascii) = .endpoint o := by decide +kernel
  have hnew : Holesail.new vectorCrypto o vectorSeed
      = .ok { options := o, derived := derive vectorCrypto o vectorSeed } := rfl
  have hquotes : Quotes argv' (ascii "hs://s000this-is-a-32-char-holesail-key!!") := by
    refine ⟨Or.inr ⟨given_iff.mpr (by decide +kernel), positionals_iff.mpr (by decide +kernel)⟩, ?_⟩
    intro name hname
    rw [given_iff]
    revert name
    decide +kernel
  let h : Holesail := { options := o, derived := derive vectorCrypto o vectorSeed }
  obtain ⟨s, hs, hrecord⟩ : ∃ s, (Run.run (Holesail.step vectorCrypto) h
      [.ready { random := vectorSeed }]).server = some s ∧
        s.record = encodeRecord kDefaultHost (some true) 8080 := ⟨_, rfl, rfl⟩
  have hstarted : s.record ≠ [] := hrecord ▸ encodeRecord_ne_nil _ _ _
  obtain ⟨o', hrun', hclient⟩ := session hrun rfl hnew [.ready { random := vectorSeed }] hs
    (Int.le_refl 0) hquotes
  obtain ⟨hc, hok, henv⟩ := hclient vectorSeed
  obtain ⟨hjoined, hmirrors⟩ := henv { random := vectorSeed } rfl
  obtain ⟨_, port, host, c, -, -, hport, hhost, hc', hresolved⟩ := hmirrors rfl hstarted
  obtain rfl := Option.some.inj hport
  obtain rfl := Option.some.inj hhost
  refine ⟨s, o', hrun', hc, hok, hjoined, c, hc', hresolved _ 0 (List.cons_ne_nil _ _) ?_⟩
  intro reply hreply
  obtain rfl := List.mem_singleton.mp hreply
  refine ⟨{}, ?_⟩
  rw [HolesailServer.getDoneCb, List.getLast?_concat, hrecord]
  rfl

end Cli

end Holesail
