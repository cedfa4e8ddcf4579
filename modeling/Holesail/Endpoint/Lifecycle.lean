import Holesail.Endpoint.Holesail
import Holesail.Theory.Run

/-!
# The lifecycle of a server endpoint

The calls an application makes on a facade, together with the one callback that changes its state
in between, as the events of a machine. `Serves` is what all of them keep: whatever server there is
was built from the derived key, and there never is a client.

Nothing is assumed of the hash and of the keypair derivation but that they are functions.
-/

-- The facade is called `Holesail` in namespace `holesail`, and keeps both names.
set_option linter.dupNamespace false

namespace Holesail

open Run

variable {C : Crypto}

theorem randomHex32_ne_nil (random : Bytes32) : randomHex32 random ≠ [] := by
  intro h
  have hlen := congrArg List.length h
  rw [randomHex32, length_toHex, random.2] at hlen
  exact absurd hlen (by decide)

/-- A server either has a key, and the seed is its hash, or it is public and has neither. -/
theorem derive_server {options : Options} (h : options.server = true) (random : Bytes32) :
    ((derive C options random).key ≠ [] ∧
      (derive C options random).seedHex = hashHex C (derive C options random).key) ∨
    ((derive C options random).secure = false ∧ (derive C options random).key = [] ∧
      (derive C options random).seedHex = []) := by
  simp only [derive, if_pos h]
  by_cases hkey : (parseUrl (options.key.getD [])).key ≠ []
  · rw [if_pos hkey]
    exact Or.inl ⟨hkey, rfl⟩
  · rw [if_neg hkey]
    split_ifs with hsecure
    · exact Or.inl ⟨randomHex32_ne_nil random, rfl⟩
    · exact Or.inr ⟨Bool.eq_false_iff.mpr hsecure, rfl, rfl⟩

namespace Holesail

inductive Event where
  | ready (env : ReadyEnv)
  /-- The server's `listening_cb`. -/
  | listening
  | pause
  | resume
  | info
  | close

def step (C : Crypto) (h : Holesail) : Event → Holesail
  | .ready env => (h.ready C env).2
  | .listening => { h with server := h.server.map HolesailServer.listeningCb }
  | .pause => h.pause
  | .resume => h.resume
  | .info => h.info.2
  | .close => h.close

/-- A server holds the identity that its seed, and its seed the one that its key, gives it. -/
structure Identified (C : Crypto) (derived : Derived) (s : HolesailServer) : Prop where
  secure : s.config.secure = derived.secure
  keypair : s.keypair = C.keypairFromSeed s.seed
  seed : derived.key ≠ [] → s.seed = C.sha256 derived.key

/-- The invariant of a server endpoint. -/
structure Serves (C : Crypto) (o : Options) (d : Derived) (h : Holesail) : Prop where
  options : h.options = o
  derived : h.derived = d
  client : h.client = none
  server : ∀ s, h.server = some s → Identified C d s
  /-- The DHT lives exactly as long as the server on it, and both only once opened. -/
  dht : h.dht = h.server.isSome
  opened : h.dht = true → h.opened = true

namespace Identified

variable {derived : Derived} {s : HolesailServer}

theorem start (h : Identified C derived s) (env : HolesailServer.StartEnv) :
    Identified C derived (s.start env).2 := by
  obtain ⟨_, _, _, _, _, _, hstart⟩ := HolesailServer.start_eq (s := s) env
  rw [hstart]
  exact ⟨h.secure, h.keypair, h.seed⟩

theorem listeningCb (h : Identified C derived s) : Identified C derived s.listeningCb :=
  ⟨h.secure, h.keypair, h.seed⟩

theorem pause (h : Identified C derived s) : Identified C derived s.pause := by
  unfold HolesailServer.pause
  split_ifs <;> exact ⟨h.secure, h.keypair, h.seed⟩

theorem resume (h : Identified C derived s) : Identified C derived s.resume := by
  unfold HolesailServer.resume
  split_ifs <;> exact ⟨h.secure, h.keypair, h.seed⟩

theorem map {f : HolesailServer → HolesailServer} {server : Option HolesailServer}
    (hf : ∀ s, Identified C derived s → Identified C derived (f s))
    (h : ∀ s, server = some s → Identified C derived s) :
    ∀ s, server.map f = some s → Identified C derived s := by
  intro s hs
  obtain ⟨s', hs', rfl⟩ := Option.map_eq_some_iff.mp hs
  exact hf s' (h s' hs')

end Identified

theorem new_eq {options : Options} {random : Bytes32} {h : Holesail}
    (hnew : new C options random = .ok h) :
    h = { options := options, derived := derive C options random } := by
  unfold new at hnew
  cases hvalid : validateOpts options with
  | error e =>
    rw [hvalid] at hnew
    exact absurd hnew (by simp)
  | ok accepted =>
    have haccepted : accepted = options := by
      unfold validateOpts at hvalid
      split_ifs at hvalid
      exact (Except.ok.inj hvalid).symm
    rw [hvalid] at hnew
    subst haccepted
    exact (Except.ok.inj hnew).symm

/-- **The constructor does not throw.** What `ready` hands to the server always makes one, and that
server has the identity of the derived key. -/
theorem new_server {h : Holesail} {random : Bytes32} (hserver : h.options.server = true)
    (hderived : h.derived = derive C h.options random) (drawn : Bytes32) :
    ∃ s, HolesailServer.new C true h.serverConfig drawn = .ok s ∧ Identified C h.derived s := by
  rcases derive_server (C := C) hserver random with ⟨-, hseed⟩ | ⟨-, hkey, hseed⟩
  · rw [← hderived] at hseed
    exact ⟨_, HolesailServer.new_of_seed C true drawn hseed, rfl, rfl, fun _ ↦ rfl⟩
  · rw [← hderived] at hseed hkey
    exact ⟨_, HolesailServer.new_of_no_seed C true drawn hseed, rfl, rfl,
      fun hne ↦ absurd hkey hne⟩

/-- `ready` never throws. It either leaves the endpoint alone or starts a server on a fresh DHT. -/
theorem ready_server {h : Holesail} {random : Bytes32} (hserver : h.options.server = true)
    (hderived : h.derived = derive C h.options random) (env : ReadyEnv) :
    (∃ rc, h.ready C env = (.ok rc, h)) ∨
    ∃ rc s, h.ready C env = (.ok rc, { h with dht := true, opened := true, server := some s }) ∧
      Identified C h.derived s := by
  rw [ready]
  by_cases hdht : h.dht = true
  · rw [if_pos hdht]
    exact Or.inl ⟨_, rfl⟩
  · by_cases hcreated : env.created = false
    · rw [if_neg hdht, if_pos hcreated]
      exact Or.inl ⟨_, rfl⟩
    · obtain ⟨s, hnew, hs⟩ := new_server hserver hderived env.random
      have hconfig : ({ h with dht := true, opened := true } : Holesail).serverConfig
          = h.serverConfig := rfl
      rw [if_neg hdht, if_neg hcreated]
      simp only [if_pos hserver, hconfig, hnew]
      exact Or.inr ⟨_, _, rfl, hs.start env.start⟩

namespace Serves

variable {options : Options} {random : Bytes32} {h : Holesail}

theorem of_new (hnew : new C options random = .ok h) :
    Serves C options (derive C options random) h := by
  rw [new_eq hnew]
  exact ⟨rfl, rfl, rfl, fun s hs ↦ absurd hs (by simp), rfl, fun hdht ↦ absurd hdht (by simp)⟩

theorem step (hserver : options.server = true) (e : Event)
    (hs : Serves C options (derive C options random) h) :
    Serves C options (derive C options random) (h.step C e) := by
  cases e with
  | ready env =>
    have hopts : h.options.server = true := by rw [hs.options, hserver]
    have hderived : h.derived = derive C h.options random := by rw [hs.options, hs.derived]
    rcases ready_server hopts hderived env with ⟨rc, hready⟩ | ⟨rc, s, hready, hid⟩
    · rw [Holesail.step, hready]
      exact hs
    · rw [Holesail.step, hready]
      refine ⟨hs.options, hs.derived, hs.client, fun s' hs' ↦ ?_, rfl, fun _ ↦ rfl⟩
      rw [← Option.some.inj hs', ← hs.derived]
      exact hid
  | listening =>
    exact ⟨hs.options, hs.derived, hs.client,
      Identified.map (fun _ ↦ Identified.listeningCb) hs.server,
      hs.dht.trans Option.isSome_map.symm, hs.opened⟩
  | pause =>
    refine ⟨hs.options, hs.derived, ?_, Identified.map (fun _ ↦ Identified.pause) hs.server,
      hs.dht.trans Option.isSome_map.symm, hs.opened⟩
    exact congrArg (Option.map HolesailClient.pause) hs.client
  | resume =>
    refine ⟨hs.options, hs.derived, ?_, Identified.map (fun _ ↦ Identified.resume) hs.server,
      hs.dht.trans Option.isSome_map.symm, hs.opened⟩
    exact congrArg (Option.map HolesailClient.resume) hs.client
  | info => exact ⟨hs.options, hs.derived, hs.client, hs.server, hs.dht, hs.opened⟩
  | close =>
    exact ⟨hs.options, hs.derived, rfl, fun s h ↦ absurd h (by simp [Holesail.step, close]), rfl,
      fun h ↦ absurd h (by simp [Holesail.step, close])⟩

theorem run (hserver : options.server = true)
    (hs : Serves C options (derive C options random) h) (es : List Event) :
    Serves C options (derive C options random) (Run.run (Holesail.step C) h es) :=
  invariant (fun _ e hs ↦ hs.step hserver e) hs es

end Serves

/-- The url of a running server: the derived key in private mode, the public key otherwise. -/
theorem url_info_of_server {h : Holesail} {s : HolesailServer} (hs : h.server = some s)
    (hsecure : s.config.secure = h.derived.secure)
    (hkey : h.derived.secure = true → h.derived.key ≠ []) :
    h.info.1.url = makeUrl h.derived.secure
      (if h.derived.secure then h.derived.key else s.publicKeyZ32) := by
  simp only [info, hs]
  cases hmode : h.derived.secure with
  | true => rw [if_pos ⟨hkey hmode, rfl⟩, if_pos rfl]
  | false =>
    rw [if_neg fun hand ↦ absurd hand.2 Bool.false_ne_true, if_neg Bool.false_ne_true,
      HolesailServer.key, hsecure, hmode, if_neg Bool.false_ne_true, HolesailServer.publicKeyZ32]

end Holesail

end Holesail
