import Holesail.Endpoint.Lifecycle

/-!
# What a public server reports

`info()` takes the key from the server while there is one and from the derived key once there is
none. For a public server these are different things: its public key, and the secret it was started
with. This file says what `close` does to the report, and which runs of an endpoint report nothing
but the public key.
-/

-- The facade is called `Holesail` in namespace `holesail`, and keeps both names.
set_option linter.dupNamespace false

namespace Holesail

open Run

variable {C : Crypto}

namespace Holesail

/-! ## The report in each state -/

section Report

variable {o : Options} {d : Derived} {h : Holesail}

theorem info_of_server (hs : Serves C o d h) (hsecure : d.secure = false) {s : HolesailServer}
    (hup : h.server = some s) :
    h.info.1.key = s.publicKeyZ32 ∧ h.info.1.url = makeUrl false s.publicKeyZ32 := by
  have hmode : h.derived.secure = false := by rw [hs.derived, hsecure]
  have hpublic : s.config.secure = false := by rw [(hs.server s hup).secure, hsecure]
  simp only [info, hup, hmode, Bool.false_eq_true, and_false, if_false, HolesailServer.key,
    hpublic, HolesailServer.publicKeyZ32, and_self]

theorem info_of_no_server (hs : Serves C o d h) (hsecure : d.secure = false)
    (hdown : h.server = none) :
    h.info.1.key = d.key ∧ h.info.1.url = makeUrl false d.key := by
  simp only [info, hdown, hs.client, hs.derived, hsecure, Bool.false_eq_true, and_false, if_false,
    and_self]

/-- What `close` does to the report: the state is `destroyed`, and the key and the url are built
from the derived key, whatever they were built from before. -/
theorem info_close (hs : Serves C o d h) (hsecure : d.secure = false) :
    h.close.info.1 = { h.info.1 with
      state := .destroyed
      key := d.key
      url := makeUrl false d.key } := by
  cases hserver : h.server with
  | some s =>
    have hopened : h.opened = true := hs.opened (by rw [hs.dht, hserver]; rfl)
    obtain ⟨calls, hdestroy⟩ := HolesailServer.destroy_eq s
    simp only [close, info, hserver, hs.client, Option.map_some, Option.map_none, hopened,
      hs.derived, hsecure, hdestroy, HolesailServer.publicKeyZ32, HolesailServer.publicKey,
      Bool.false_eq_true, and_false, if_false, if_true]
  | none =>
    cases hopened : h.opened <;>
      simp only [close, info, hserver, hs.client, Option.map_none, hopened, hs.derived, hsecure,
        Bool.false_eq_true, and_false, if_false, if_true]

end Report

/-! ## Runs that report the public key only -/

/-- One event, and the public key of the last server there was. -/
def watch (C : Crypto) (p : Holesail × Option Bytes) (e : Event) : Holesail × Option Bytes :=
  let h := p.1.step C e
  (h, (h.server.map HolesailServer.publicKeyZ32).or p.2)

/-- **What `info()` promises of a public server.** Once opened it reports the public key of the
last server, and the url made of it; and `close` changes the state it reports and nothing else. -/
structure Honest (C : Crypto) (h : Holesail) (es : List Event) : Prop where
  key : ∀ pre post, es = pre ++ post → (run (step C) h pre).opened = true →
    ∃ pk, (run (watch C) (h, none) pre).2 = some pk ∧ (run (step C) h pre).info.1.key = pk ∧
      (run (step C) h pre).info.1.url = makeUrl false pk
  close : ∀ pre post, es = pre ++ .close :: post → (run (step C) h (pre ++ [.close])).info.1
    = { (run (step C) h pre).info.1 with state := .destroyed }

/-- `close` meets no running server, unless the key it was given is its own public key. -/
def ClosesCleanly (h : Holesail) (e : Event) : Prop :=
  e = .close → ∀ s, h.server = some s → h.derived.key = s.publicKeyZ32

/-- The invariant of a run that closes cleanly: once opened, the last public key is the one that
`info()` finds. -/
def Reports (d : Derived) (p : Holesail × Option Bytes) : Prop :=
  match p.1.server with
  | some s => p.2 = some s.publicKeyZ32
  | none => p.1.opened = true → p.2 = some d.key

section Run

variable {o : Options} {random : Bytes32} {h : Holesail} {last : Option Bytes}

/-- `ready` opens an endpoint and gives it a server at once, or does nothing. -/
theorem Reports.ready (hserver : o.server = true) (hs : Serves C o (derive C o random) h)
    (hr : Reports (derive C o random) (h, last)) (env : ReadyEnv) :
    Reports (derive C o random) (watch C (h, last) (.ready env)) := by
  have hopts : h.options.server = true := by rw [hs.options, hserver]
  have hderived : h.derived = derive C h.options random := by rw [hs.options, hs.derived]
  rcases ready_server hopts hderived env with ⟨rc, hready⟩ | ⟨rc, s, hready, -⟩
  · simp only [watch, step, hready]
    cases hup : h.server with
    | some s => simp only [Reports, hup, Option.map_some, Option.some_or]
    | none => simpa only [Reports, hup, Option.map_none, Option.none_or] using hr
  · simp only [watch, step, hready, Reports, Option.map_some, Option.some_or]

/-- An event that maps the server to one with the same public key keeps the last public key. -/
theorem Reports.map {h' : Holesail} {f : HolesailServer → HolesailServer} {d : Derived}
    (hserver : h'.server = h.server.map f) (hopened : h'.opened = h.opened)
    (hr : Reports d (h, last)) :
    Reports d (h', (h'.server.map HolesailServer.publicKeyZ32).or last) := by
  cases hup : h.server with
  | some s =>
    have hup' : h'.server = some (f s) := by rw [hserver, hup, Option.map_some]
    simp only [Reports, hup', Option.map_some, Option.some_or]
  | none =>
    have hup' : h'.server = none := by rw [hserver, hup, Option.map_none]
    simpa only [Reports, hup, hup', hopened, Option.map_none, Option.none_or] using hr

theorem Reports.step (hserver : o.server = true) (hs : Serves C o (derive C o random) h)
    (hr : Reports (derive C o random) (h, last)) {e : Event} (hclean : ClosesCleanly h e) :
    Reports (derive C o random) (watch C (h, last) e) := by
  cases e with
  | ready env => exact hr.ready hserver hs env
  | listening => exact hr.map (f := HolesailServer.listeningCb) rfl rfl
  | pause => exact hr.map (f := HolesailServer.pause) rfl rfl
  | resume => exact hr.map (f := HolesailServer.resume) rfl rfl
  | info => exact hr.map (f := id) (by rw [Option.map_id]; rfl) rfl
  | close =>
    have hdown : (watch C (h, last) .close).1.server = none := rfl
    have hlast : (watch C (h, last) .close).2 = last := rfl
    simp only [Reports, hdown, hlast]
    intro hopened
    cases hup : h.server with
    | some s =>
      rw [← hs.derived, hclean rfl s hup]
      simpa only [Reports, hup] using hr
    | none =>
      simp only [Reports, hup] at hr
      exact hr hopened

theorem Reports.run (hserver : o.server = true) (hs : Serves C o (derive C o random) h)
    (hr : Reports (derive C o random) (h, last)) {es : List Event}
    (hclean : Along (Holesail.step C) ClosesCleanly h es) :
    Reports (derive C o random) (Run.run (watch C) (h, last) es) := by
  have hwatch : Along (watch C) (fun p e ↦ ClosesCleanly p.1 e) (h, last) es :=
    (along_comm (fun _ _ ↦ rfl) (h, last) es).mpr hclean
  refine (invariant_of_along (P := fun p ↦ Serves C o (derive C o random) p.1 ∧
    Reports (derive C o random) p) ?_ ⟨hs, hr⟩ hwatch).2
  rintro ⟨h, last⟩ e ⟨hs, hr⟩ hclean
  exact ⟨hs.step hserver e, hr.step hserver hs hclean⟩

theorem info_of_reports (hsecure : (derive C o random).secure = false)
    (hs : Serves C o (derive C o random) h) (hr : Reports (derive C o random) (h, last))
    (hopened : h.opened = true) : ∃ pk, last = some pk ∧ h.info.1.key = pk ∧
      h.info.1.url = makeUrl false pk := by
  cases hup : h.server with
  | some s =>
    simp only [Reports, hup] at hr
    exact ⟨_, hr, info_of_server hs hsecure hup⟩
  | none =>
    simp only [Reports, hup] at hr
    exact ⟨_, hr hopened, info_of_no_server hs hsecure hup⟩

theorem info_close_of_clean (hsecure : (derive C o random).secure = false)
    (hs : Serves C o (derive C o random) h) (hclean : ClosesCleanly h .close) :
    h.close.info.1 = { h.info.1 with state := .destroyed } := by
  have hkey : h.info.1.key = (derive C o random).key ∧
      h.info.1.url = makeUrl false (derive C o random).key := by
    cases hup : h.server with
    | some s =>
      rw [← hs.derived, hclean rfl s hup]
      exact info_of_server hs hsecure hup
    | none => exact info_of_no_server hs hsecure hup
  rw [info_close hs hsecure, ← hkey.2, ← hkey.1]

/-- **When `info()` keeps its promise.** A public server endpoint reports its public key throughout,
across `close` as well, exactly when `close` never meets a running server, unless the key string
it was started with happens to be the server's own public key. -/
theorem honest_iff_closesCleanly {options : Options} {random : Bytes32} {h : Holesail}
    (hserver : options.server = true) (hsecure : (derive C options random).secure = false)
    (hnew : new C options random = .ok h) (es : List Event) :
    Honest C h es ↔ Along (Holesail.step C) ClosesCleanly h es := by
  have hserves := Serves.of_new hnew
  constructor
  -- What `close` leaves behind is read off the state right after it.
  · intro hhonest
    rw [along_iff_forall_split]
    rintro pre e post hes rfl s hup
    have hpre := hserves.run hserver pre
    have hclose := hhonest.close pre post hes
    rw [run_concat, Holesail.step, info_close hpre hsecure] at hclose
    have hkey := congrArg Info.key hclose
    rw [hpre.derived]
    exact hkey.trans (info_of_server hpre hsecure hup).1
  · intro hclean
    -- The last public key is the one that `info()` finds, from the start on.
    have hinit : Reports (derive C options random) (h, none) := by
      rw [new_eq hnew]
      exact fun hopened ↦ absurd hopened Bool.false_ne_true
    constructor
    · rintro pre post rfl hopened
      have hr := hinit.run hserver hserves (along_append.mp hclean).1
      have hfst : (Run.run (watch C) (h, none) pre).1 = Run.run (Holesail.step C) h pre :=
        run_comm (f := Prod.fst) (fun _ _ ↦ rfl) (h, none) pre
      rw [← hfst] at hopened ⊢
      exact info_of_reports hsecure (hfst ▸ hserves.run hserver pre) hr hopened
    · rintro pre post rfl
      have hat := (along_append.mp hclean).2.1
      rw [run_concat]
      exact info_close_of_clean hsecure (hserves.run hserver pre) hat

/-- A public server started with the secret key of the test vector. -/
def secretOptions : Options where
  server := true
  host := some (ascii "127.0.0.1")
  key := some vectorKey

/-- Its endpoint, closed while it runs. -/
theorem honest_iff_closesCleanly_at :
    ¬Honest vectorCrypto
      { options := secretOptions, derived := derive vectorCrypto secretOptions vectorSeed }
      [.ready { random := vectorSeed }, .close] := by
  have hnew : new vectorCrypto secretOptions vectorSeed = .ok
      { options := secretOptions, derived := derive vectorCrypto secretOptions vectorSeed } := rfl
  rw [honest_iff_closesCleanly rfl rfl hnew]
  rintro ⟨-, hclean, -⟩
  exact absurd (hclean rfl _ rfl) (by decide +kernel)

/-- **The leak.** Once that server is closed, `info()` reports the secret itself, in its url too. -/
theorem secret_key_in_url_after_close :
    ∃ h, new vectorCrypto secretOptions vectorSeed = .ok h ∧ h.derived.secure = false ∧
      ¬Honest vectorCrypto h [.ready { random := vectorSeed }, .close] ∧
      (run (Holesail.step vectorCrypto) h
        [.ready { random := vectorSeed }, .close]).info.1.url
          = ascii "hs://0000this-is-a-32-char-holesail-key!!" := by
  refine ⟨_, rfl, rfl, fun hhonest ↦ ?_, rfl⟩
  have hkey := congrArg Info.key (hhonest.close [.ready { random := vectorSeed }] [] rfl)
  exact absurd hkey (by decide +kernel)

end Run

end Holesail

end Holesail
