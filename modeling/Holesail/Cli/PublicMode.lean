import Holesail.Cli.Dispatch

/-!
# What `--public` does

`--public` asks for an endpoint that is not secure, and a key that starts like an `hs://s` url
overrides it. `server_options` and `client_options` ask for it with `boolean`, which only finds the
bare option, and where `--public` was given a value they take its presence for the opposite. A value
is easily given by mistake: an option takes the next token for one unless that is a long option.
-/

namespace Holesail.Cli

open LastWins

/-- The character that makes a url a secure one. -/
def AsksSecure (key : Option Bytes) : Prop := (key.getD [])[5]? = some 0x73

theorem secure_derive {C : Crypto} {options : Options} {random : Bytes32}
    (hkey : ¬AsksSecure options.key) :
    (derive C options random).secure = options.secure.getD false := by
  have hparsed : (parseUrl (options.key.getD [])).secure = none :=
    if_neg fun h ↦ hkey h.2
  rw [derive, hparsed]
  split_ifs <;> rfl

/-- The options ask for an endpoint that is not secure, and get one unless the key overrides it. -/
structure Public (options : Options) : Prop where
  secure : options.secure = some false
  derived : ∀ (C : Crypto) (random : Bytes32) (key : Option Bytes), ¬AsksSecure key →
    (derive C { options with key := key } random).secure = false

theorem public_iff {options : Options} : Public options ↔ options.secure = some false := by
  refine ⟨Public.secure, fun h ↦ ⟨h, fun C random key hkey ↦ ?_⟩⟩
  rw [secure_derive hkey, h]
  rfl

/-- `--public` means public, for a server and for a client. -/
structure PublicMeansPublic (argv : List Bytes) : Prop where
  server : Public (serverOptions (parseArgv argv))
  client : Public (clientOptions (parseArgv argv))

theorem secure_serverOptions {args : Args} (h : args.read (ascii "public") ≠ none) :
    (serverOptions args).secure = some (!args.boolean (ascii "public")) := by
  rw [serverOptions, if_pos (Args.has_eq_true_iff.mpr h)]

theorem secure_clientOptions {args : Args} (h : args.read (ascii "public") ≠ none) :
    (clientOptions args).secure = some (!args.boolean (ascii "public")) := by
  rw [clientOptions, if_pos (Args.has_eq_true_iff.mpr h)]

/-- **A `--public` means public exactly if it is bare.** -/
theorem publicMeansPublic_iff_bare {argv : List Bytes}
    (h : truthy (parseArgv argv) (ascii "public") = true) :
    PublicMeansPublic argv ↔ Given argv (ascii "public") (some .bare) := by
  have hgiven : (parseArgv argv).read (ascii "public") ≠ none := by
    rcases truthy_eq_true_iff.mp h with hbare | ⟨value, hvalue, -⟩
    · exact hbare ▸ Option.some_ne_none _
    · exact hvalue ▸ Option.some_ne_none _
  rw [given_iff, ← Args.boolean_eq_true_iff]
  constructor
  · intro hpublic
    have hsecure := (secure_serverOptions hgiven).symm.trans hpublic.server.secure
    simpa using hsecure
  · intro hbare
    constructor
    · rw [public_iff, secure_serverOptions hgiven, hbare]
      rfl
    · rw [public_iff, secure_clientOptions hgiven, hbare]
      rfl

/-- The bare option, in front of another one. -/
theorem publicMeansPublic_iff_bare_at :
    PublicMeansPublic (["holesail", "--public", "--live", "8080"].map ascii) ∧
      ¬PublicMeansPublic (["holesail", "--live", "8080", "--public=yes"].map ascii) := by
  refine ⟨(publicMeansPublic_iff_bare (by decide +kernel)).mpr ?_, fun h ↦ ?_⟩
  · exact given_iff.mpr (by decide +kernel)
  · exact absurd (given_iff.mp ((publicMeansPublic_iff_bare (by decide +kernel)).mp h))
      (by decide +kernel)

/-- With a value the server is secure, whatever is asked of it. -/
theorem not_publicMeansPublic :
    let argv := ["holesail", "--live", "8080", "--public=yes"].map ascii
    run 0 argv = .endpoint (serverOptions (parseArgv argv)) ∧
      truthy (parseArgv argv) (ascii "public") = true ∧ ¬PublicMeansPublic argv := by
  refine ⟨by decide +kernel, by decide +kernel, fun h ↦ ?_⟩
  exact absurd h.server.secure (by decide +kernel)

end Holesail.Cli
