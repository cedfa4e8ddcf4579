import Holesail.Cli.Dispatch

/-!
# The key that is checked and the key that is hashed

`validate` asks a key for 32 characters and `validate_opts` refuses an empty one. Both look at the
argument as it was given. What an endpoint is derived from is what `parse_url` leaves of it, and
`parse_url` takes nine characters off an argument that looks like a url.

So the checks hold of the key that is hashed exactly if the argument still passes them without the
nine.
-/

namespace Holesail.Cli

open LastWins

/-- The argument a client connects with: the value of `--connect`, or else the first positional. -/
def KeyArgument (argv : List Bytes) (key : Bytes) : Prop :=
  Given argv (ascii "connect") (some (.value key)) ∨
    (∀ value, ¬Given argv (ascii "connect") (some (.value value))) ∧
      ∃ rest, Positionals argv (key :: rest)

/-- The checks hold of the key that the endpoint is derived from. -/
structure KeysChecked (argv : List Bytes) (h : Holesail) : Prop where
  server : h.options.server = true → (∃ setting, Given argv (ascii "key") (some setting)) →
    truthy (parseArgv argv) (ascii "force") = false → 32 ≤ h.derived.key.length
  client : h.options.client = true → h.derived.key ≠ []

/-- An argument that looks like a url is long enough for a key behind the first nine characters. -/
structure UrlsLong (argv : List Bytes) : Prop where
  server : truthy (parseArgv argv) (ascii "live") = true →
    truthy (parseArgv argv) (ascii "force") = false →
    ∀ key, Given argv (ascii "key") (some (.value key)) → ascii "hs://" <+: key → 41 ≤ key.length
  client : truthy (parseArgv argv) (ascii "live") = false →
    ∀ key, KeyArgument argv key → ascii "hs://" <+: key → key.length ≠ 9

/-! ## The two forms of an argument -/

theorem parseUrl_key_of_url {url : Bytes} (h : ascii "hs://" <+: url) (hlen : 9 ≤ url.length) :
    (parseUrl url).key = url.drop 9 :=
  if_pos ⟨hlen, (List.prefix_iff_eq_take.mp h).symm⟩

theorem parseUrl_key_of_not_url {url : Bytes} (h : ascii "hs://" <+: url → url.length < 9) :
    (parseUrl url).key = url := by
  refine if_neg ?_
  rintro ⟨hlen, htake⟩
  exact absurd (h (List.prefix_iff_eq_take.mpr htake.symm)) (Nat.not_lt.mpr hlen)

/-- An argument of at least `n` characters, `n` being more than the nine that are taken off, leaves
a key of at least `n` exactly if no url is too short. -/
theorem le_length_key_iff {url : Bytes} {n : ℕ} (hn : 9 ≤ n) (hlen : n ≤ url.length) :
    n ≤ (parseUrl url).key.length ↔ (ascii "hs://" <+: url → n + 9 ≤ url.length) := by
  by_cases hurl : ascii "hs://" <+: url
  · rw [parseUrl_key_of_url hurl (hn.trans hlen), List.length_drop]
    have := hn.trans hlen
    exact ⟨fun h _ ↦ by omega, fun h ↦ by have := h hurl; omega⟩
  · rw [parseUrl_key_of_not_url fun h ↦ absurd h hurl]
    exact iff_of_true hlen fun h ↦ absurd h hurl

/-- An argument leaves an empty key exactly if it is a url and nothing else. -/
theorem key_parseUrl_ne_nil_iff {url : Bytes} (hne : url ≠ []) :
    (parseUrl url).key ≠ [] ↔ (ascii "hs://" <+: url → url.length ≠ 9) := by
  by_cases hurl : ascii "hs://" <+: url ∧ 9 ≤ url.length
  · obtain ⟨hurl, hlen⟩ := hurl
    rw [parseUrl_key_of_url hurl hlen, Ne, List.drop_eq_nil_iff]
    exact ⟨fun h _ ↦ by omega, fun h ↦ by have := h hurl; omega⟩
  · have hshort : ascii "hs://" <+: url → url.length < 9 :=
      fun h ↦ Nat.not_le.mp fun hlen ↦ hurl ⟨h, hlen⟩
    rw [parseUrl_key_of_not_url hshort]
    exact iff_of_true hne fun h ↦ (hshort h).ne

/-! ## The endpoint -/

/-- An endpoint keeps its options, is derived from them, and has no empty argument for a key. -/
theorem of_new {C : Crypto} {options : Options} {random : Bytes32} {h : Holesail}
    (hnew : Holesail.new C options random = .ok h) :
    h.options = options ∧ h.derived = derive C options random ∧ options.key ≠ some [] := by
  rw [Holesail.new, validateOpts] at hnew
  split_ifs at hnew with hempty hboth hhost
  · cases hnew
    exact ⟨rfl, rfl, fun h ↦ hempty (.inr h)⟩

theorem key_derive_server {C : Crypto} {options : Options} {random : Bytes32}
    (hserver : options.server = true) (hkey : (parseUrl (options.key.getD [])).key ≠ []) :
    (derive C options random).key = (parseUrl (options.key.getD [])).key := by
  simp only [derive, if_pos hserver, if_pos hkey]

theorem key_derive_client {C : Crypto} {options : Options} {random : Bytes32}
    (hserver : options.server = false) :
    (derive C options random).key = (parseUrl (options.key.getD [])).key := by
  simp only [derive, hserver, Bool.false_eq_true, if_false]

theorem keyArgument_iff {argv : List Bytes} {key : Bytes} (hne : key ≠ []) :
    KeyArgument argv key ↔ (clientOptions (parseArgv argv)).key = some key := by
  have hkey : (clientOptions (parseArgv argv)).key = some
    (((parseArgv argv).str (ascii "connect")).getD ((parseArgv argv).rest.head?.getD [])) := rfl
  rw [KeyArgument, hkey, Option.some_inj]
  simp only [given_iff, positionals_iff, ← Args.str_eq_some_iff]
  cases hconnect : (parseArgv argv).str (ascii "connect") with
  | some value => simp
  | none =>
    cases hrest : (parseArgv argv).rest with
    | nil => simp [hne.symm]
    | cons token rest => simp

theorem Accepted.length_key_derive_iff {C : Crypto} {random : Bytes32} {args : Args} {key : Bytes}
    (h : Accepted args) (hkey : args.read (ascii "key") = some (.value key)) (hne : key ≠ [])
    (hforce : truthy args (ascii "force") = false) :
    32 ≤ (derive C (serverOptions args) random).key.length ↔
      (ascii "hs://" <+: key → 41 ≤ key.length) := by
  have hlen := h.length_key key hkey hne hforce
  have hargument : (serverOptions args).key.getD [] = key := by
    rw [show (serverOptions args).key = args.str (ascii "key") from rfl,
      Args.str_eq_some_iff.mpr hkey, Option.getD_some]
  have hleft : (parseUrl ((serverOptions args).key.getD [])).key ≠ [] := by
    rw [hargument, key_parseUrl_ne_nil_iff hne]
    exact fun _ ↦ by omega
  rw [key_derive_server rfl hleft, hargument, le_length_key_iff (by decide) hlen]

theorem key_derive_clientOptions_ne_nil_iff (C : Crypto) (random : Bytes32) {argv : List Bytes}
    {key : Bytes} (hkey : KeyArgument argv key) (hne : key ≠ []) :
    (derive C (clientOptions (parseArgv argv)) random).key ≠ [] ↔
      (ascii "hs://" <+: key → key.length ≠ 9) := by
  rw [key_derive_client rfl, (keyArgument_iff hne).mp hkey, Option.getD_some,
    key_parseUrl_ne_nil_iff hne]

/-- **The checks hold of the hashed key exactly if no url is too short.** -/
theorem keysChecked_iff {C : Crypto} {random : Bytes32} {sodiumInit : ℤ} {argv : List Bytes}
    {o : Options} {h : Holesail} (hrun : run sodiumInit argv = .endpoint o)
    (hnew : Holesail.new C o random = .ok h) : KeysChecked argv h ↔ UrlsLong argv := by
  obtain ⟨hoptions, hderived, hempty⟩ := of_new hnew
  obtain ⟨haccepted, hbranch⟩ := accepted_of_run hrun
  rcases hbranch with ⟨hlive, rfl⟩ | ⟨hlive, rfl⟩
  · have hne : ∀ {key}, (parseArgv argv).read (ascii "key") = some (.value key) → key ≠ [] := by
      rintro key hread rfl
      exact hempty (Args.str_eq_some_iff.mpr hread)
    constructor
    · intro hchecked
      refine ⟨fun _ hforce key hkey ↦ ?_, fun hclient ↦ absurd hlive (by rw [hclient]; decide)⟩
      have hlength := hchecked.server (hoptions ▸ rfl) ⟨_, hkey⟩ hforce
      rw [hderived] at hlength
      have hread := given_iff.mp hkey
      exact (haccepted.length_key_derive_iff hread (hne hread) hforce).mp hlength
    · intro hlong
      refine ⟨fun _ hgiven hforce ↦ ?_, fun hclient ↦ ?_⟩
      · obtain ⟨setting, hkey⟩ := hgiven
        have hread := given_iff.mp hkey
        cases setting with
        | bare => exact absurd hread haccepted.key_ne_bare
        | value key =>
          rw [hderived, haccepted.length_key_derive_iff hread (hne hread) hforce]
          exact hlong.server hlive hforce key hkey
      · rw [hoptions] at hclient
        exact absurd hclient Bool.false_ne_true
  · obtain ⟨key, hkey⟩ : ∃ key, (clientOptions (parseArgv argv)).key = some key := ⟨_, rfl⟩
    have hne : key ≠ [] := by
      rintro rfl
      exact hempty hkey
    have hargument := (keyArgument_iff hne).mpr hkey
    have hiff := key_derive_clientOptions_ne_nil_iff C random hargument hne
    rw [← hderived] at hiff
    constructor
    · intro hchecked
      refine ⟨fun hserver ↦ absurd hlive (by rw [hserver]; decide), fun _ key' hargument' hurl ↦ ?_⟩
      have hne' : key' ≠ [] := by
        rintro rfl
        exact absurd hurl (by decide)
      obtain rfl : key = key' :=
        Option.some.inj (hkey.symm.trans ((keyArgument_iff hne').mp hargument'))
      exact hiff.mp (hchecked.client (hoptions ▸ rfl)) hurl
    · intro hlong
      refine ⟨fun hserver ↦ ?_, fun _ ↦ ?_⟩
      · rw [hoptions] at hserver
        exact absurd hserver Bool.false_ne_true
      · exact hiff.mpr (hlong.client hlive key hargument)

/-- A server with a key of 32 characters. -/
def plainKey : List Bytes :=
  ["holesail", "--live", "8080", "--key", "this-is-a-32-char-holesail-key!!"].map ascii

/-- A server with the url of a key of 23. -/
def shortKey : List Bytes :=
  ["holesail", "--live", "8080", "--key", "hs://s000twenty-three-characters"].map ascii

/-- The server that an argument vector asks for. -/
def serverOf (argv : List Bytes) : Holesail where
  options := serverOptions (parseArgv argv)
  derived := derive vectorCrypto (serverOptions (parseArgv argv)) vectorSeed

theorem keysChecked_iff_at :
    Holesail.new vectorCrypto (serverOptions (parseArgv plainKey)) vectorSeed
        = .ok (serverOf plainKey) ∧ KeysChecked plainKey (serverOf plainKey) := by
  have hnew : Holesail.new vectorCrypto (serverOptions (parseArgv plainKey)) vectorSeed
      = .ok (serverOf plainKey) := by
    decide +kernel
  have hrun : run 0 plainKey = .endpoint (serverOptions (parseArgv plainKey)) := by
    decide +kernel
  refine ⟨hnew, (keysChecked_iff hrun hnew).mpr ?_⟩
  refine ⟨fun _ _ key hkey hurl ↦ ?_, fun hlive ↦ absurd hlive (by decide +kernel)⟩
  have hread : (parseArgv plainKey).read (ascii "key")
      = some (.value (ascii "this-is-a-32-char-holesail-key!!")) := by
    decide +kernel
  obtain rfl : key = ascii "this-is-a-32-char-holesail-key!!" := by
    injection (given_iff.mp hkey).symm.trans hread with hsetting
    injection hsetting
  exact absurd hurl (by decide)

/-- The url of a key of 23 characters is accepted as a key of 32. -/
theorem not_keysChecked :
    run 0 shortKey = .endpoint (serverOptions (parseArgv shortKey)) ∧
      Holesail.new vectorCrypto (serverOptions (parseArgv shortKey)) vectorSeed
        = .ok (serverOf shortKey) ∧ ¬KeysChecked shortKey (serverOf shortKey) := by
  refine ⟨by decide +kernel, by decide +kernel, fun h ↦ ?_⟩
  have hgiven : ∃ setting, Given shortKey (ascii "key") (some setting) :=
    ⟨.value (ascii "hs://s000twenty-three-characters"), given_iff.mpr (by decide +kernel)⟩
  exact absurd (h.server rfl hgiven (by decide +kernel)) (by decide +kernel)

end Holesail.Cli
