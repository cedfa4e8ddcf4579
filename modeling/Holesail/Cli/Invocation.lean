import Holesail.Cli.Ports

/-!
# Command lines for an endpoint

Not every choice of options can come from a command line: a server always has a port other than
zero, a host and a word on its security, and a client has a key. Those that can have a command line
that says no more than they do, and as long as each option is written as one token the order of the
options does not matter.

## Main results

* `read_tokens`: options that were written out are read back.
* `run_tokens`: they start the endpoint they were written for, and nothing else can be started.
-/

namespace Holesail.Cli

open Decimal LastWins

/-! ## Writing options -/

/-- The token for an option: `--name` or `--name=value`. -/
def token : Bytes × Setting Bytes → Bytes
  | (name, .bare) => ascii "--" ++ name
  | (name, .value value) => ascii "--" ++ (name ++ 0x3d :: value)

theorem prefix_token (m : Bytes × Setting Bytes) : ascii "--" <+: token m := by
  obtain ⟨name, _ | value⟩ := m
  · exact List.prefix_append _ _
  · exact List.prefix_append _ _

/-- **What was written is what the grammar reads**, behind any positionals. No token is taken for
the value of another. -/
theorem reads_tokens {positionals : List Bytes}
    (hpositionals : ∀ p ∈ positionals, ∀ text, ¬IsOption p text)
    {ms : List (Bytes × Setting Bytes)} (h : ∀ m ∈ ms, m.1 ≠ [] ∧ 0x3d ∉ m.1) :
    Reads (positionals ++ ms.map token) ms positionals := by
  induction positionals with
  | cons p positionals ih =>
    obtain ⟨hp, hrest⟩ := List.forall_mem_cons.mp hpositionals
    exact .positional hp (ih hrest)
  | nil =>
    induction ms with
    | nil => exact .done
    | cons m ms ih =>
      obtain ⟨⟨hne, hname⟩, hrest⟩ := List.forall_mem_cons.mp h
      have hreads := ih hrest
      obtain ⟨name, _ | value⟩ := m
      · refine .bare (.long hne) hname (fun next hnext ↦ ?_) hreads
        rw [List.head?_map, Option.mem_map] at hnext
        obtain ⟨m', -, rfl⟩ := hnext
        exact prefix_token m'
      · have htext : name ++ 0x3d :: value ≠ [] :=
          List.append_ne_nil_of_right_ne_nil name (List.cons_ne_nil _ _)
        exact .inline (.long htext) hname hreads

/-! ## What is read of an option -/

section Read

variable {args : Args} {name : Bytes}

theorem Args.str_eq (args : Args) (name : Bytes) :
    args.str name = (args.read name).bind Setting.value? := by
  cases hread : args.read name with
  | none => exact (Store.read_eq_none_iff.mp hread).2
  | some setting =>
    cases setting with
    | bare =>
      have hnot : name ∉ args.values := args.notMem_values name (Store.read_eq_bare_iff.mp hread)
      exact Finmap.lookup_eq_none.mpr hnot
    | value value => exact Args.str_eq_some_iff.mpr hread

theorem Args.boolean_eq (args : Args) (name : Bytes) :
    args.boolean name = decide (args.read name = some .bare) := by
  rw [Bool.eq_iff_iff, Args.boolean_eq_true_iff, decide_eq_true_iff]

theorem Args.has_eq (args : Args) (name : Bytes) :
    args.has name = (args.read name).isSome := by
  rw [Bool.eq_iff_iff, Args.has_eq_true_iff, Option.isSome_iff_ne_none]

theorem truthy_eq_false_of_none (h : args.read name = none) : truthy args name = false := by
  rw [← Bool.not_eq_true, truthy_eq_true_iff, h]
  rintro (hbare | ⟨value, hvalue, -⟩)
  · exact absurd hbare.symm (Option.some_ne_none _)
  · exact absurd hvalue.symm (Option.some_ne_none _)

theorem truthy_of_bare (h : args.read name = some .bare) : truthy args name = true :=
  truthy_eq_true_iff.mpr (Or.inl h)

theorem Args.num_of_toDecimal {n : ℕ} (h : args.read name = some (.value (toDecimal n)))
    (hfits : n < 2 ^ 63) : args.num name = some (n : ℤ) := by
  rw [Args.num_eq_some_iff]
  refine ⟨_, h, ?_, by omega, by omega⟩
  have hnumeral := Numeral.digits (toDecimal_ne_nil n) fun d hd ↦
    isDigit_eq_true_iff.mpr (isDigit_of_mem_toDecimal hd)
  rwa [digitsValue_toDecimal] at hnumeral

theorem truthy_of_zero (h : args.read name = some (.value (toDecimal 0))) :
    truthy args name = false := by
  rw [← Bool.not_eq_true, truthy_eq_true_iff, h]
  rintro (hbare | ⟨_, -, -, hnum⟩)
  · exact absurd (Option.some.inj hbare) (by simp)
  · exact hnum (Args.num_of_toDecimal h (by decide))

end Read

/-! ## The endpoints that can be asked for -/

/-- A server, as the command line asks for one. -/
structure ServerCommand where
  port : UInt16
  host : Bytes
  key : Option Bytes := none
  secure : Bool := true
  udp : Option Bool := none
  port_ne_zero : port ≠ 0
  host_ne_nil : host ≠ []

structure ClientCommand where
  key : Bytes
  port : Option UInt16 := none
  host : Option Bytes := none
  secure : Option Bool := none
  udp : Option Bool := none
  host_ne_nil : ∀ h ∈ host, h ≠ []

inductive Command where
  | server (c : ServerCommand)
  | client (c : ClientCommand)

/-- What to set a truthy option to: nothing where it is not to be mentioned. -/
def switch : Option Bool → Option (Setting Bytes)
  | none => none
  | some true => some .bare
  | some false => some (.value (toDecimal 0))

/-- A key that `validate` refuses without `--force`. -/
def ServerCommand.Short (c : ServerCommand) : Prop := ∃ key ∈ c.key, key ≠ [] ∧ key.length < 32

instance (c : ServerCommand) : Decidable c.Short :=
  inferInstanceAs (Decidable (∃ key ∈ c.key, key ≠ [] ∧ key.length < 32))

/-- `--connect` asks for a client, unless its value is not truthy. -/
def ClientCommand.Connects (c : ClientCommand) : Prop :=
  c.key ≠ [] ∧ fromChars c.key ≠ some (0, [])

instance (c : ClientCommand) : Decidable c.Connects :=
  inferInstanceAs (Decidable (_ ∧ _))

def ServerCommand.settings (c : ServerCommand) : List (Bytes × Option (Setting Bytes)) :=
  [(ascii "live", some (.value (toDecimal c.port.toNat))), (ascii "host", some (.value c.host)),
    (ascii "key", c.key.map .value), (ascii "force", if c.Short then some .bare else none),
    (ascii "public", switch (if c.secure then none else some true)), (ascii "udp", switch c.udp)]

def ClientCommand.settings (c : ClientCommand) : List (Bytes × Option (Setting Bytes)) :=
  [(ascii "connect", if c.Connects then some (.value c.key) else none),
    (ascii "port", c.port.map fun p ↦ .value (toDecimal p.toNat)),
    (ascii "host", c.host.map .value), (ascii "public", switch (c.secure.map not)),
    (ascii "udp", switch c.udp)]

theorem ServerCommand.names_settings (c : ServerCommand) : c.settings.map Prod.fst
    = ["live", "host", "key", "force", "public", "udp"].map ascii := rfl

theorem ClientCommand.names_settings (c : ClientCommand) : c.settings.map Prod.fst
    = ["connect", "port", "host", "public", "udp"].map ascii := rfl

def Command.settings : Command → List (Bytes × Option (Setting Bytes))
  | .server c => c.settings
  | .client c => c.settings

/-- A key that `--connect` does not take stands by itself, in front of the options. -/
def ClientCommand.positionals (c : ClientCommand) : List Bytes :=
  if c.Connects then [] else [c.key]

def Command.positionals : Command → List Bytes
  | .server _ => []
  | .client c => c.positionals

def Command.options : Command → Options
  | .server c =>
    { server := true
      port := some c.port
      host := some c.host
      key := c.key
      secure := some c.secure
      udp := c.udp }
  | .client c =>
    { client := true
      port := c.port
      host := c.host
      key := some c.key
      secure := c.secure
      udp := c.udp }

/-! ## Each option is mentioned once -/

/-- What the options are mentioned with, where they are. -/
def mentions (settings : List (Bytes × Option (Setting Bytes))) : List (Bytes × Setting Bytes) :=
  settings.filterMap fun s ↦ s.2.map (s.1, ·)

section Mentions

variable {settings : List (Bytes × Option (Setting Bytes))} {name : Bytes}

theorem mem_mentions {setting : Setting Bytes} :
    (name, setting) ∈ mentions settings ↔ (name, some setting) ∈ settings := by
  rw [mentions, List.mem_filterMap]
  constructor
  · rintro ⟨⟨name', setting'⟩, hmem, heq⟩
    obtain ⟨x, rfl, hx⟩ := Option.map_eq_some_iff.mp heq
    obtain ⟨rfl, rfl⟩ := Prod.mk.inj hx
    exact hmem
  · exact fun hmem ↦ ⟨_, hmem, rfl⟩

theorem names_mentions (settings : List (Bytes × Option (Setting Bytes))) :
    ((mentions settings).map Prod.fst).Sublist (settings.map Prod.fst) := by
  induction settings with
  | nil => exact List.Sublist.refl _
  | cons s settings ih =>
    obtain ⟨name, _ | setting⟩ := s
    · exact ih.cons _
    · exact ih.cons_cons _

theorem last_mentions (hnodup : (settings.map Prod.fst).Nodup) {setting : Option (Setting Bytes)}
    (h : (name, setting) ∈ settings) : last name (mentions settings) = setting := by
  cases setting with
  | none =>
    rw [last_eq_none_iff]
    intro hname
    obtain ⟨⟨_, setting⟩, hmem, rfl⟩ := List.mem_map.mp hname
    have heq := List.inj_on_of_nodup_map hnodup (mem_mentions.mp hmem) h rfl
    exact absurd (congrArg Prod.snd heq) (Option.some_ne_none _)
  | some setting =>
    rw [last_eq_some_iff (hnodup.sublist (names_mentions settings))]
    exact mem_mentions.mpr h

/-- **The arguments that a command line comes to**, with the options in any order. -/
theorem read_tokens (hnodup : (settings.map Prod.fst).Nodup)
    (hplain : ∀ name ∈ settings.map Prod.fst, name ≠ [] ∧ 0x3d ∉ name) {positionals : List Bytes}
    (hpositionals : ∀ p ∈ positionals, ∀ text, ¬IsOption p text)
    {ms : List (Bytes × Setting Bytes)} (hms : ms.Perm (mentions settings)) (program : Bytes) :
    let args := parseArgv (program :: (positionals ++ ms.map token))
    (∀ s ∈ settings, args.read s.1 = s.2) ∧
      (∀ name, name ∉ settings.map Prod.fst → args.read name = none) ∧ args.rest = positionals := by
  intro args
  have hsub := names_mentions settings
  have hall : ∀ m ∈ ms, m.1 ≠ [] ∧ 0x3d ∉ m.1 := fun m hm ↦
    hplain m.1 (hsub.subset (List.mem_map_of_mem (hms.mem_iff.mp hm)))
  have hreads := reads_tokens hpositionals hall
  have hread : ∀ name, args.read name = last name (mentions settings) := by
    intro name
    rw [← last_perm hms (hnodup.sublist hsub)]
    exact given_iff.mp ⟨ms, positionals, hreads, rfl⟩
  refine ⟨fun s hs ↦ (hread s.1).trans (last_mentions hnodup hs), fun name hname ↦ ?_,
    positionals_iff.mp ⟨ms, hreads⟩⟩
  rw [hread, last_eq_none_iff]
  exact fun hmem ↦ hname (hsub.subset hmem)

end Mentions

/-! ## They are what `run` starts -/

section Options

variable {args : Args}

theorem ofInt_toNat (p : UInt16) : UInt16.ofInt (p.toNat : ℤ) = p := by
  have hlt := p.toNat_lt
  have hcast := toNat_ofInt (n := (p.toNat : ℤ)) (by omega) (by omega)
  exact UInt16.toNat_inj.mp (by omega)

theorem port_of_toDecimal {name : Bytes} {p : UInt16}
    (h : args.read name = some (.value (toDecimal p.toNat))) :
    args.num name = some (p.toNat : ℤ) ∧ validPort args name = true := by
  have hlt := p.toNat_lt
  have hnum := Args.num_of_toDecimal h (by omega)
  refine ⟨hnum, validPort_eq_true_iff.mpr ⟨_, hnum, by omega, ?_⟩⟩
  rw [kMaxPort]
  omega

theorem commonOptions_of_read {b : Option Bool} (h : args.read (ascii "udp") = switch b) :
    commonOptions args = { udp := b } := by
  rw [commonOptions, Args.has_eq, h]
  rcases b with _ | (_ | _)
  · rfl
  · have hfalse : truthy args (ascii "udp") = false := truthy_of_zero h
    rw [hfalse]
    rfl
  · have htrue : truthy args (ascii "udp") = true := truthy_of_bare h
    rw [htrue]
    rfl

theorem secure_of_read {b : Option Bool} (h : args.read (ascii "public") = switch b) :
    (if args.has (ascii "public") then some (!args.boolean (ascii "public")) else none)
      = b.map not := by
  rw [Args.has_eq, Args.boolean_eq, h]
  rcases b with _ | (_ | _) <;> rfl

theorem ServerCommand.serverOptions_eq (c : ServerCommand)
    (hread : ∀ s ∈ c.settings, args.read s.1 = s.2) :
    serverOptions args = (Command.server c).options := by
  simp only [ServerCommand.settings, List.forall_mem_cons] at hread
  obtain ⟨hlive, hhost, hkey, -, hpublic, hudp, -⟩ := hread
  obtain ⟨hport, -⟩ := port_of_toDecimal hlive
  have hhost' : (args.str (ascii "host")).filter (· ≠ []) = some c.host := by
    rw [Args.str_eq, hhost]
    exact Option.filter_some_pos (decide_eq_true c.host_ne_nil)
  have hkey' : args.str (ascii "key") = c.key := by
    rw [Args.str_eq, hkey]
    cases c.key <;> rfl
  have hsecure : (if args.has (ascii "public") then !args.boolean (ascii "public") else true)
      = c.secure := by
    rw [Args.has_eq, Args.boolean_eq, hpublic]
    cases c.secure <;> rfl
  rw [serverOptions, commonOptions_of_read hudp, hport, hhost', hkey', hsecure,
    Option.getD_some, Option.getD_some, ofInt_toNat]
  rfl

theorem ClientCommand.clientOptions_eq (c : ClientCommand)
    (hread : ∀ s ∈ c.settings, args.read s.1 = s.2) (hrest : args.rest = c.positionals) :
    clientOptions args = (Command.client c).options := by
  simp only [ClientCommand.settings, List.forall_mem_cons] at hread
  obtain ⟨hconnect, hport, hhost, hpublic, hudp, -⟩ := hread
  have hport' : (if validPort args (ascii "port") then (args.num (ascii "port")).map UInt16.ofInt
      else none) = c.port := by
    cases hp : c.port with
    | none =>
      rw [hp] at hport
      exact port_clientOptions_of_none hport
    | some p =>
      rw [hp] at hport
      obtain ⟨hnum, hvalid⟩ := port_of_toDecimal hport
      rw [if_pos hvalid, hnum, Option.map_some, ofInt_toNat]
  have hhost' : (args.str (ascii "host")).filter (· ≠ []) = c.host := by
    rw [Args.str_eq, hhost]
    cases hh : c.host with
    | none => rfl
    | some h => exact Option.filter_some_pos (decide_eq_true (c.host_ne_nil h hh))
  have hkey' : (args.str (ascii "connect")).getD (args.rest.head?.getD []) = c.key := by
    rw [Args.str_eq, hconnect, hrest, ClientCommand.positionals]
    split_ifs <;> rfl
  have hsecure : (c.secure.map not).map not = c.secure := by
    rw [Option.map_map]
    exact (congrArg (c.secure.map ·) (funext Bool.not_not)).trans Option.map_id'
  rw [clientOptions, commonOptions_of_read hudp, hport', hhost', hkey', secure_of_read hpublic,
    hsecure]
  rfl

end Options

/-- Nothing that `run` looks for before the endpoints was asked for. -/
structure Plain (args : Args) : Prop where
  help : args.read (ascii "help") = none
  h : args.read (ascii "h") = none
  version : args.read (ascii "version") = none

section Run

variable {sodiumInit : ℤ} {argv : List Bytes}

theorem run_of_live (hsodium : 0 ≤ sodiumInit) (haccepted : Accepted (parseArgv argv))
    (hplain : Plain (parseArgv argv)) (hlive : truthy (parseArgv argv) (ascii "live") = true) :
    run sodiumInit argv = .endpoint (serverOptions (parseArgv argv)) := by
  have hok := validate_ok_iff.mpr haccepted
  simp only [run, if_neg (Int.not_lt.mpr hsodium), hok, truthy_eq_false_of_none hplain.help,
    truthy_eq_false_of_none hplain.h, truthy_eq_false_of_none hplain.version, hlive,
    Bool.false_eq_true, Bool.true_eq_false, or_self, if_false, if_true]

theorem run_of_connect (hsodium : 0 ≤ sodiumInit) (haccepted : Accepted (parseArgv argv))
    (hplain : Plain (parseArgv argv)) (hlive : (parseArgv argv).read (ascii "live") = none)
    (hconnect : truthy (parseArgv argv) (ascii "connect") = true ∨ (parseArgv argv).rest ≠ []) :
    run sodiumInit argv = .endpoint (clientOptions (parseArgv argv)) := by
  have hok := validate_ok_iff.mpr haccepted
  simp only [run, if_neg (Int.not_lt.mpr hsodium), hok, truthy_eq_false_of_none hplain.help,
    truthy_eq_false_of_none hplain.h, truthy_eq_false_of_none hplain.version,
    truthy_eq_false_of_none hlive, Bool.false_eq_true, Bool.true_eq_false, or_self, if_false,
    if_pos hconnect]

/-- Where neither `--key` nor `--port` was given, little is left to be accepted. -/
theorem accepted_of_none {args : Args} (hkey : args.read (ascii "key") = none)
    (hlive : args.read (ascii "live") = none)
    (hrest : truthy args (ascii "connect") = true → args.rest = [])
    (hport : ∀ setting, args.read (ascii "port") = some setting →
      ∃ p : UInt16, setting = .value (toDecimal p.toNat)) : Accepted args where
  key_ne_bare := by
    rw [hkey]
    exact (Option.some_ne_none _).symm
  length_key := fun k hk ↦ absurd (hkey.symm.trans hk) (Option.some_ne_none _).symm
  rest_eq_nil := hrest
  live := fun h ↦ absurd ((truthy_eq_false_of_none hlive).symm.trans h) (by decide)
  port := by
    intro h
    cases hp : args.read (ascii "port") with
    | none => exact absurd ((truthy_eq_false_of_none hp).symm.trans h) (by decide)
    | some setting =>
      obtain ⟨p, rfl⟩ := hport setting hp
      exact (port_of_toDecimal hp).2
  port_ne_nil := by
    intro h
    obtain ⟨p, hp⟩ := hport _ h
    exact toDecimal_ne_nil _ (Setting.value.inj hp).symm

theorem ServerCommand.run_eq (c : ServerCommand) (hsodium : 0 ≤ sodiumInit)
    (hread : ∀ s ∈ c.settings, (parseArgv argv).read s.1 = s.2)
    (hother : ∀ name, name ∉ c.settings.map Prod.fst → (parseArgv argv).read name = none)
    (hrest : (parseArgv argv).rest = []) :
    run sodiumInit argv = .endpoint (Command.server c).options := by
  rw [← c.serverOptions_eq hread]
  simp only [ServerCommand.settings, List.forall_mem_cons] at hread
  obtain ⟨hlive, -, hkey, hforce, -⟩ := hread
  rw [c.names_settings] at hother
  obtain ⟨hnum, hvalid⟩ := port_of_toDecimal hlive
  have hport := hother (ascii "port") (by decide)
  have hpositive : (c.port.toNat : ℤ) ≠ 0 := by
    intro hzero
    exact c.port_ne_zero (UInt16.toNat_inj.mp (Int.ofNat.inj hzero))
  refine run_of_live hsodium ⟨?_, fun k hk hne hunforced ↦ ?_, fun _ ↦ hrest, fun _ ↦ hvalid,
    fun h ↦ ?_, ?_⟩ ⟨hother _ (by decide), hother _ (by decide), hother _ (by decide)⟩ ?_
  · rw [hkey]
    cases c.key <;> simp
  · rw [hkey, Option.map_eq_some_iff] at hk
    obtain ⟨k', hk', heq⟩ := hk
    obtain rfl := Setting.value.inj heq
    by_contra hlength
    rw [if_pos ⟨k', hk', hne, Nat.not_le.mp hlength⟩] at hforce
    exact absurd (hunforced.symm.trans (truthy_of_bare hforce)) Bool.false_ne_true
  · exact absurd ((truthy_eq_false_of_none hport).symm.trans h) (by decide)
  · rw [hport]
    exact (Option.some_ne_none _).symm
  · refine truthy_eq_true_iff.mpr (Or.inr ⟨_, hlive, toDecimal_ne_nil _, ?_⟩)
    rw [hnum]
    exact fun h ↦ hpositive (Option.some.inj h)

/-- A number is no option: a digit behind a dash makes it a negative one. -/
theorem Numeral.not_isOption {p text : Bytes} {n : ℤ} (h : Numeral p n) : ¬IsOption p text := by
  intro hoption
  cases hoption with
  | long =>
    cases h with
    | digits _ hdigit => exact absurd (hdigit 0x2d List.mem_cons_self) (by decide)
    | minus _ hdigit => exact absurd (hdigit 0x2d List.mem_cons_self) (by decide)
  | short _ hother =>
    cases h with
    | digits _ hdigit => exact absurd (hdigit 0x2d List.mem_cons_self) (by decide)
    | minus _ hdigit =>
      exact absurd (hother.symm.trans (hdigit _ List.mem_cons_self)) Bool.false_ne_true

theorem ClientCommand.not_isOption (c : ClientCommand) :
    ∀ p ∈ c.positionals, ∀ text, ¬IsOption p text := by
  intro p hp text hoption
  rw [ClientCommand.positionals] at hp
  split_ifs at hp with hconnects
  · exact List.not_mem_nil hp
  obtain rfl := List.mem_singleton.mp hp
  refine hconnects ⟨fun hnil ↦ ?_, fun hzero ↦ ?_⟩
  · rw [hnil] at hoption
    nomatch hoption
  · exact (fromChars_eq_some_nil_iff.mp hzero).1.not_isOption hoption

theorem ClientCommand.run_eq (c : ClientCommand) (hsodium : 0 ≤ sodiumInit)
    (hread : ∀ s ∈ c.settings, (parseArgv argv).read s.1 = s.2)
    (hother : ∀ name, name ∉ c.settings.map Prod.fst → (parseArgv argv).read name = none)
    (hrest : (parseArgv argv).rest = c.positionals) :
    run sodiumInit argv = .endpoint (Command.client c).options := by
  rw [← c.clientOptions_eq hread hrest]
  simp only [ClientCommand.settings, List.forall_mem_cons] at hread
  obtain ⟨hconnect, hport, -⟩ := hread
  rw [c.names_settings] at hother
  have hlive := hother (ascii "live") (by decide)
  have hasked : truthy (parseArgv argv) (ascii "connect") = true ↔ c.Connects := by
    rw [truthy_eq_true_iff]
    split_ifs at hconnect with hconnects
    · refine iff_of_true (Or.inr ⟨_, hconnect, hconnects.1, fun hnum ↦ ?_⟩) hconnects
      obtain ⟨value, hvalue, hzero⟩ := Args.num_eq_some_iff.mp hnum
      obtain rfl := Setting.value.inj (Option.some.inj (hconnect.symm.trans hvalue))
      exact hconnects.2 (fromChars_eq_some_nil_iff.mpr hzero)
    · refine iff_of_false ?_ hconnects
      rw [hconnect]
      rintro (hbare | ⟨_, hvalue, -⟩)
      · exact absurd hbare.symm (Option.some_ne_none _)
      · exact absurd hvalue.symm (Option.some_ne_none _)
  have haccepted : Accepted (parseArgv argv) := by
    refine accepted_of_none (hother _ (by decide)) hlive (fun h ↦ ?_) fun setting h ↦ ?_
    · rw [hrest, ClientCommand.positionals, if_pos (hasked.mp h)]
    · rw [hport, Option.map_eq_some_iff] at h
      obtain ⟨p, -, rfl⟩ := h
      exact ⟨p, rfl⟩
  refine run_of_connect hsodium haccepted
    ⟨hother _ (by decide), hother _ (by decide), hother _ (by decide)⟩ hlive ?_
  by_cases hconnects : c.Connects
  · exact Or.inl (hasked.mpr hconnects)
  · rw [hrest, ClientCommand.positionals, if_neg hconnects]
    exact Or.inr (List.cons_ne_nil _ _)

end Run

/-! ## Nothing else is -/

section Exact

variable {sodiumInit : ℤ} {argv : List Bytes} {args : Args} {o : Options}

theorem ne_nil_of_mem_filter {value : Option Bytes} :
    ∀ h ∈ value.filter (· ≠ []), h ≠ [] :=
  fun _ hmem ↦ of_decide_eq_true (Option.filter_eq_some_iff.mp hmem).2

theorem exists_host_serverOptions (args : Args) :
    ∃ host, (serverOptions args).host = some host ∧ host ≠ [] := by
  refine ⟨_, rfl, ?_⟩
  cases hhost : (args.str (ascii "host")).filter (· ≠ []) with
  | none => exact List.cons_ne_nil _ _
  | some host => exact ne_nil_of_mem_filter host hhost

theorem exists_command (h : run sodiumInit argv = .endpoint o) : ∃ c : Command, c.options = o := by
  obtain ⟨haccepted, ⟨hlive, rfl⟩ | ⟨-, rfl⟩⟩ := accepted_of_run h
  · obtain ⟨_, port, -, ⟨_, _, -, -, hlo, -, hcast⟩, hport⟩ :=
      haccepted.isPort_serverOptions hlive
    obtain ⟨host, hhost, hne⟩ := exists_host_serverOptions (parseArgv argv)
    have hpositive : port ≠ 0 := by
      rintro rfl
      rw [← hcast] at hlo
      exact absurd hlo (by decide)
    refine ⟨.server
      { port := port
        host := host
        key := (serverOptions (parseArgv argv)).key
        secure := (serverOptions (parseArgv argv)).secure.getD true
        udp := (serverOptions (parseArgv argv)).udp
        port_ne_zero := hpositive
        host_ne_nil := hne }, ?_⟩
    rw [Command.options, ← hport, ← hhost]
    rfl
  · exact ⟨.client
      { key := _
        port := (clientOptions (parseArgv argv)).port
        host := (clientOptions (parseArgv argv)).host
        secure := (clientOptions (parseArgv argv)).secure
        udp := (clientOptions (parseArgv argv)).udp
        host_ne_nil := ne_nil_of_mem_filter }, rfl⟩

end Exact

end Holesail.Cli
