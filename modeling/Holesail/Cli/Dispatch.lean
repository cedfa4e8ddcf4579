import Holesail.Cli.Args
import Holesail.Endpoint.Holesail

/-!
# From the arguments to an endpoint

`run` checks the arguments with `validate` and takes the first branch that the options ask for. Two
of the branches start an endpoint, with the options `server_options` and `client_options` make of
the arguments. What the branches print, apart from the messages of `validate`, is left out, and so
is the log level.
-/

namespace Holesail.Cli

open LastWins

/-! ## Colours -/

def wrap (code s : String) : String := code ++ s ++ "\x1b[0m"

def red (s : String) : String := wrap "\x1b[31m" s

def yellow (s : String) : String := wrap "\x1b[33m" s

/-! ## Reading the options -/

def kDefaultHost : Bytes := ascii "127.0.0.1"

def kMaxPort : ℤ := 65535

def kBadPort : String :=
  "Error: Given port is not a valid number. Run holesail --help to see examples"

/-- `truthy`: absent is false, a bare flag is true, a number is false only at zero, and any other
value only when it is empty. -/
def truthy (args : Args) (name : Bytes) : Bool :=
  if args.boolean name then true
  else
    match args.str name with
    | none => false
    | some value =>
      match args.num name with
      | some number => number ≠ 0
      | none => value ≠ []

def validPort (args : Args) (name : Bytes) : Bool :=
  match args.num name with
  | some number => 0 ≤ number ∧ number ≤ kMaxPort
  | none => false

variable {args : Args} {name : Bytes}

theorem truthy_eq_true_iff :
    truthy args name = true ↔ args.read name = some .bare ∨
      ∃ value, args.read name = some (.value value) ∧ value ≠ [] ∧ args.num name ≠ some 0 := by
  rw [truthy, ← Args.boolean_eq_true_iff]
  simp only [← Args.str_eq_some_iff]
  by_cases hbare : args.boolean name = true
  · rw [if_pos hbare]
    exact iff_of_true rfl (.inl hbare)
  · rw [if_neg hbare, or_iff_right hbare]
    cases hstr : args.str name with
    | none => simp
    | some value =>
      cases hnum : args.num name with
      | none => simp
      | some number =>
        obtain ⟨value', hvalue', hnumeral, -⟩ := Args.num_eq_some_iff.mp hnum
        obtain rfl : value = value' :=
          Option.some.inj (hstr.symm.trans (Args.str_eq_some_iff.mpr hvalue'))
        simp [hnumeral.ne_nil]

theorem validPort_eq_true_iff :
    validPort args name = true ↔ ∃ number, args.num name = some number ∧
      0 ≤ number ∧ number ≤ kMaxPort := by
  rw [validPort]
  cases args.num name with
  | none => simp
  | some number => simp

def commonOptions (args : Args) : Options where
  udp := if args.has (ascii "udp") then some (truthy args (ascii "udp")) else none

def serverOptions (args : Args) : Options :=
  { commonOptions args with
    server := true
    port := some (UInt16.ofInt ((args.num (ascii "live")).getD 0))
    host := some (((args.str (ascii "host")).filter (· ≠ [])).getD kDefaultHost)
    secure := some (if args.has (ascii "public") then !args.boolean (ascii "public") else true)
    key := args.str (ascii "key") }

def clientOptions (args : Args) : Options :=
  { commonOptions args with
    client := true
    port :=
      if validPort args (ascii "port") then (args.num (ascii "port")).map UInt16.ofInt else none
    host := (args.str (ascii "host")).filter (· ≠ [])
    key := some ((args.str (ascii "connect")).getD (args.rest.head?.getD []))
    -- Left unset, the url decides.
    secure := if args.has (ascii "public") then some (!args.boolean (ascii "public")) else none }

/-! ## `validate` -/

structure Validation where
  ok : Bool
  message : String
  exitCode : ℤ
deriving DecidableEq

/-- A line behind what was logged before. -/
def withLog (log line : String) : String := if log = "" then line else log ++ "\n" ++ line

/-- `validate`. A bare `--key` exits with 0, every other failure with 2. -/
def validate (args : Args) : Validation :=
  if args.boolean (ascii "key") then ⟨false, withLog "" (red "Error: Key can not be empty"), 0⟩
  else
    let host := args.str (ascii "host")
    let log :=
      if truthy args (ascii "udp")
          ∧ (host = some (ascii "localhost") ∨ host = some (ascii "0.0.0.0")) then
        yellow "Warning: localhost or 0.0.0.0 may not work properly within netcat with UDP."
      else ""
    let badPort : Validation := ⟨false, withLog log (red kBadPort), 2⟩
    if (args.str (ascii "key")).any (fun key ↦ key ≠ [] ∧ key.length < 32)
        ∧ truthy args (ascii "force") = false then
      ⟨false, withLog log (red ("Error: A key should have a minimum length of 32 chars for "
        ++ "security purposes. If you still wish to proceed use --force")), 2⟩
    else if truthy args (ascii "connect") ∧ args.rest ≠ [] then
      ⟨false, withLog log (red ("Error: Are you trying to use two connection strings at once? Get "
        ++ "some holesail --help")), 2⟩
    else if truthy args (ascii "live") ∧ validPort args (ascii "live") = false then badPort
    else if truthy args (ascii "port") then
      if validPort args (ascii "port") = false then badPort else ⟨true, log, 0⟩
    else if args.str (ascii "port") = some [] then badPort
    else ⟨true, log, 0⟩

/-- What `validate` asks of the arguments it accepts. -/
structure Accepted (args : Args) : Prop where
  key_ne_bare : args.read (ascii "key") ≠ some .bare
  length_key : ∀ key, args.read (ascii "key") = some (.value key) → key ≠ [] →
    truthy args (ascii "force") = false → 32 ≤ key.length
  rest_eq_nil : truthy args (ascii "connect") = true → args.rest = []
  live : truthy args (ascii "live") = true → validPort args (ascii "live") = true
  port : truthy args (ascii "port") = true → validPort args (ascii "port") = true
  port_ne_nil : args.read (ascii "port") ≠ some (.value [])

theorem shortKey_iff :
    (args.str name).any (fun key ↦ key ≠ [] ∧ key.length < 32) = true ↔
      ∃ key, args.read name = some (.value key) ∧ key ≠ [] ∧ key.length < 32 := by
  simp only [← Args.str_eq_some_iff]
  cases args.str name with
  | none => simp
  | some key => simp

theorem validate_ok_iff : (validate args).ok = true ↔ Accepted args := by
  constructor
  · intro h
    rw [validate] at h
    split_ifs at h with hkey hlength hrest hlive hport hvalid hnil
    -- Two branches accept, and what was checked before them is the same.
    all_goals
      refine ⟨fun hbare ↦ hkey (Args.boolean_eq_true_iff.mpr hbare),
        fun key hread hne hforce ↦ Nat.not_lt.mp fun hlt ↦
          hlength ⟨shortKey_iff.mpr ⟨key, hread, hne, hlt⟩, hforce⟩,
        fun hconnect ↦ by_contra fun hne ↦ hrest ⟨hconnect, hne⟩,
        fun htruthy ↦ Bool.eq_true_of_not_eq_false fun hbad ↦ hlive ⟨htruthy, hbad⟩, ?_, ?_⟩
    · exact fun _ ↦ Bool.eq_true_of_not_eq_false hvalid
    · intro hempty
      obtain ⟨number, hnumber, -⟩ := validPort_eq_true_iff.mp (Bool.eq_true_of_not_eq_false hvalid)
      obtain ⟨value, hvalue, hnumeral, -⟩ := Args.num_eq_some_iff.mp hnumber
      obtain rfl : [] = value := by
        injection hempty.symm.trans hvalue with hsetting
        injection hsetting
      exact hnumeral.ne_nil rfl
    · exact fun htruthy ↦ absurd htruthy hport
    · exact fun hempty ↦ hnil (Args.str_eq_some_iff.mpr hempty)
  · intro h
    rw [validate]
    split_ifs with hkey hlength hrest hlive hport hvalid hnil
    · exact absurd (Args.boolean_eq_true_iff.mp hkey) h.key_ne_bare
    · obtain ⟨key, hread, hne, hlt⟩ := shortKey_iff.mp hlength.1
      exact absurd (h.length_key key hread hne hlength.2) (Nat.not_le.mpr hlt)
    · exact absurd (h.rest_eq_nil hrest.1) hrest.2
    · exact absurd (h.live hlive.1) (Bool.not_eq_true _ ▸ hlive.2)
    · exact absurd (h.port hport) (Bool.not_eq_true _ ▸ hvalid)
    · rfl
    · exact absurd (Args.str_eq_some_iff.mp hnil) h.port_ne_nil
    · rfl

/-! ## `run` -/

/-- The branch `run` takes. -/
inductive Outcome where
  | noSodium
  | rejected (validation : Validation)
  | help (topic : Bytes)
  | version
  | endpoint (options : Options)
  | noFilemanager
  | lookup (key : Bytes)
deriving DecidableEq

/-- `run`, with what `sodium_init` returns, up to the branch it takes. -/
def run (sodiumInit : ℤ) (argv : List Bytes) : Outcome :=
  if sodiumInit < 0 then .noSodium
  else
    let args := parseArgv argv
    let validation := validate args
    if validation.ok = false then .rejected validation
    -- The topic is read off `--help` only.
    else if truthy args (ascii "help") ∨ truthy args (ascii "h") then
      .help ((args.str (ascii "help")).getD [])
    else if truthy args (ascii "version") then .version
    else if truthy args (ascii "live") then .endpoint (serverOptions args)
    else if truthy args (ascii "connect") ∨ args.rest ≠ [] then .endpoint (clientOptions args)
    else if truthy args (ascii "filemanager") then .noFilemanager
    else if truthy args (ascii "lookup") then .lookup ((args.str (ascii "lookup")).getD [])
    else .help []

/-- **When `run` starts an endpoint**, and with which options. -/
theorem accepted_of_run {sodiumInit : ℤ} {argv : List Bytes} {o : Options}
    (h : run sodiumInit argv = .endpoint o) :
    Accepted (parseArgv argv) ∧
      (truthy (parseArgv argv) (ascii "live") = true ∧ o = serverOptions (parseArgv argv) ∨
        truthy (parseArgv argv) (ascii "live") = false ∧ o = clientOptions (parseArgv argv)) := by
  simp only [run] at h
  split_ifs at h with hsodium hok hhelp hversion hlive hconnect
  · exact ⟨validate_ok_iff.mp (Bool.eq_true_of_not_eq_false hok),
      .inl ⟨hlive, (Outcome.endpoint.inj h).symm⟩⟩
  · exact ⟨validate_ok_iff.mp (Bool.eq_true_of_not_eq_false hok),
      .inr ⟨Bool.eq_false_of_not_eq_true hlive, (Outcome.endpoint.inj h).symm⟩⟩

end Holesail.Cli
