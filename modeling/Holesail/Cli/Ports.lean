import Holesail.Cli.Dispatch

/-!
# The ports that reach an endpoint

`server_options` and `client_options` cast a `long` to `uint16_t`, and the cast keeps what fits and
truncates the rest. What they cast has been through `validate`. It asks whether a port is one only
where `truthy` holds of it, and the values that are not truthy are an empty one, which it refuses
for `--port`, and zero, which fits.

So a port that reaches an endpoint is the one that was written. The server's is never zero, since
zero does not select the branch.
-/

namespace Holesail.Cli

open LastWins

/-- `setting` is a decimal integer from `lo` on that is a port, and `port` is that port. -/
def IsPort (lo : ℤ) (setting : Setting Bytes) (port : UInt16) : Prop :=
  ∃ value n, setting = .value value ∧ Numeral value n ∧ lo ≤ n ∧ n ≤ 65535 ∧ (port.toNat : ℤ) = n

theorem toNat_ofInt {n : ℤ} (hlo : 0 ≤ n) (hhi : n ≤ 65535) : ((UInt16.ofInt n).toNat : ℤ) = n := by
  rw [UInt16.ofInt, UInt16.toNat_ofNat']
  omega

variable {args : Args} {name : Bytes}

theorem exists_numeral_of_validPort (h : validPort args name = true) :
    ∃ value n, args.num name = some n ∧ args.read name = some (.value value) ∧
      Numeral value n ∧ 0 ≤ n ∧ n ≤ 65535 := by
  obtain ⟨n, hnum, hlo, hhi⟩ := validPort_eq_true_iff.mp h
  obtain ⟨value, hread, hnumeral, -⟩ := Args.num_eq_some_iff.mp hnum
  exact ⟨value, n, hnum, hread, hnumeral, hlo, hhi⟩

/-- A `--port` that is accepted is valid: if it is not truthy it is zero. -/
theorem Accepted.validPort_port (h : Accepted args) {setting : Setting Bytes}
    (hport : args.read (ascii "port") = some setting) : validPort args (ascii "port") = true := by
  by_cases htruthy : truthy args (ascii "port") = true
  · exact h.port htruthy
  · rw [truthy_eq_true_iff, not_or, not_exists] at htruthy
    obtain ⟨hbare, hvalue⟩ := htruthy
    cases setting with
    | bare => exact absurd hport hbare
    | value value =>
      have hne : value ≠ [] := by
        rintro rfl
        exact h.port_ne_nil hport
      have hzero : args.num (ascii "port") = some 0 :=
        by_contra fun hnum ↦ hvalue value ⟨hport, hne, hnum⟩
      exact validPort_eq_true_iff.mpr ⟨0, hzero, le_refl 0, by decide⟩

theorem Accepted.isPort_serverOptions (h : Accepted args)
    (hlive : truthy args (ascii "live") = true) :
    ∃ setting port, args.read (ascii "live") = some setting ∧ IsPort 1 setting port ∧
      (serverOptions args).port = some port := by
  obtain ⟨value, n, hnum, hread, hnumeral, hlo, hhi⟩ := exists_numeral_of_validPort (h.live hlive)
  have hzero : n ≠ 0 := by
    rintro rfl
    rcases truthy_eq_true_iff.mp hlive with hbare | ⟨_, -, -, hne⟩
    · exact absurd (hread.symm.trans hbare) (by simp)
    · exact hne hnum
  refine ⟨_, UInt16.ofInt n, hread, ⟨value, n, rfl, hnumeral, ?_, hhi, toNat_ofInt hlo hhi⟩, ?_⟩
  · omega
  · rw [serverOptions, hnum]
    rfl

theorem Accepted.isPort_clientOptions (h : Accepted args) {setting : Setting Bytes}
    (hport : args.read (ascii "port") = some setting) :
    ∃ port, IsPort 0 setting port ∧ (clientOptions args).port = some port := by
  have hvalid := h.validPort_port hport
  obtain ⟨value, n, hnum, hread, hnumeral, hlo, hhi⟩ := exists_numeral_of_validPort hvalid
  obtain rfl : setting = .value value := Option.some.inj (hport.symm.trans hread)
  refine ⟨UInt16.ofInt n, ⟨value, n, rfl, hnumeral, hlo, hhi, toNat_ofInt hlo hhi⟩, ?_⟩
  rw [clientOptions, if_pos hvalid, hnum]
  rfl

theorem port_clientOptions_of_none (hport : args.read (ascii "port") = none) :
    (clientOptions args).port = none := by
  have hvalid : validPort args (ascii "port") ≠ true := by
    intro hvalid
    obtain ⟨value, -, -, hread, -⟩ := exists_numeral_of_validPort hvalid
    exact absurd (hport.symm.trans hread) (Option.some_ne_none _).symm
  rw [clientOptions, if_neg hvalid]

theorem serverOptions_ne_clientOptions (args args' : Args) :
    serverOptions args ≠ clientOptions args' := by
  intro h
  exact absurd (congrArg Options.server h) (by simp [serverOptions, clientOptions, commonOptions])

/-- **The port that reaches an endpoint is the one that was given.** -/
theorem ports_exact (sodiumInit : ℤ) (argv : List Bytes) {o : Options}
    (h : run sodiumInit argv = .endpoint o) :
    (o = serverOptions (parseArgv argv) →
      ∃ setting port, Given argv (ascii "live") (some setting) ∧ IsPort 1 setting port ∧
        o.port = some port) ∧
    (o = clientOptions (parseArgv argv) →
      (Given argv (ascii "port") none → o.port = none) ∧
      ∀ setting, Given argv (ascii "port") (some setting) →
        ∃ port, IsPort 0 setting port ∧ o.port = some port) ∧
    ∀ setting, Given argv (ascii "port") (some setting) → ∃ port, IsPort 0 setting port := by
  simp only [given_iff]
  obtain ⟨haccepted, hbranch⟩ := accepted_of_run h
  refine ⟨?_, ?_, fun setting hport ↦ ?_⟩
  · rintro rfl
    rcases hbranch with ⟨hlive, -⟩ | ⟨-, heq⟩
    · exact haccepted.isPort_serverOptions hlive
    · exact absurd heq (serverOptions_ne_clientOptions _ _)
  · rintro rfl
    exact ⟨port_clientOptions_of_none, fun _ ↦ haccepted.isPort_clientOptions⟩
  · obtain ⟨port, hisPort, -⟩ := haccepted.isPort_clientOptions hport
    exact ⟨port, hisPort⟩

/-- A server with a `--port` of zero, which is no truthy value and goes through. -/
theorem ports_exact_at :
    let argv := ["holesail", "--live", "08080", "--port=0"].map ascii
    run 0 argv = .endpoint (serverOptions (parseArgv argv)) ∧
      (∃ setting port, Given argv (ascii "live") (some setting) ∧ IsPort 1 setting port ∧
        (serverOptions (parseArgv argv)).port = some port) ∧
      ∃ port, IsPort 0 (.value (ascii "0")) port := by
  have hrun : run 0 (["holesail", "--live", "08080", "--port=0"].map ascii)
      = .endpoint (serverOptions (parseArgv
          (["holesail", "--live", "08080", "--port=0"].map ascii))) := by
    decide +kernel
  obtain ⟨hserver, -, hport⟩ := ports_exact 0 _ hrun
  exact ⟨hrun, hserver rfl, hport _ (given_iff.mpr (by decide +kernel))⟩

end Holesail.Cli
