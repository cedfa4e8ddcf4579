import Holesail.Endpoint.Identity
import Holesail.Endpoint.Lookup

/-!
# Whose record a lookup reports

Of the two addresses a lookup reads, one is the public key of the server that printed the url. In
private mode it is the primary one. In public mode it is the fallback, and whoever knows the url can
sign for the primary one, which is asked first.
-/

namespace Holesail

open Run

namespace Lookup

/-- The arm whose target is the server's own public key. -/
def ownArm (secure : Bool) : LookupArm := if secure then .primary else .fallback

end Lookup

/-- What an arm reads. -/
def LookupArms.target (arms : LookupArms) : LookupArm → Bytes32
  | .primary => arms.primary
  | .fallback => arms.fallback

open Lookup

theorem LookupArms.target_ownArm (arms : LookupArms) :
    arms.target (ownArm arms.secure) = arms.address := by
  rw [LookupArms.address, ownArm]
  split_ifs <;> rfl

/-- What asking one arm after the other answers, if the first one that replies is the own one. -/
theorem Lookup.Ping.own {secure : Bool} (replies : LookupArm → List Reply)
    {result : Option LookupResult}
    (h : Ping secure (replies .primary) (replies .fallback) result)
    (hsome : replies (ownArm secure) ≠ []) (hfirst : secure = true ∨ replies .primary = []) :
    ∃ r, Newest (replies (ownArm secure)) r ∧ result = some (lookupResult secure r.2) := by
  cases secure with
  | true =>
    change replies .primary ≠ [] at hsome
    cases h with
    | primary hnewest => exact ⟨_, hnewest, rfl⟩
    | fallback hnone => exact absurd hnone hsome
    | none hnone => exact absurd hnone hsome
  | false =>
    change replies .fallback ≠ [] at hsome
    have hempty := hfirst.resolve_left Bool.false_ne_true
    cases h with
    | primary hnewest =>
      have hmem := hnewest.mem
      rw [hempty] at hmem
      exact absurd hmem List.not_mem_nil
    | fallback _ hnewest => exact ⟨_, hnewest, rfl⟩
    | none _ hnone => exact absurd hnone hsome

/-- **A lookup reports the server's own record**: of the replies to the read of the server's public
key, one with the highest sequence number, if there is a reply that decodes, and if in public mode
there is none to the other read. -/
theorem lookup_own_record (C : Crypto) {options : Options} {random : Bytes32} {h : Holesail}
    (hserver : options.server = true) (hnew : Holesail.new C options random = .ok h)
    (hes : List Holesail.Event) {s : HolesailServer}
    (hs : (run (Holesail.step C) h hes).server = some s) (env : Env) (es : List Lookup.Event)
    (henabled : Along Lookup.step Enabled
      (start C (run (Holesail.step C) h hes).info.1.url env).2 es)
    (hrc : (start C (run (Holesail.step C) h hes).info.1.url env).1 = 0)
    (hsettled : (run Lookup.step
      (start C (run (Holesail.step C) h hes).info.1.url env).2 es).Settled) :
    ∃ arms, lookupArms C (run (Holesail.step C) h hes).info.1.url = some arms ∧
      arms.target (ownArm arms.secure) = s.publicKey ∧
      (replies (ownArm arms.secure) es ≠ [] → arms.secure = true ∨ replies .primary es = [] →
        ∃ r ∈ replies (ownArm arms.secure) es,
          (run Lookup.step (start C (run (Holesail.step C) h hes).info.1.url env).2 es).reported
            = [some (lookupResult arms.secure r.2)] ∧
          ∀ r' ∈ replies (ownArm arms.secure) es, r'.1 ≤ r.1) := by
  obtain ⟨hid, hkey, hurl⟩ :=
    Holesail.identified_of_running hserver hnew hes hs
  obtain ⟨arms, harms, -, haddress⟩ := Holesail.lookupArms_of_identified hid hkey
  rw [← hurl] at harms
  refine ⟨arms, harms, arms.target_ownArm.trans haddress, fun hsome hfirst ↦ ?_⟩
  rcases start_spec C (run (Holesail.step C) h hes).info.1.url env with ⟨hneg, -⟩ | ⟨-, htracks⟩
  · exact absurd hrc hneg.ne
  · rw [← secure_lookupArms harms] at htracks
    obtain ⟨result, hping, hreported⟩ := (tracks_run htracks henabled).reported.1 hsettled
    obtain ⟨r, hnewest, rfl⟩ := Ping.own (replies · es) hping hsome hfirst
    refine ⟨r, hnewest.mem, hreported, fun r' hr' ↦ ?_⟩
    exact UInt64.le_iff_toNat_le.mpr (hnewest.seq_le hr')

/-- Functions that answer as the real ones do on the test vector, and tell its seed from others. -/
def tellingCrypto : Crypto where
  sha256 := fun _ ↦ vectorSeed
  keypairFromSeed := fun seed ↦
    if seed = vectorSeed then ⟨vectorPublicKey⟩ else ⟨HolesailClient.zero32⟩

def publicOptions : Options where
  server := true
  host := some (ascii "127.0.0.1")
  key := some vectorKey

def recordFor (port : UInt16) : Bytes := encodeRecord (ascii "127.0.0.1") none port

def bothArms : List Lookup.Event :=
  [.value .primary 1 (some (recordFor 666)), .value .fallback 3 (some (recordFor 8080)),
    .done .fallback, .done .primary]

/-- The read of the primary address finds nothing that decodes. -/
def ownArmOnly : List Lookup.Event :=
  [.value .primary 1 (some (ascii "?")), .value .fallback 3 (some (recordFor 8080)),
    .value .fallback 2 (some (recordFor 8081)), .done .fallback, .done .primary]

/-- What the url of the test vector's public key makes of a lookup. -/
private theorem lookupArms_vector :
    lookupArms tellingCrypto (makeUrl false (z32Encode vectorPublicKey.1))
      = some ⟨false, HolesailClient.zero32, vectorPublicKey⟩ := by decide +kernel

private theorem holesail_vector :
    Holesail.new tellingCrypto publicOptions vectorSeed = .ok
      { options := publicOptions
        derived := derive tellingCrypto publicOptions vectorSeed } := rfl

/-- Then the server's own record is reported. -/
theorem lookup_own_record_at :
    ∃ arms, lookupArms tellingCrypto
        (makeUrl false (z32Encode vectorPublicKey.1)) = some arms ∧
      arms.target (ownArm arms.secure) = vectorPublicKey ∧
      (replies (ownArm arms.secure) ownArmOnly ≠ [] →
        arms.secure = true ∨ replies .primary ownArmOnly = [] →
        ∃ r ∈ replies (ownArm arms.secure) ownArmOnly,
          (run Lookup.step (start tellingCrypto
              (makeUrl false (z32Encode vectorPublicKey.1)) {}).2 ownArmOnly).reported
            = [some (lookupResult arms.secure r.2)] ∧
          ∀ r' ∈ replies (ownArm arms.secure) ownArmOnly, r'.1 ≤ r.1) := by
  have hstart := start_of_lookupArms lookupArms_vector
  have henabled : Along Lookup.step Enabled (start tellingCrypto
      (makeUrl false (z32Encode vectorPublicKey.1)) {}).2 ownArmOnly := by
    rw [hstart]
    decide +kernel
  have hsettled : (run Lookup.step (start tellingCrypto
      (makeUrl false (z32Encode vectorPublicKey.1)) {}).2 ownArmOnly).Settled := by
    rw [hstart]
    decide +kernel
  have h := lookup_own_record tellingCrypto rfl holesail_vector [.ready { random := vectorSeed }]
    rfl {} ownArmOnly henabled (congrArg Prod.fst hstart) hsettled
  exact h

/-- **In public mode the other record is reported**, if there is one. -/
theorem lookup_other_record :
    ¬∀ (C : Crypto) {options : Options} {random : Bytes32} {h : Holesail},
      options.server = true → Holesail.new C options random = .ok h →
      ∀ (hes : List Holesail.Event) {s : HolesailServer},
        (run (Holesail.step C) h hes).server = some s → ∀ (env : Env) (es : List Lookup.Event),
        Along Lookup.step Enabled (start C (run (Holesail.step C) h hes).info.1.url env).2 es →
        (start C (run (Holesail.step C) h hes).info.1.url env).1 = 0 →
        (run Lookup.step (start C (run (Holesail.step C) h hes).info.1.url env).2 es).Settled →
        ∃ arms, lookupArms C (run (Holesail.step C) h hes).info.1.url = some arms ∧
          arms.target (ownArm arms.secure) = s.publicKey ∧
          (replies (ownArm arms.secure) es ≠ [] →
            ∃ r ∈ replies (ownArm arms.secure) es,
              (run Lookup.step (start C (run (Holesail.step C) h hes).info.1.url env).2 es).reported
                = [some (lookupResult arms.secure r.2)] ∧
              ∀ r' ∈ replies (ownArm arms.secure) es, r'.1 ≤ r.1) := by
  intro h
  have hstart := start_of_lookupArms lookupArms_vector
  have henabled : Along Lookup.step Enabled (start tellingCrypto
      (makeUrl false (z32Encode vectorPublicKey.1)) {}).2 bothArms := by
    rw [hstart]
    decide +kernel
  have hsettled : (run Lookup.step (start tellingCrypto
      (makeUrl false (z32Encode vectorPublicKey.1)) {}).2 bothArms).Settled := by
    rw [hstart]
    decide +kernel
  obtain ⟨arms, harms, -, hown⟩ := h tellingCrypto rfl holesail_vector
    [.ready { random := vectorSeed }] rfl {} bothArms henabled (congrArg Prod.fst hstart) hsettled
  obtain rfl := Option.some.inj (harms.symm.trans lookupArms_vector)
  obtain ⟨r, hr, hreported, -⟩ := hown (by decide +kernel)
  have hreplies : replies (ownArm false) bothArms
      = [(3, ⟨ascii "127.0.0.1", none, some 8080⟩)] := by decide +kernel
  have hanswer : (run Lookup.step (start tellingCrypto
      (makeUrl false (z32Encode vectorPublicKey.1)) {}).2 bothArms).reported
      = [some ⟨ascii "127.0.0.1", 666, ascii "tcp", false⟩] := by
    rw [hstart]
    decide +kernel
  rw [hreplies] at hr
  obtain rfl := List.mem_singleton.mp hr
  exact absurd (hanswer.symm.trans hreported) (by decide +kernel)

end Holesail
