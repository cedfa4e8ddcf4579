import Holesail.Endpoint.Holesail
import Holesail.Theory.Champion
import Holesail.Theory.Run

/-!
# Looking a record up

`Holesail::lookup` starts two reads at once, one for each interpretation of the key, and chooses
between them when both are over. Whatever way their callbacks interleave, it answers what asking one
after the other would.
-/

namespace Holesail

open Run Champion

structure LookupResult where
  host : Bytes
  port : UInt16
  protocol : Bytes
  secure : Bool
deriving DecidableEq

/-- What a record says, as the result of a lookup. -/
def lookupResult (secure : Bool) (record : Record) : LookupResult where
  host := record.host
  port := record.port.getD 0
  protocol := protocolName (record.udp.getD false)
  secure := secure

/-- `LookupArm`: which of the two interpretations a read is for. -/
inductive LookupArm where
  | primary
  | fallback
deriving DecidableEq

/-- `LookupCtx`, without the loop, the DHT and the callback. -/
structure LookupCtx where
  secure : Bool
  pending : ℤ
  primaryRecord : Option Record := none
  fallbackRecord : Option Record := none
  primarySeq : UInt64 := 0
  fallbackSeq : UInt64 := 0
deriving DecidableEq

/-- One call of `Holesail::lookup`. -/
structure Lookup where
  /-- The context, until it is deleted. -/
  ctx : Option LookupCtx := none
  /-- The reads whose done callback is still to come. -/
  primaryRunning : Bool := false
  fallbackRunning : Bool := false
  /-- How often the DHT was handed to `reap_dht`. -/
  reaps : ℕ := 0
  /-- What the callback was called with, in order. -/
  reported : List (Option LookupResult) := []
deriving DecidableEq

namespace Lookup

/-! ## Callbacks -/

/-- Keep a reply if it decodes and is newer than the one kept so far. -/
def keepNewest (record : Option Record) (recordSeq seq : UInt64) (value : Option Bytes) :
    Option Record × UInt64 :=
  match value with
  | none => (record, recordSeq)
  | some value =>
    if value = [] then (record, recordSeq)
    else if record.isSome ∧ seq ≤ recordSeq then (record, recordSeq)
    else match decodeRecord value with
      | none => (record, recordSeq)
      | some decoded => (some decoded, seq)

/-- `lookup_value_cb`. -/
def valueCb (ctx : LookupCtx) (arm : LookupArm) (seq : UInt64) (value : Option Bytes) : LookupCtx :=
  match arm with
  | .primary =>
    let (record, recordSeq) := keepNewest ctx.primaryRecord ctx.primarySeq seq value
    { ctx with primaryRecord := record, primarySeq := recordSeq }
  | .fallback =>
    let (record, recordSeq) := keepNewest ctx.fallbackRecord ctx.fallbackSeq seq value
    { ctx with fallbackRecord := record, fallbackSeq := recordSeq }

/-- `lookup_finish`. -/
def finish (l : Lookup) (ctx : LookupCtx) : Lookup :=
  let record := if ctx.primaryRecord.isSome then ctx.primaryRecord else ctx.fallbackRecord
  { l with
    ctx := none
    reaps := l.reaps + 1
    reported := l.reported ++ [record.map (lookupResult ctx.secure)] }

/-- `lookup_done_cb`. -/
def doneCb (l : Lookup) : Lookup :=
  match l.ctx with
  | none => l
  | some ctx =>
    let ctx := { ctx with pending := ctx.pending - 1 }
    if 0 < ctx.pending then { l with ctx := some ctx } else l.finish ctx

/-- What the world answers while `lookup` runs. -/
structure Env where
  /-- `create_dht` returned a DHT. -/
  created : Bool := true
  /-- What `hyperdht_mutable_get` returns for each arm. -/
  primary : ℤ := 0
  fallback : ℤ := 0

/-- `Holesail::lookup`. -/
def start (C : Crypto) (url : Bytes) (env : Env) : ℤ × Lookup :=
  match lookupArms C url with
  | none => (uvEINVAL, {})
  | some arms =>
    if env.created = false then (uvENOMEM, {})
    else
      let l : Lookup := {
        ctx := some { secure := arms.secure, pending := 2 }
        primaryRunning := env.primary = 0
        fallbackRunning := env.fallback = 0 }
      if l.primaryRunning = false ∧ l.fallbackRunning = false then
        (uvEIo, { l with ctx := none, reaps := l.reaps + 1 })
      -- An arm that never started is settled by hand.
      else if l.primaryRunning = false ∨ l.fallbackRunning = false then (0, l.doneCb)
      else (0, l)

/-! ## The machine -/

inductive Event where
  | value (arm : LookupArm) (seq : UInt64) (value : Option Bytes)
  | done (arm : LookupArm)
deriving DecidableEq

/-- The read for an arm is still to be done. -/
def running (l : Lookup) : LookupArm → Bool
  | .primary => l.primaryRunning
  | .fallback => l.fallbackRunning

/-- The read for an arm is over. -/
def stop (l : Lookup) : LookupArm → Lookup
  | .primary => { l with primaryRunning := false }
  | .fallback => { l with fallbackRunning := false }

def step (l : Lookup) : Event → Lookup
  | .value arm seq value => { l with ctx := l.ctx.map (valueCb · arm seq value) }
  | .done arm => (l.stop arm).doneCb

/-- Values come before the done callback of their arm, which comes once. -/
def Enabled (l : Lookup) : Event → Prop
  | .value arm _ _ => l.running arm = true
  | .done arm => l.running arm = true

instance (l : Lookup) : (e : Event) → Decidable (l.Enabled e)
  | .value _ _ _ => inferInstanceAs (Decidable (_ = _))
  | .done _ => inferInstanceAs (Decidable (_ = _))

/-- Both arms are over. -/
def Settled (l : Lookup) : Prop := l.primaryRunning = false ∧ l.fallbackRunning = false

instance (l : Lookup) : Decidable l.Settled := inferInstanceAs (Decidable (_ ∧ _))

/-! ## Asking one after the other -/

/-- A reply that decodes: its sequence number and what it says. -/
abbrev Reply := UInt64 × Record

/-- The replies of an arm that decode. -/
def Event.replies (arm : LookupArm) : Event → List Reply
  | .value arm' seq (some bytes) =>
    if arm' = arm then ((decodeRecord bytes).map (seq, ·)).toList else []
  | _ => []

/-- The replies of an arm that decode, in the order of their arrival. -/
def replies (arm : LookupArm) (es : List Event) : List Reply := es.flatMap (Event.replies arm)

/-- A reply takes the place of an older one. -/
def Newer (r old : Reply) : Prop := old.1.toNat < r.1.toNat

instance (r old : Reply) : Decidable (Newer r old) := Nat.decLt _ _

/-- The first of the replies with the highest sequence number. -/
def Newest (replies : List Reply) (r : Reply) : Prop := IsChampion Newer replies r

/-- What asking one arm after the other answers: the newest reply of the primary arm, or if that has
none, of the fallback arm. -/
inductive Ping (secure : Bool) (primary fallback : List Reply) : Option LookupResult → Prop
  | primary {r : Reply} (h : Newest primary r) :
    Ping secure primary fallback (some (lookupResult secure r.2))
  | fallback (hnone : primary = []) {r : Reply} (h : Newest fallback r) :
    Ping secure primary fallback (some (lookupResult secure r.2))
  | none (hnone : primary = []) (hnone' : fallback = []) : Ping secure primary fallback none

theorem ranking_newer : Ranking Newer := ranking_lt fun r : Reply ↦ r.1.toNat

theorem Newest.mem {replies : List Reply} {r : Reply} (h : Newest replies r) : r ∈ replies :=
  IsChampion.mem h

theorem Newest.seq_le {replies : List Reply} {newest : Reply} (h : Newest replies newest)
    {r : Reply} (hr : r ∈ replies) : r.1.toNat ≤ newest.1.toNat :=
  IsChampion.le_of_ranking_lt (fun r : Reply ↦ r.1.toNat) h hr

/-! ## What the context holds -/

/-- What a context keeps of the newest reply of an arm. -/
def slot : Option Reply → Option Record × UInt64
  | some r => (some r.2, r.1)
  | none => (none, 0)

/-- **One reply** is kept exactly if it is newer than the champion. -/
theorem keepNewest_slot (best : Option Reply) (arm : LookupArm) (seq : UInt64)
    (value : Option Bytes) :
    keepNewest (slot best).1 (slot best).2 seq value
      = slot ((Event.replies arm (.value arm seq value)).foldl (challenge Newer) best) := by
  cases value with
  | none => rfl
  | some bytes =>
    have hempty : decodeRecord [] = none := by decide +kernel
    by_cases hne : bytes = []
    · subst hne
      simp [keepNewest, Event.replies, hempty]
    · rw [keepNewest, if_neg hne, Event.replies, if_pos rfl]
      cases hdecode : decodeRecord bytes with
      | none =>
        simp only [Option.map_none, Option.toList_none, List.foldl_nil, ite_self]
      | some record =>
        simp only [Option.map_some, Option.toList_some, List.foldl_cons, List.foldl_nil]
        cases best with
        | none => rfl
        | some old =>
          have hiff : Newer (seq, record) old ↔ ¬seq ≤ old.1 := by
            rw [UInt64.le_iff_toNat_le, Nat.not_le]
            rfl
          rw [challenge]
          by_cases hnewer : Newer (seq, record) old
          · rw [if_pos hnewer, if_neg fun hkept ↦ hiff.mp hnewer hkept.2]
            rfl
          · rw [if_neg hnewer, if_pos ⟨rfl, not_not.mp fun hnot ↦ hnewer (hiff.mpr hnot)⟩]

/-- The context has seen these replies. -/
structure Seen (primary fallback : List Reply) (ctx : LookupCtx) : Prop where
  primary : (ctx.primaryRecord, ctx.primarySeq) = slot (champion Newer primary)
  fallback : (ctx.fallbackRecord, ctx.fallbackSeq) = slot (champion Newer fallback)

theorem champion_append (l l' : List Reply) :
    champion Newer (l ++ l') = l'.foldl (challenge Newer) (champion Newer l) := List.foldl_append

theorem Seen.start (secure : Bool) (pending : ℤ) :
    Seen [] [] { secure := secure, pending := pending } := ⟨rfl, rfl⟩

theorem Seen.value {primary fallback : List Reply} {ctx : LookupCtx} (h : Seen primary fallback ctx)
    (arm : LookupArm) (seq : UInt64) (value : Option Bytes) :
    Seen (primary ++ Event.replies .primary (.value arm seq value))
      (fallback ++ Event.replies .fallback (.value arm seq value)) (valueCb ctx arm seq value) := by
  have hother : ∀ {arm' : LookupArm}, arm ≠ arm' →
      Event.replies arm' (.value arm seq value) = [] := by
    intro arm' hne
    cases value with
    | none => rfl
    | some bytes => exact if_neg hne
  obtain ⟨hprimary, hfallback⟩ := h
  cases arm with
  | primary =>
    refine ⟨?_, ?_⟩
    · rw [champion_append, ← keepNewest_slot, ← hprimary]
      rfl
    · rw [hother (by decide), List.append_nil]
      exact hfallback
  | fallback =>
    refine ⟨?_, ?_⟩
    · rw [hother (by decide), List.append_nil]
      exact hprimary
    · rw [champion_append, ← keepNewest_slot, ← hfallback]
      rfl

/-- **The choice between the arms** is the one of asking one after the other. -/
theorem Seen.ping {primary fallback : List Reply} {ctx : LookupCtx}
    (h : Seen primary fallback ctx) :
    Ping ctx.secure primary fallback
      ((if ctx.primaryRecord.isSome then ctx.primaryRecord else ctx.fallbackRecord).map
        (lookupResult ctx.secure)) := by
  have hprimary := congrArg Prod.fst h.primary
  have hfallback := congrArg Prod.fst h.fallback
  cases hp : champion Newer primary with
  | some r =>
    rw [hp] at hprimary
    rw [show ctx.primaryRecord = some r.2 from hprimary]
    exact .primary ((champion_eq_some_iff ranking_newer).1 hp)
  | none =>
    rw [hp] at hprimary
    rw [show ctx.primaryRecord = none from hprimary]
    have hnone := champion_eq_none_iff.mp hp
    cases hf : champion Newer fallback with
    | some r =>
      rw [hf] at hfallback
      rw [show ctx.fallbackRecord = some r.2 from hfallback]
      exact .fallback hnone ((champion_eq_some_iff ranking_newer).1 hf)
    | none =>
      rw [hf] at hfallback
      rw [show ctx.fallbackRecord = none from hfallback]
      exact .none hnone (champion_eq_none_iff.mp hf)

/-! ## Runs -/

/-- How many arms are still to be done. -/
def inFlight (l : Lookup) : ℤ := l.primaryRunning.toNat + l.fallbackRunning.toNat

/-- The lookup goes on: its context counts the arms still to be done, and has seen the replies. -/
structure Open (secure : Bool) (primary fallback : List Reply) (l : Lookup) (ctx : LookupCtx) :
    Prop where
  holds : l.ctx = some ctx
  secure : ctx.secure = secure
  seen : Seen primary fallback ctx
  pending : ctx.pending = l.inFlight
  running : 0 < l.inFlight
  reported : l.reported = []

/-- The lookup is over, and has called back once. -/
structure Closed (secure : Bool) (primary fallback : List Reply) (l : Lookup) : Prop where
  freed : l.ctx = none
  settled : l.Settled
  reported : ∃ result, Ping secure primary fallback result ∧ l.reported = [result]

/-- Where a lookup stands after the given replies. -/
def Tracks (secure : Bool) (primary fallback : List Reply) (l : Lookup) : Prop :=
  (∃ ctx, Open secure primary fallback l ctx) ∨ Closed secure primary fallback l

theorem settled_iff (l : Lookup) : l.Settled ↔ l.inFlight ≤ 0 := by
  rw [Settled, inFlight]
  cases l.primaryRunning <;> cases l.fallbackRunning <;> decide

theorem inFlight_stop {l : Lookup} {arm : LookupArm} (h : l.running arm = true) :
    (l.stop arm).inFlight = l.inFlight - 1 := by
  cases arm with
  | primary =>
    rw [running] at h
    simp only [inFlight, stop, h, Bool.toNat_false, Bool.toNat_true]
    omega
  | fallback =>
    rw [running] at h
    simp only [inFlight, stop, h, Bool.toNat_false, Bool.toNat_true]
    omega

/-- **An arm is done**: either the other is still to come, or the lookup calls back. -/
theorem tracks_doneCb {secure : Bool} {primary fallback : List Reply} {l : Lookup}
    {ctx : LookupCtx} (hctx : l.ctx = some ctx) (hsecure : ctx.secure = secure)
    (hseen : Seen primary fallback ctx) (hpending : ctx.pending - 1 = l.inFlight)
    (hreported : l.reported = []) : Tracks secure primary fallback l.doneCb := by
  have hdone : l.doneCb = if 0 < ctx.pending - 1 then
      { l with ctx := some { ctx with pending := ctx.pending - 1 } }
      else l.finish { ctx with pending := ctx.pending - 1 } := by
    rw [doneCb, hctx]
  rw [hdone, hpending]
  split_ifs with hrunning
  · exact Or.inl ⟨_, rfl, hsecure, ⟨hseen.primary, hseen.fallback⟩, rfl, hrunning, hreported⟩
  · refine Or.inr ⟨rfl, (settled_iff l).mpr (Int.not_lt.mp hrunning), ?_⟩
    refine ⟨_, ?_, congrArg (· ++ [_]) hreported⟩
    rw [← hsecure]
    exact hseen.ping

theorem Tracks.step {secure : Bool} {primary fallback : List Reply} {l : Lookup}
    (h : Tracks secure primary fallback l) {e : Event} (henabled : l.Enabled e) :
    Tracks secure (primary ++ e.replies .primary) (fallback ++ e.replies .fallback) (l.step e) := by
  rcases h with ⟨ctx, hctx, hsecure, hseen, hpending, hrunning, hreported⟩ | hclosed
  · cases e with
    | value arm seq value =>
      have hsecure' : (valueCb ctx arm seq value).secure = ctx.secure := by
        cases arm <;> rfl
      have hpending' : (valueCb ctx arm seq value).pending = ctx.pending := by
        cases arm <;> rfl
      refine Or.inl ⟨valueCb ctx arm seq value, ?_, hsecure'.trans hsecure,
        hseen.value arm seq value, hpending'.trans hpending, hrunning, hreported⟩
      rw [Lookup.step, hctx]
      rfl
    | done arm =>
      have hstop : (l.stop arm).ctx = l.ctx ∧ (l.stop arm).reported = l.reported := by
        cases arm <;> exact ⟨rfl, rfl⟩
      have hcount := inFlight_stop (l := l) henabled
      have hnone : ∀ arm', Event.replies arm' (.done arm) = [] := fun _ ↦ rfl
      rw [hnone, hnone, List.append_nil, List.append_nil]
      apply tracks_doneCb (hstop.1.trans hctx) hsecure hseen ?_ (hstop.2.trans hreported)
      rw [hcount, hpending]
  -- Both reads are over, and nothing can happen any more.
  · obtain ⟨hprimary, hfallback⟩ := hclosed.settled
    have hnot : ∀ arm, l.running arm = false := by
      rintro (_ | _)
      · exact hprimary
      · exact hfallback
    cases e with
    | value arm seq value => exact absurd ((hnot arm).symm.trans henabled) Bool.false_ne_true
    | done arm => exact absurd ((hnot arm).symm.trans henabled) Bool.false_ne_true

/-- A lookup that was not started, or could not be. -/
structure Failed (l : Lookup) : Prop where
  settled : l.Settled
  reported : l.reported = []

theorem secure_lookupArms {C : Crypto} {url : Bytes} {arms : LookupArms}
    (h : lookupArms C url = some arms) : arms.secure = (parseUrl url).secure.getD false := by
  rw [lookupArms] at h
  split at h
  · split_ifs at h
    rw [← Option.some.inj h]
  · exact nomatch h

/-- **What starting a lookup comes to**: an error, or a lookup that has seen nothing yet. -/
theorem start_spec (C : Crypto) (url : Bytes) (env : Env) :
    (start C url env).1 < 0 ∧ Failed (start C url env).2 ∨
      (start C url env).1 = 0 ∧
        Tracks ((parseUrl url).secure.getD false) [] [] (start C url env).2 := by
  rw [start]
  cases harms : lookupArms C url with
  | none => exact Or.inl ⟨(show uvEINVAL < 0 by decide), ⟨rfl, rfl⟩, rfl⟩
  | some arms =>
    dsimp only
    by_cases hcreated : env.created = false
    · rw [if_pos hcreated]
      exact Or.inl ⟨(show uvENOMEM < 0 by decide), ⟨rfl, rfl⟩, rfl⟩
    · have hsecure := secure_lookupArms harms
      rw [if_neg hcreated]
      by_cases hprimary : env.primary = 0 <;> by_cases hfallback : env.fallback = 0
      · -- Both reads have started.
        simp only [hprimary, hfallback, decide_true, Bool.true_eq_false, and_self, or_self,
          if_false]
        exact Or.inr ⟨trivial, Or.inl ⟨_, rfl, hsecure, Seen.start _ _, rfl,
          (show (0 : ℤ) < 2 by decide), rfl⟩⟩
      · simp only [hprimary, hfallback, decide_true, decide_false, Bool.true_eq_false, false_and,
          false_or, if_false, if_true]
        exact Or.inr ⟨trivial, tracks_doneCb rfl hsecure (Seen.start _ _) rfl rfl⟩
      · simp only [hprimary, hfallback, decide_true, decide_false, Bool.true_eq_false, and_false,
          or_false, if_false, if_true]
        exact Or.inr ⟨trivial, tracks_doneCb rfl hsecure (Seen.start _ _) rfl rfl⟩
      · simp only [hprimary, hfallback, decide_false, and_self, if_true]
        exact Or.inl ⟨(show uvEIo < 0 by decide), ⟨rfl, rfl⟩, rfl⟩

theorem Failed.not_enabled {l : Lookup} (h : Failed l) (e : Event) : ¬l.Enabled e := by
  obtain ⟨hprimary, hfallback⟩ := h.settled
  intro henabled
  cases e with
  | value arm seq value => cases arm <;> simp_all [Enabled, running]
  | done arm => cases arm <;> simp_all [Enabled, running]

theorem tracks_run {secure : Bool} {l : Lookup} (h : Tracks secure [] [] l) {es : List Event}
    (henabled : Along step Enabled l es) :
    Tracks secure (replies .primary es) (replies .fallback es) (run step l es) := by
  refine history_of_along (G := Enabled) (P := fun es l ↦
    Tracks secure (replies .primary es) (replies .fallback es) l) h ?_ henabled
  intro es e hes he
  have hnext := hes.step he
  rw [replies, replies, List.flatMap_append, List.flatMap_append, List.flatMap_singleton,
    List.flatMap_singleton]
  exact hnext

theorem Tracks.reported {secure : Bool} {primary fallback : List Reply} {l : Lookup}
    (h : Tracks secure primary fallback l) :
    (l.Settled → ∃ result, Ping secure primary fallback result ∧ l.reported = [result]) ∧
      (¬l.Settled → l.reported = []) := by
  rcases h with ⟨ctx, hopen⟩ | hclosed
  · refine ⟨fun hsettled ↦ ?_, fun _ ↦ hopen.reported⟩
    exact absurd hopen.running (Int.not_lt.mpr ((settled_iff l).mp hsettled))
  · exact ⟨fun _ ↦ hclosed.reported, fun hnot ↦ absurd hclosed.settled hnot⟩

/-- **A lookup answers what asking one arm after the other does**: if it starts, it calls back
exactly once, when both arms are over; and if it returns an error, it never does. -/
theorem reported_eq_ping (C : Crypto) (url : Bytes) (env : Env) (es : List Event)
    (henabled : Along step Enabled (start C url env).2 es) :
    ((start C url env).1 = 0 ∨ (start C url env).1 < 0) ∧
    ((start C url env).1 = 0 →
      ((run step (start C url env).2 es).Settled → ∃ result,
        Ping ((parseUrl url).secure.getD false) (replies .primary es) (replies .fallback es)
            result ∧
          (run step (start C url env).2 es).reported = [result]) ∧
      (¬(run step (start C url env).2 es).Settled →
        (run step (start C url env).2 es).reported = [])) ∧
    ((start C url env).1 < 0 → (run step (start C url env).2 es).reported = []) := by
  rcases start_spec C url env with ⟨hrc, hfailed⟩ | ⟨hrc, htracks⟩
  · refine ⟨Or.inr hrc, fun hzero ↦ absurd hzero hrc.ne, fun _ ↦ ?_⟩
    cases es with
    | nil => exact hfailed.reported
    | cons e es => exact absurd henabled.1 (hfailed.not_enabled e)
  · refine ⟨Or.inl hrc, fun _ ↦ (tracks_run htracks henabled).reported, fun hneg ↦ ?_⟩
    exact absurd hrc hneg.ne

theorem start_of_lookupArms {C : Crypto} {url : Bytes} {arms : LookupArms}
    (h : lookupArms C url = some arms) : start C url {} = (0, {
      ctx := some { secure := arms.secure, pending := 2 }
      primaryRunning := true
      fallbackRunning := true }) := by
  rw [start, h]
  rfl

/-- Both arms answer; the primary one is done first, and its newest reply does not decode. -/
def interleaved : List Event :=
  [.value .fallback 9 (some (ascii "\x7b\"host\":\"b\",\"port\":2\x7d")),
    .value .primary 4 (some (ascii "\x7b\"host\":\"a\",\"udp\":true,\"port\":1\x7d")),
    .value .primary 7 (some (ascii "?")), .done .primary, .done .fallback]

/-- The primary arm's is the answer. -/
theorem reported_eq_ping_at :
    ∃ result, Ping true (replies .primary interleaved) (replies .fallback interleaved) result ∧
      (run step (start vectorCrypto (makeUrl true vectorKey) {}).2 interleaved).reported
        = [result] ∧ result = some ⟨ascii "a", 1, ascii "udp", true⟩ := by
  have hsecure : (parseUrl (makeUrl true vectorKey)).secure.getD false = true := by decide +kernel
  obtain ⟨arms, harms⟩ : ∃ arms, lookupArms vectorCrypto (makeUrl true vectorKey) = some arms :=
    Option.isSome_iff_exists.1 (by decide +kernel)
  have hstart := start_of_lookupArms harms
  rw [← secure_lookupArms harms] at hsecure
  rw [hsecure] at hstart
  have h := reported_eq_ping vectorCrypto (makeUrl true vectorKey) {} interleaved
    (by rw [hstart]; decide +kernel)
  obtain ⟨result, hping, hreported⟩ :=
    (h.2.1 (by rw [hstart])).1 (by rw [hstart]; decide +kernel)
  have hvalue : (run step (start vectorCrypto (makeUrl true vectorKey) {}).2 interleaved).reported
      = [some ⟨ascii "a", 1, ascii "udp", true⟩] := by
    rw [hstart]
    decide +kernel
  rw [← secure_lookupArms harms, hsecure] at hping
  exact ⟨result, hping, hreported, List.singleton_inj.mp (hreported.symm.trans hvalue)⟩

end Lookup

end Holesail
