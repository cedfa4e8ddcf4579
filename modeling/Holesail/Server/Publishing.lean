import Holesail.Server.Lifecycle
import Holesail.Theory.Champion

/-!
# The sequence numbers a server publishes under

Each round reads the record and puts it again, under a sequence number computed from the newest
reply of that read alone. This file says what that reply is, when the put supersedes every reply of
its round, and when the puts of a whole life follow one another.
-/

namespace Holesail

namespace HolesailServer

open Run Champion

/-! ## One read of the record -/

/-- One reply to a read: its sequence number and its value. -/
abbrev Reply := UInt64 × Bytes

/-- What a read has seen once all its replies have arrived. -/
def read (replies : List Reply) : GetCtx :=
  replies.foldl (fun ctx r ↦ getValueCb ctx r.1 (some r.2)) {}

/-- A reply takes the place of one that is not newer. -/
def Renews (r old : Reply) : Prop := old.1.toNat ≤ r.1.toNat

instance (r old : Reply) : Decidable (Renews r old) := Nat.decLe _ _

theorem ranking_renews : Ranking Renews := ranking_le fun r : Reply ↦ r.1.toNat

/-- The last of the replies with the highest sequence number. -/
def Newest (replies : List Reply) (r : Reply) : Prop := IsChampion Renews replies r

theorem Newest.seq_le {replies : List Reply} {newest : Reply} (h : Newest replies newest)
    {r : Reply} (hr : r ∈ replies) : r.1.toNat ≤ newest.1.toNat :=
  IsChampion.le_of_ranking_le (fun r : Reply ↦ r.1.toNat) h hr

theorem Newest.mem {replies : List Reply} {newest : Reply} (h : Newest replies newest) :
    newest ∈ replies := IsChampion.mem h

/-- What a `GetCtx` says of the newest reply. -/
def GetCtx.of : Option Reply → GetCtx
  | some r => ⟨r.1, r.2, true⟩
  | none => {}

theorem getValueCb_of (best : Option Reply) (r : Reply) :
    getValueCb (GetCtx.of best) r.1 (some r.2) = GetCtx.of (challenge Renews best r) := by
  cases best with
  | none => rfl
  | some b =>
    rw [challenge]
    by_cases h : Renews r b
    · rw [if_pos h]
      refine if_neg fun hkeep ↦ ?_
      exact absurd (UInt64.lt_iff_toNat_lt.mp hkeep.2) (Nat.not_lt.mpr h)
    · rw [if_neg h]
      refine if_pos ⟨rfl, UInt64.lt_iff_toNat_lt.mpr ?_⟩
      exact Nat.not_le.mp h

/-- **A read keeps the newest reply.** -/
theorem read_eq (replies : List Reply) : read replies = GetCtx.of (champion Renews replies) := by
  induction replies using List.reverseRecOn with
  | nil => rfl
  | append_singleton replies r ih =>
    rw [champion_concat, ← getValueCb_of, ← ih, read, List.foldl_append]
    rfl

theorem read_eq_of_newest {replies : List Reply} {r : Reply} (h : Newest replies r) :
    read replies = ⟨r.1, r.2, true⟩ := by
  rw [read_eq, (champion_eq_some_iff ranking_renews).2 h]
  rfl

theorem exists_newest {replies : List Reply} (h : replies ≠ []) : ∃ r, Newest replies r := by
  cases hc : champion Renews replies with
  | none => exact absurd (champion_eq_none_iff.mp hc) h
  | some r => exact ⟨r, (champion_eq_some_iff ranking_renews).1 hc⟩

/-! ## One put -/

/-- The sequence number that `get_done_cb` puts `record_` under. -/
def putSeq (s : HolesailServer) (ctx : GetCtx) : UInt64 :=
  nextSeq ctx.had ctx.seq (ctx.value = s.record)

theorem calls_getDoneCb (s : HolesailServer) (ctx : GetCtx) :
    (s.getDoneCb ctx).calls = s.calls ++ [.mutablePut s.record (s.putSeq ctx)] := rfl

def maxSeq : UInt64 := 0xffffffffffffffff

theorem toNat_add_one {seq : UInt64} (h : seq ≠ maxSeq) : (seq + 1).toNat = seq.toNat + 1 := by
  have hlt : seq.toNat < 2 ^ 64 := seq.toNat_lt
  have hne : seq.toNat ≠ 2 ^ 64 - 1 := fun heq ↦ h (UInt64.toNat_inj.mp heq)
  rw [UInt64.toNat_add]
  exact Nat.mod_eq_of_lt (by simp only [UInt64.reduceToNat]; omega)

/-- A put under `seq` wins against every reply: it is not older than any, and newer than those with
another value. -/
def Supersedes (seq : UInt64) (record : Bytes) (replies : List Reply) : Prop :=
  ∀ r ∈ replies, r.1 ≤ seq ∧ (r.2 ≠ record → r.1 < seq)

/-- The newest reply either has another value and a sequence number that can be exceeded, or it has
the record as its value, and so have all the others of the same sequence number. -/
def Decided (record : Bytes) (replies : List Reply) : Prop :=
  ∀ newest, Newest replies newest →
    (newest.2 ≠ record → newest.1 ≠ maxSeq) ∧
    (newest.2 = record → ∀ r ∈ replies, r.1 = newest.1 → r.2 = record)

theorem supersedes_of_decided {s : HolesailServer} {replies : List Reply}
    (h : Decided s.record replies) : Supersedes (s.putSeq (read replies)) s.record replies := by
  intro r hr
  obtain ⟨newest, hnewest⟩ := exists_newest (List.ne_nil_of_mem hr)
  have hle := hnewest.seq_le hr
  obtain ⟨hother, hsame⟩ := h newest hnewest
  rw [read_eq_of_newest hnewest]
  by_cases hvalue : newest.2 = s.record
  · have hseq : s.putSeq ⟨newest.1, newest.2, true⟩ = newest.1 := by
      rw [putSeq, decide_eq_true hvalue]
      rfl
    rw [hseq]
    refine ⟨UInt64.le_iff_toNat_le.mpr hle, fun hne ↦ UInt64.lt_iff_toNat_lt.mpr ?_⟩
    apply Nat.lt_of_le_of_ne hle
    intro heq
    exact hne (hsame hvalue r hr (UInt64.toNat_inj.mp heq))
  · have hseq : s.putSeq ⟨newest.1, newest.2, true⟩ = newest.1 + 1 := by
      rw [putSeq, decide_eq_false hvalue]
      rfl
    have hsucc := toNat_add_one (hother hvalue)
    have hlt : r.1.toNat < (newest.1 + 1).toNat := by
      rw [hsucc]
      exact Nat.lt_succ_of_le hle
    rw [hseq]
    exact ⟨UInt64.le_iff_toNat_le.mpr hlt.le, fun _ ↦ UInt64.lt_iff_toNat_lt.mpr hlt⟩

theorem decided_of_supersedes {s : HolesailServer} {replies : List Reply}
    (h : Supersedes (s.putSeq (read replies)) s.record replies) : Decided s.record replies := by
  intro newest hnewest
  rw [read_eq_of_newest hnewest] at h
  constructor
  · intro hvalue hmax
    have hseq : s.putSeq ⟨newest.1, newest.2, true⟩ = newest.1 + 1 := by
      rw [putSeq, decide_eq_false hvalue]
      rfl
    -- The sum wraps around to 0.
    obtain ⟨hle, -⟩ := h newest hnewest.mem
    rw [hseq, hmax] at hle
    exact absurd hle (by decide)
  · intro hvalue r hr heq
    have hseq : s.putSeq ⟨newest.1, newest.2, true⟩ = newest.1 := by
      rw [putSeq, decide_eq_true hvalue]
      rfl
    by_contra hne
    have hlt := (h r hr).2 hne
    rw [hseq, heq] at hlt
    exact absurd (UInt64.lt_iff_toNat_lt.mp hlt) (Nat.lt_irrefl _)

/-- **When a put supersedes everything its read saw**: exactly if the newest reply decides. -/
theorem supersedes_iff_decided (s : HolesailServer) (replies : List Reply) :
    ∃ seq, (s.getDoneCb (read replies)).calls = s.calls ++ [.mutablePut s.record seq] ∧
      (Supersedes seq s.record replies ↔ Decided s.record replies) :=
  ⟨_, calls_getDoneCb s _, decided_of_supersedes, supersedes_of_decided⟩

/-- A server that was started for port 8080. -/
def started : HolesailServer :=
  ((ofSeed vectorCrypto true { localPort := 8080 } vectorSeed).start {}).2

/-- Two replies of one sequence number, the later of which has the record. -/
def tied : List Reply := [(5, ascii "x"), (5, started.record)]

/-- **The put that follows ties with the first reply.** -/
theorem tied_not_superseded :
    ¬∀ (s : HolesailServer) (replies : List Reply), ∃ seq,
      (s.getDoneCb (read replies)).calls = s.calls ++ [.mutablePut s.record seq] ∧
        Supersedes seq s.record replies := by
  intro h
  obtain ⟨seq, hcalls, hsupersedes⟩ := h started tied
  have hput : started.putSeq (read tied) = 5 := by decide +kernel
  rw [calls_getDoneCb, hput] at hcalls
  obtain rfl : (5 : UInt64) = seq := by
    injection List.append_cancel_left hcalls with hhead
    injection hhead
  obtain ⟨-, hlt⟩ := hsupersedes (5, ascii "x") List.mem_cons_self
  exact absurd (hlt (by decide +kernel)) (by decide)

/-! ## The puts of a life -/

/-- The sequence numbers the record was put under so far. -/
def putSeqs (s : HolesailServer) : List UInt64 :=
  s.calls.filterMap fun call ↦ match call with
    | .mutablePut _ seq => some seq
    | _ => none

/-- A read has found a reply no older than the put under `last`: its newest has the record and at
least that sequence number, or another value and, one added, at least that sequence number. -/
def GetCtx.Reaches (ctx : GetCtx) (record : Bytes) (last : UInt64) : Prop :=
  ctx.had = true ∧ (ctx.value = record → last ≤ ctx.seq) ∧
    (ctx.value ≠ record → ctx.seq ≠ maxSeq ∧ last.toNat ≤ ctx.seq.toNat + 1)

/-- A read that ends reaches the last put, unless that was under 0. -/
def Follows (s : HolesailServer) : Event → Prop
  | .done k => ∀ ctx ∈ s.gets[k]?, ∀ last ∈ s.putSeqs.getLast?,
      last = 0 ∨ ctx.Reaches s.record last
  | _ => True

instance (ctx : GetCtx) (record : Bytes) (last : UInt64) : Decidable (ctx.Reaches record last) :=
  inferInstanceAs (Decidable (_ ∧ _))

instance (s : HolesailServer) : (e : Event) → Decidable (s.Follows e)
  | .done k => decidable_of_iff ((s.gets[k]?.all fun ctx ↦ s.putSeqs.getLast?.all fun last ↦
      decide (last = 0 ∨ ctx.Reaches s.record last)) = true) (by simp [Follows, Option.all_eq_true])
  | .start _ | .listening | .tick _ | .value _ _ _ | .pause | .resume | .destroy =>
    inferInstanceAs (Decidable True)

theorem le_putSeq_iff (s : HolesailServer) (ctx : GetCtx) (last : UInt64) :
    last ≤ s.putSeq ctx ↔ last = 0 ∨ ctx.Reaches s.record last := by
  have hzero : last ≤ 0 ↔ last = 0 := by
    rw [UInt64.le_iff_toNat_le, ← UInt64.toNat_inj]
    exact Nat.le_zero
  have hbelow : last = 0 → ∀ seq, last ≤ seq := by
    rintro rfl seq
    exact UInt64.le_iff_toNat_le.mpr (Nat.zero_le _)
  rw [putSeq, GetCtx.Reaches]
  -- No reply, a reply with the same value, or one with another, which wraps at the largest seq.
  cases hhad : ctx.had with
  | false =>
    rw [show nextSeq false ctx.seq (decide (ctx.value = s.record)) = 0 from rfl, hzero]
    exact ⟨Or.inl, fun h ↦ h.resolve_right fun hreaches ↦ Bool.false_ne_true hreaches.1⟩
  | true =>
    by_cases hvalue : ctx.value = s.record
    · rw [decide_eq_true hvalue, show nextSeq true ctx.seq true = ctx.seq from rfl]
      constructor
      · intro hle
        exact Or.inr ⟨rfl, fun _ ↦ hle, fun hne ↦ absurd hvalue hne⟩
      · rintro (hlast | ⟨-, hle, -⟩)
        · exact hbelow hlast _
        · exact hle hvalue
    · rw [decide_eq_false hvalue, show nextSeq true ctx.seq false = ctx.seq + 1 from rfl]
      constructor
      · intro hle
        -- The sum wraps around to zero, which is as low as it gets.
        by_cases hmax : ctx.seq = maxSeq
        · rw [hmax] at hle
          exact Or.inl (hzero.mp hle)
        · rw [UInt64.le_iff_toNat_le, toNat_add_one hmax] at hle
          exact Or.inr ⟨rfl, fun heq ↦ absurd heq hvalue, fun _ ↦ ⟨hmax, hle⟩⟩
      · rintro (hlast | ⟨-, -, hnext⟩)
        · exact hbelow hlast _
        · obtain ⟨hmax, hle⟩ := hnext hvalue
          rw [UInt64.le_iff_toNat_le, toNat_add_one hmax]
          exact hle

theorem Plain.putSeqs {s s' : HolesailServer} (h : Plain s s') : s'.putSeqs = s.putSeqs := by
  obtain ⟨l, hcalls, hplain⟩ := h
  rw [HolesailServer.putSeqs, hcalls, List.filterMap_append, HolesailServer.putSeqs]
  have hnil : (l.filterMap fun call ↦ match call with
      | .mutablePut _ seq => some seq
      | _ => none) = [] := by
    rw [List.filterMap_eq_nil_iff]
    intro call hcall
    cases call with
    | mutablePut value seq => exact absurd (hplain _ hcall) Bool.false_ne_true
    | _ => rfl
  rw [hnil, List.append_nil]

theorem putSeqs_call (s s' : HolesailServer) (call : DhtCall)
    (hput : ∀ value seq, call ≠ .mutablePut value seq) (hcalls : s'.calls = s.calls ++ [call]) :
    s'.putSeqs = s.putSeqs := by
  rw [putSeqs, hcalls, List.filterMap_append, putSeqs]
  cases call with
  | mutablePut value seq => exact absurd rfl (hput value seq)
  | _ => exact List.append_nil _

theorem putSeqs_getDoneCb (s : HolesailServer) (ctx : GetCtx) :
    (s.getDoneCb ctx).putSeqs = s.putSeqs ++ [s.putSeq ctx] := by
  rw [putSeqs, calls_getDoneCb, List.filterMap_append]
  rfl

/-- What an event puts the record under: a read that ends does so once. -/
def puts (s : HolesailServer) : Event → List UInt64
  | .done k => (s.gets[k]?.map s.putSeq).toList
  | _ => []

theorem putSeqs_step (s : HolesailServer) (e : Event) :
    (s.step e).putSeqs = s.putSeqs ++ s.puts e := by
  have hsame : s.putSeqs = s.putSeqs ++ [] := (List.append_nil _).symm
  cases e with
  | start env => exact (plain_start s env).putSeqs.trans hsame
  | done k =>
    cases hk : s.gets[k]? with
    | none =>
      simp only [step, puts, hk]
      exact hsame
    | some ctx =>
      simp only [step, puts, hk]
      exact putSeqs_getDoneCb { s with gets := s.gets.eraseIdx k } ctx
  | tick rc => exact (plain_publish s rc).putSeqs.trans hsame
  | pause =>
    simp only [step, pause]
    split_ifs
    · exact hsame
    · exact (putSeqs_call s _ .suspend (fun _ _ h ↦ by cases h) rfl).trans hsame
  | resume =>
    simp only [step, resume]
    split_ifs
    · exact hsame
    · exact (putSeqs_call s _ .resume (fun _ _ h ↦ by cases h) rfl).trans hsame
  | destroy => exact (plain_destroy s).putSeqs.trans hsame
  | _ => exact hsame

theorem pairwise_concat_iff (l : List UInt64) (x : UInt64) :
    (l ++ [x]).Pairwise (· ≤ ·) ↔ l.Pairwise (· ≤ ·) ∧ ∀ last ∈ l.getLast?, last ≤ x := by
  rw [List.pairwise_append]
  constructor
  · rintro ⟨hl, -, hx⟩
    refine ⟨hl, fun last hlast ↦ ?_⟩
    exact hx last (List.mem_of_mem_getLast? hlast) x (List.mem_singleton_self x)
  · rintro ⟨hl, hlast⟩
    refine ⟨hl, List.pairwise_singleton _ _, fun y hy z hz ↦ ?_⟩
    obtain rfl := List.mem_singleton.mp hz
    induction l using List.reverseRecOn with
    | nil => exact absurd hy List.not_mem_nil
    | append_singleton l last _ =>
      have hle := hlast last (by rw [List.getLast?_concat]; rfl)
      rcases List.mem_append.mp hy with hy | hy
      · have hbelow := (List.pairwise_append.mp hl).2.2 y hy last (List.mem_singleton_self _)
        exact UInt64.le_trans hbelow hle
      · obtain rfl := List.mem_singleton.mp hy
        exact hle

/-- **The sequence numbers of a life do not go back** exactly if every read that ends reaches the
last put. -/
theorem pairwise_putSeqs_iff {s : HolesailServer} (hfresh : s.putSeqs = []) (es : List Event) :
    (run step s es).putSeqs.Pairwise (· ≤ ·) ↔ Along step Follows s es := by
  -- By induction on the run from its end: the last event puts last.
  induction es using List.reverseRecOn with
  | nil =>
    rw [run_nil, hfresh]
    exact ⟨fun _ ↦ trivial, fun _ ↦ List.Pairwise.nil⟩
  | append_singleton es e ih =>
    rw [run_concat, putSeqs_step, along_append, ← ih, along_cons]
    have hquiet : ∀ l : List UInt64, (l ++ []).Pairwise (· ≤ ·) ↔ l.Pairwise (· ≤ ·) ∧
        (True ∧ True) := by
      intro l
      rw [List.append_nil, and_true, and_true]
    cases e with
    | done k =>
      rw [Follows, puts]
      cases (run step s es).gets[k]? with
      | none =>
        refine (hquiet _).trans (and_congr_right fun _ ↦ and_congr_left' ?_)
        exact ⟨fun _ _ hctx ↦ absurd hctx (Option.not_mem_none _), fun _ ↦ trivial⟩
      | some ctx =>
        rw [Option.map_some, Option.toList_some, pairwise_concat_iff]
        refine and_congr_right fun _ ↦ ?_
        constructor
        · intro hlast
          refine ⟨fun c hc last hmem ↦ ?_, trivial⟩
          obtain rfl := Option.mem_some.mp hc
          exact (le_putSeq_iff _ _ _).mp (hlast last hmem)
        · rintro ⟨hfollows, -⟩ last hmem
          exact (le_putSeq_iff _ _ _).mpr (hfollows ctx rfl last hmem)
    | _ => exact hquiet _

theorem putSeqs_ofSeed (C : Crypto) (dht : Bool) (config : Config) (seed : Bytes32) :
    (ofSeed C dht config seed).putSeqs = [] := rfl

/-- **The sequence numbers of a life do not go back**, as long as every read that ends reaches the
last put. -/
theorem seqs_ascend (C : Crypto) (dht : Bool) (config : Config) (seed : Bytes32)
    (es : List Event) (hfollows : Along step Follows (ofSeed C dht config seed) es) :
    (run step (ofSeed C dht config seed) es).putSeqs.Pairwise (· ≤ ·) :=
  (pairwise_putSeqs_iff (putSeqs_ofSeed C dht config seed) es).mpr hfollows

/-- Three rounds: the first finds another record, the others what was put before. -/
def threeRounds : List Event :=
  [.start {}, .listening, .value 0 7 (some (ascii "x")), .done 0,
    .tick 0, .value 0 8 (some started.record), .done 0,
    .tick 0, .value 0 8 (some started.record), .done 0]

/-- All three put the record under 8. -/
theorem seqs_ascend_at :
    (run step (ofSeed vectorCrypto true { localPort := 8080 } vectorSeed) threeRounds).putSeqs
        = [8, 8, 8] ∧
      (run step (ofSeed vectorCrypto true { localPort := 8080 } vectorSeed)
        threeRounds).putSeqs.Pairwise (· ≤ ·) := by
  constructor
  · decide +kernel
  · exact seqs_ascend vectorCrypto true { localPort := 8080 } vectorSeed threeRounds
      (by decide +kernel)

/-- Two rounds, the second of which finds nothing. -/
def forgotten : List Event :=
  [.start {}, .listening, .value 0 7 (some (ascii "x")), .done 0, .tick 0, .done 0]

/-- **The second put starts again from 0.** -/
theorem seqs_fall :
    ¬∀ (C : Crypto) (dht : Bool) (config : Config) (seed : Bytes32) (es : List Event),
      (run step (ofSeed C dht config seed) es).putSeqs.Pairwise (· ≤ ·) := by
  intro h
  have hputs : (run step (ofSeed vectorCrypto true { localPort := 8080 } vectorSeed)
      forgotten).putSeqs = [8, 0] := by decide +kernel
  have hsorted := h vectorCrypto true { localPort := 8080 } vectorSeed forgotten
  rw [hputs] at hsorted
  exact absurd hsorted (by decide)

end HolesailServer

end Holesail
