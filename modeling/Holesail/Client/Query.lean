import Holesail.Endpoint.Lookup
import Holesail.Endpoint.Resolve

/-!
# What a client makes of the replies to its query

A client asks for the record once, when it connects, and keeps the newest of the replies that it can
read. Once the query is over it listens where that record says, unless it was told otherwise.

## Main results

* `Blank.record_heard`: the record is that of the newest reply.
* `Blank.resolved_of_newest`: what the client resolves to.
-/

namespace Holesail

namespace HolesailClient

open Champion

/-- A client that was told nothing and has heard nothing. -/
structure Blank (c : HolesailClient) : Prop where
  config : c.config.localPort = none ∧ c.config.localHost = none ∧ c.config.udp = none
  destroyed : c.destroyed = false
  record : c.record = none

theorem blank_new (C : Crypto) {config : Config} (h : config.localPort = none ∧
    config.localHost = none ∧ config.udp = none) : Blank (new C true config) := by
  unfold new
  split_ifs
  · exact ⟨h, rfl, rfl⟩
  · split
    · split_ifs <;> exact ⟨h, rfl, rfl⟩
    · exact ⟨h, rfl, rfl⟩

theorem Blank.connect {c : HolesailClient} (h : Blank c) (listen : ℤ) :
    Blank (c.connect true listen).2 := by
  unfold HolesailClient.connect
  split_ifs with _ _ _ hstarted
  · exact h
  · exact h
  · exact h
  · exact absurd hstarted (by decide)
  · exact ⟨h.config, h.destroyed, h.record⟩

/-- What a query brings: a sequence number and a value for each reply. -/
def heard (c : HolesailClient) (replies : List (UInt64 × Bytes)) : HolesailClient :=
  replies.foldl (fun c reply ↦ c.mutableCb reply.1 (some reply.2)) c

/-- The replies that decode. -/
def readable (replies : List (UInt64 × Bytes)) : List Lookup.Reply :=
  replies.filterMap fun reply ↦ (decodeRecord reply.2).map (reply.1, ·)

/-- What the client keeps of the replies so far. -/
structure Kept (c : HolesailClient) (best : Option Lookup.Reply) (c' : HolesailClient) :
    Prop where
  config : c'.config = c.config
  destroyed : c'.destroyed = false
  record : c'.record = best.map Prod.snd
  recordSeq : ∀ b ∈ best, c'.recordSeq = b.1

theorem Kept.mutableCb {c c' : HolesailClient} {best : Option Lookup.Reply} (h : Kept c best c')
    (reply : UInt64 × Bytes) : Kept c
      ((readable [reply]).foldl (challenge Lookup.Newer) best)
      (c'.mutableCb reply.1 (some reply.2)) := by
  have hempty : decodeRecord [] = none := by decide +kernel
  obtain ⟨seq, value⟩ := reply
  simp only [readable, HolesailClient.mutableCb, List.filterMap_cons, List.filterMap_nil,
    h.destroyed, Bool.false_eq_true, false_or]
  by_cases hne : value = []
  · simp only [hne, hempty, if_true, Option.map_none, List.foldl_nil]
    exact h
  rw [if_neg hne]
  cases hdecode : decodeRecord value with
  | none =>
    simp only [Option.map_none, List.foldl_nil, ite_self]
    exact h
  | some r =>
    simp only [Option.map_some, List.foldl_cons, List.foldl_nil]
    cases best with
    | none =>
      rw [if_neg fun hold ↦ absurd (h.record ▸ hold.1) (by decide), challenge]
      refine ⟨h.config, rfl, rfl, fun b hb ↦ ?_⟩
      obtain rfl := Option.some.inj hb
      rfl
    | some b =>
      have hseq := h.recordSeq b rfl
      have hsome : c'.record.isSome = true := by rw [h.record]; rfl
      rw [hsome, hseq, challenge]
      by_cases hnewer : Lookup.Newer (seq, r) b
      · have hlt : ¬seq ≤ b.1 := fun hle ↦
          absurd (UInt64.le_iff_toNat_le.mp hle) (Nat.not_le.mpr hnewer)
        rw [if_pos hnewer, if_neg fun hold ↦ hlt hold.2]
        refine ⟨h.config, rfl, rfl, fun x hx ↦ ?_⟩
        obtain rfl := Option.some.inj hx
        rfl
      · have hle : seq ≤ b.1 := UInt64.le_iff_toNat_le.mpr (Nat.not_lt.mp hnewer)
        rw [if_neg hnewer, if_pos ⟨rfl, hle⟩]
        exact h

/-- **The record is that of the newest reply** that decodes. -/
theorem Blank.kept {c : HolesailClient} (h : Blank c) (replies : List (UInt64 × Bytes)) :
    Kept c (champion Lookup.Newer (readable replies)) (c.heard replies) := by
  induction replies using List.reverseRecOn with
  | nil => exact ⟨rfl, h.destroyed, h.record, fun b hb ↦ absurd hb (Option.not_mem_none b)⟩
  | append_singleton replies reply ih =>
    have hsplit : champion Lookup.Newer (readable (replies ++ [reply]))
        = (readable [reply]).foldl (challenge Lookup.Newer)
          (champion Lookup.Newer (readable replies)) := by
      rw [readable, List.filterMap_append, champion, List.foldl_append]
      rfl
    rw [hsplit, heard, List.foldl_append]
    exact ih.mutableCb reply

/-- **A client that was told nothing** listens where the newest reply says. -/
theorem Blank.resolved_of_newest {c : HolesailClient} (h : Blank c) {host : Bytes} {udp : Bool}
    {port : UInt16} (hhost : host ≠ []) {replies : List (UInt64 × Bytes)} {r : Lookup.Reply}
    (hnewest : Lookup.Newest (readable replies) r)
    (hr : r.2 = ⟨host, if udp then some true else none, some port⟩) (listen : ℤ) :
    ((c.heard replies).mutableDoneCb listen).resolved = ⟨port, host, udp⟩ := by
  have hkept := h.kept replies
  rw [champion_of_isChampion hnewest] at hkept
  obtain ⟨hcport, hchost, hcudp⟩ := h.config
  rw [← hkept.config] at hcport hchost hcudp
  rw [resolved_mutableDoneCb hkept.destroyed, hkept.record, Option.map_some, hr,
    resolve_of_record hcport hchost hcudp hhost]
  cases udp <;> rfl

theorem Blank.resolved {c : HolesailClient} (h : Blank c) {host : Bytes} {udp : Bool}
    {port : UInt16} (hhost : host ≠ []) (hport : 1 ≤ port.toNat)
    {replies : List (UInt64 × Bytes)} (hreplies : replies ≠ [])
    (hsame : ∀ reply ∈ replies,
      reply.2 = encodeRecord host (if udp then some true else none) port) (listen : ℤ) :
    ((c.heard replies).mutableDoneCb listen).resolved = ⟨port, host, udp⟩ := by
  have hdecode : ∀ reply ∈ replies,
      decodeRecord reply.2 = some ⟨host, if udp then some true else none, some port⟩ :=
    fun reply hmem ↦ (congrArg decodeRecord (hsame reply hmem)).trans
      (decodeRecord_encodeRecord host _ hport)
  obtain ⟨r, hr⟩ : ∃ r, champion Lookup.Newer (readable replies) = some r := by
    rw [← Option.ne_none_iff_exists']
    intro hnone
    obtain ⟨reply, hmem⟩ := List.exists_mem_of_ne_nil replies hreplies
    have hread : (reply.1, _) ∈ readable replies :=
      List.mem_filterMap.mpr ⟨reply, hmem, congrArg (Option.map _) (hdecode reply hmem)⟩
    exact absurd (champion_eq_none_iff.mp hnone ▸ hread) List.not_mem_nil
  obtain ⟨reply, hmem, hread⟩ := List.mem_filterMap.mp (mem_of_champion hr)
  rw [hdecode reply hmem] at hread
  exact h.resolved_of_newest hhost (isChampion_of_champion Lookup.ranking_newer hr)
    (congrArg Prod.snd (Option.some.inj hread)).symm listen

end HolesailClient

end Holesail
