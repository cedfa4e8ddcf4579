import Holesail.Server.HolesailServer
import Holesail.Theory.Run

/-!
# The life of a server

Everything that moves a `HolesailServer` apart from its connections: the calls its owner makes on
it, the listening event, the ticks of its refresh timer, and the answers to the reads of the record,
of which any number may be in flight.
-/

namespace Holesail

namespace HolesailServer

open Run

inductive Event where
  | start (env : StartEnv)
  /-- `listening_cb`. -/
  | listening
  /-- `refresh_cb`. `rc` is what `hyperdht_mutable_get` returns. -/
  | tick (rc : ℤ)
  /-- `get_value_cb`, for read `k` of those in flight. -/
  | value (k : ℕ) (seq : UInt64) (value : Option Bytes)
  /-- `get_done_cb`, for read `k` of those in flight. -/
  | done (k : ℕ)
  | pause
  | resume
  | destroy

def step (s : HolesailServer) : Event → HolesailServer
  | .start env => (s.start env).2
  | .listening => s.listeningCb
  | .tick rc => s.publish rc
  | .value k seq value => { s with gets := s.gets.modify k fun ctx ↦ getValueCb ctx seq value }
  | .done k =>
    match s.gets[k]? with
    | some ctx => { s with gets := s.gets.eraseIdx k }.getDoneCb ctx
    | none => s
  | .pause => s.pause
  | .resume => s.resume
  | .destroy => s.destroy

/-! ## The calls on the DHT -/

/-- A call that neither puts the record nor suspends or resumes the DHT. -/
def DhtCall.isPlain : DhtCall → Bool
  | .suspend | .resume | .mutablePut _ _ => false
  | _ => true

/-- Only such calls were made between `s` and `s'`. -/
def Plain (s s' : HolesailServer) : Prop :=
  ∃ l, s'.calls = s.calls ++ l ∧ ∀ call ∈ l, call.isPlain = true

theorem plain_of_calls {s s' : HolesailServer} (h : s'.calls = s.calls) : Plain s s' :=
  ⟨[], by rw [h, List.append_nil], fun _ hcall ↦ absurd hcall List.not_mem_nil⟩

theorem plain_call {s s' : HolesailServer} (call : DhtCall) (h : s'.calls = s.calls ++ [call])
    (hplain : call.isPlain = true) : Plain s s' := by
  refine ⟨[call], h, fun c hc ↦ ?_⟩
  obtain rfl := List.mem_singleton.mp hc
  exact hplain

theorem Plain.trans {s s' s'' : HolesailServer} (h : Plain s s') (h' : Plain s' s'') :
    Plain s s'' := by
  obtain ⟨l, hl, hplain⟩ := h
  obtain ⟨l', hl', hplain'⟩ := h'
  refine ⟨l ++ l', by rw [hl', hl, List.append_assoc], fun call hcall ↦ ?_⟩
  rcases List.mem_append.mp hcall with hcall | hcall
  · exact hplain call hcall
  · exact hplain' call hcall

theorem plain_publish (s : HolesailServer) (rc : ℤ) : Plain s (s.publish rc) := by
  unfold publish
  split
  · exact plain_of_calls rfl
  · exact plain_call .mutableGet rfl rfl

theorem plain_start (s : HolesailServer) (env : StartEnv) : Plain s (s.start env).2 := by
  have hcreate : ∀ s' : HolesailServer, s'.calls = s.calls ++ [.serverCreate] → Plain s s' :=
    fun _ hcalls ↦ plain_call .serverCreate hcalls rfl
  have hlisten : ∀ {s₂ : HolesailServer} (s₁ : HolesailServer), Plain s s₁ →
      s₂.calls = s₁.calls ++ [.serverListen] → Plain s s₂ :=
    fun _ h hcalls ↦ h.trans (plain_call .serverListen hcalls rfl)
  -- The server listens with a firewall set before, in secure mode, or without.
  have hlistened : ∀ s' : HolesailServer,
      (s'.calls = s.calls ++ [.serverCreate] ++ [.serverListen] ∨
        s'.calls = s.calls ++ [.serverCreate] ++ [.setFirewall] ++ [.serverListen]) →
      Plain s s' := by
    have hcreated := hcreate { s with calls := s.calls ++ [.serverCreate] } rfl
    rintro s' (hcalls | hcalls)
    · exact hlisten _ hcreated hcalls
    · exact hlisten { s with calls := s.calls ++ [.serverCreate] ++ [.setFirewall] }
        (hcreated.trans (plain_call .setFirewall rfl rfl)) hcalls
  unfold start
  by_cases hnull : s.dht = false ∨ s.srv = true
  · rw [if_pos hnull]
    exact plain_of_calls rfl
  · rw [if_neg hnull]
    by_cases hcreated : env.created = false
    · rw [if_pos hcreated]
      exact hcreate _ rfl
    · rw [if_neg hcreated]
      by_cases hrc : env.listen < 0
      · simp only [if_pos hrc]
        split_ifs
        · exact hlistened _ (Or.inr rfl)
        · exact hlistened _ (Or.inl rfl)
      · simp only [if_neg hrc]
        split_ifs
        · exact (hlistened _ (Or.inr rfl)).trans (plain_publish _ _)
        · exact (hlistened _ (Or.inl rfl)).trans (plain_publish _ _)

theorem plain_destroy (s : HolesailServer) : Plain s s.destroy := by
  unfold destroy
  simp only
  split_ifs
  · exact plain_call .serverClose rfl rfl
  · exact plain_of_calls rfl

end HolesailServer

end Holesail
