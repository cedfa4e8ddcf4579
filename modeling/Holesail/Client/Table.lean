import Mathlib.Algebra.BigOperators.Group.List.Basic
import Holesail.Client.Connections
import Holesail.Client.Obligations

/-!
# The client's connection table is exact

`conns_` at every moment between two callbacks, whatever the local sockets, the peer, hyperdht and
the owner did so far, in whatever order: it contains exactly the connections that something can
still call back into, and every accepted socket is in exactly one place.
-/

namespace Holesail

namespace HolesailClient

namespace Connections

open Run Conn

/-! ## Handles -/

/-- The accepted handles that connections in `conns_` hold, as often as they are held. -/
def holding (w : Connections) : List ℕ := (List.range w.nextId).flatMap fun i ↦ (w.conns i).holding

def owning (w : Connections) : List ℕ := (List.range w.nextId).flatMap fun i ↦ (w.conns i).owning

/-- The handles that `uv_close` was called with. -/
def uvClosed (w : Connections) : List ℕ :=
  w.refused ++ (List.range w.nextId).flatMap fun i ↦ (w.conns i).uvClosed

/-- How often a handle is held, owned or closed. -/
def tally (w : Connections) (handle : ℕ) : ℕ :=
  w.refused.count handle + ((List.range w.nextId).map fun i ↦ (w.conns i).tally handle).sum

theorem tally_eq (w : Connections) (handle : ℕ) :
    w.holding.count handle + w.owning.count handle + w.uvClosed.count handle = w.tally handle := by
  rw [tally, holding, owning, uvClosed, List.count_append, List.count_flatMap, List.count_flatMap,
    List.count_flatMap]
  have hsplit : ((List.range w.nextId).map fun i ↦ (w.conns i).tally handle).sum
      = ((List.range w.nextId).map fun i ↦ (w.conns i).holding.count handle).sum
        + ((List.range w.nextId).map fun i ↦ (w.conns i).owning.count handle).sum
        + ((List.range w.nextId).map fun i ↦ (w.conns i).uvClosed.count handle).sum := by
    rw [← List.sum_map_add, ← List.sum_map_add]
    rfl
  rw [hsplit]
  simp only [Function.comp_def]
  omega

/-! ## The invariant -/

/-- Every connection is exact, and all of them together account for the handles `n`, after `k`
sockets were accepted. -/
structure Settled (n : ℕ → ℕ) (k : ℕ) (w : Connections) : Prop where
  sound : ∀ i, (w.conns i).Sound
  exact : ∀ i, (w.conns i).Exact
  tally : ∀ handle, w.tally handle = n handle
  accepted : w.accepted = k

variable {n : ℕ → ℕ} {k : ℕ} {w : Connections}

theorem Settled.put (h : Settled n k w) {i : ℕ} {x : Ctx} (hsettles : Ctx.Settles (w.ctx i) x)
    (hexact : x.conn.Exact) : Settled n k (w.put i x) := by
  refine ⟨fun j ↦ ?_, fun j ↦ ?_, fun handle ↦ ?_, h.accepted⟩
  · rcases eq_or_ne j i with rfl | hne
    · rw [conns_put_self]
      exact hsettles.sound
    · rw [conns_put_of_ne _ hne]
      exact h.sound j
  · rcases eq_or_ne j i with rfl | hne
    · rw [conns_put_self]
      exact hexact
    · rw [conns_put_of_ne _ hne]
      exact h.exact j
  · rw [← h.tally handle, Connections.tally, Connections.tally]
    refine congrArg (fun l : List ℕ ↦ w.refused.count handle + l.sum) (List.map_congr_left ?_)
    intro j _
    rcases eq_or_ne j i with rfl | hne
    · rw [conns_put_self]
      exact hsettles.tally handle
    · rw [conns_put_of_ne _ hne]

theorem Settled.act (h : Settled n k w) {i : ℕ} {f : Ctx → Ctx}
    (hf : ∀ x : Ctx, x.conn.Sound → x.conn.Exact → Ctx.Settles x (f x) ∧ (f x).conn.Exact) :
    Settled n k (w.act i f) :=
  let hi := hf (w.ctx i) (h.sound i) (h.exact i)
  h.put hi.1 hi.2

theorem Settled.dial (h : Settled n k w) (a : Answers) (tcp : Option UvTcp) (udp : Bool)
    (clientId : Bytes) (htcp : ∀ t, tcp = some t → t.closing = false ∧ udp = false) :
    Settled (fun handle ↦ n handle + (tcp.toList.map UvTcp.id).count handle) k
      ((w.push { tcp := tcp, udp := udp, clientId := clientId }).call w.nextId
        (Ctx.beginDhtConnect a)).2 := by
  set w' := w.push { tcp := tcp, udp := udp, clientId := clientId } with hw'
  have hnew : (w'.ctx w.nextId).conn = { tcp := tcp, udp := udp, clientId := clientId } :=
    w.conns_push_self _
  obtain ⟨hsound, hexact, htally⟩ := Ctx.beginDhtConnect_settles (a := a) hnew htcp
  -- The dial is about the connection that was just added, and no other.
  have hother : ∀ j, j ≠ w.nextId → (w'.call w.nextId (Ctx.beginDhtConnect a)).2.conns j
      = w.conns j := by
    intro j hne
    rw [call, conns_put_of_ne _ hne, hw', conns_push_of_ne _ hne]
  have hself : (w'.call w.nextId (Ctx.beginDhtConnect a)).2.conns w.nextId
      = (Ctx.beginDhtConnect a (w'.ctx w.nextId)).2.conn := conns_put_self ..
  refine ⟨fun j ↦ ?_, fun j ↦ ?_, fun handle ↦ ?_, h.accepted⟩
  · rcases eq_or_ne j w.nextId with rfl | hne
    · rw [hself]
      exact hsound
    · rw [hother j hne]
      exact h.sound j
  · rcases eq_or_ne j w.nextId with rfl | hne
    · rw [hself]
      exact hexact
    · rw [hother j hne]
      exact h.exact j
  -- The sum over all connections gains one term, the handle of the new one.
  · have hsum : ((List.range w.nextId).map fun i ↦
        ((w'.call w.nextId (Ctx.beginDhtConnect a)).2.conns i).tally handle)
        = (List.range w.nextId).map fun i ↦ (w.conns i).tally handle := by
      refine List.map_congr_left fun j hj ↦ ?_
      rw [hother j (Nat.ne_of_lt (List.mem_range.mp hj))]
    rw [← h.tally handle, Connections.tally, Connections.tally,
      show (w'.call w.nextId (Ctx.beginDhtConnect a)).2.nextId = w.nextId + 1 from rfl,
      List.range_succ, List.map_append, List.sum_append, hsum, List.map_singleton,
      List.sum_singleton, hself, htally handle]
    exact (Nat.add_assoc _ _ _).symm

/-! ## Events -/

/-- Each of the first `k` handles once. -/
def once (k handle : ℕ) : ℕ := if handle < k then 1 else 0

theorem once_succ (k handle : ℕ) : once (k + 1) handle = once k handle + [k].count handle := by
  unfold once
  rcases Nat.lt_trichotomy handle k with hlt | rfl | hgt
  · rw [List.count_singleton, if_pos hlt, if_pos (by omega), if_neg (by simp; omega)]
  · rw [List.count_singleton_self, if_neg (Nat.lt_irrefl _), if_pos (by omega)]
  · rw [List.count_singleton, if_neg (by omega), if_neg (by omega), if_neg (by simp; omega)]

/-- **A socket is accepted**: it is held, or closed on the spot. -/
theorem Settled.onLocalConnection (h : Settled (once k) k w) (a : Answers) :
    Settled (once (k + 1)) (k + 1) (w.onLocalConnection a) := by
  unfold Connections.onLocalConnection
  simp only
  split_ifs
  · refine ⟨h.sound, h.exact, fun handle ↦ ?_, congrArg (· + 1) h.accepted⟩
    rw [once_succ, ← h.tally handle, Connections.tally, Connections.tally, List.count_append,
      h.accepted]
    dsimp only
    omega
  · have hdial := Settled.dial (w := { w with accepted := w.accepted + 1 }) (k := k + 1)
      ⟨h.sound, h.exact, h.tally, congrArg (· + 1) h.accepted⟩ a (some { id := w.accepted })
      false [] fun t ht ↦ by
        obtain rfl := Option.some.inj ht
        exact ⟨rfl, rfl⟩
    refine ⟨hdial.sound, hdial.exact, fun handle ↦ ?_, hdial.accepted⟩
    refine (hdial.tally handle).trans ?_
    rw [once_succ, h.accepted]
    rfl

/-- **The UDP proxy** only writes to connections, closes their streams, and has new ones made. -/
theorem keeps_settled (a : Answers) (n : ℕ → ℕ) (k : ℕ) : (proxyHost a).Keeps (Settled n k) where
  setProxy := fun _ h ↦ ⟨h.sound, h.exact, h.tally, h.accepted⟩
  openStream := by
    intro w id h
    change Settled n k (w.openUdpStream a id).2
    unfold openUdpStream
    split_ifs
    · exact h
    · have hdial := h.dial a none true id fun t ht ↦
        absurd ht.symm (Option.some_ne_none t)
      simp only
      split_ifs <;> exact ⟨hdial.sound, hdial.exact, hdial.tally, hdial.accepted⟩
  write := by
    intro w i data h
    obtain ⟨hsettles, hexact, -⟩ := Ctx.write_settles (Ctx.streamClose a) a (h.sound i) (h.exact i)
      (x := w.ctx i) data none fun _ ↦ rfl
    exact h.put hsettles hexact
  close := fun i h ↦ h.act fun _ hsound hexact ↦
    Ctx.close_settles (Ctx.closer_streamClose a) hsound hexact

/-- **The client is destroyed**, connection by connection. -/
theorem Settled.destroy (h : Settled n k w) (answers : ℕ → Answers) :
    Settled n k (w.destroy answers) := by
  unfold Connections.destroy
  split_ifs
  · exact h
  · refine List.foldlRecOn _ _ (motive := Settled n k) ⟨h.sound, h.exact, h.tally, h.accepted⟩ ?_
    intro w' h' i _
    exact h'.act fun x hsound hexact ↦
      Ctx.shutdownConn_settles_of_exact (Ctx.closer_streamClose _) hsound hexact

theorem Settled.step (h : Settled (once k) k w) {e : Event} (henabled : w.Enabled e) :
    ∃ k', Settled (once k') k' (w.step e) := by
  cases e with
  | accept a => exact ⟨k + 1, h.onLocalConnection a⟩
  | recv addr r a => exact ⟨k, (keeps_settled a _ k).recvCb addr r h⟩
  | connected i error found a =>
    obtain ⟨hsettles, hexact⟩ := Ctx.connectCb_settles (x := w.ctx i) (a := a) (h.sound i)
      (h.exact i) henabled w.destroyed error found
    exact ⟨k, h.put hsettles hexact⟩
  | conn i e =>
    obtain ⟨hsettles, hexact⟩ := Ctx.step_settles (x := w.ctx i) (h.sound i) (h.exact i) henabled
    have hstep := h.put hsettles hexact
    cases e with
    | streamData data a =>
      refine ⟨k, ?_⟩
      change Settled (once k) k (w.streamDataCb i data a)
      unfold streamDataCb
      split_ifs
      · exact (keeps_settled a _ k).onStreamData _ i data h
      · exact hstep
    | _ => exact ⟨k, hstep⟩
  | destroy answers => exact ⟨k, h.destroy answers⟩

theorem settled_listening (dht : Bool) : Settled (once 0) 0 (listening dht) := by
  refine ⟨fun _ ↦ ?_, fun _ ↦ ⟨rfl, fun hsome ↦ absurd rfl hsome⟩, fun handle ↦ rfl, rfl⟩
  refine ⟨rfl, rfl, fun _ ↦ rfl, fun _ ↦ ⟨rfl, rfl⟩, fun _ ↦ ⟨rfl, rfl⟩, fun t ht ↦ ?_,
    fun p hp ↦ ?_⟩
  · exact absurd ht.symm (Option.some_ne_none t)
  · exact absurd hp.symm (Option.some_ne_none p)

/-- **The connection table is exact.** After any events, `conns_` contains exactly the connections
whose connect callback, `on_close` or `on_destroy` is still owed; and each accepted handle is either
held by one connection, or owned by one pipe, or was passed to `uv_close` once. -/
theorem table_exact (dht : Bool) (es : List Event)
    (h : Along step Enabled (listening dht) es) :
    let w := run step (listening dht) es
    (∀ i, (w.conns i).held = true ↔ (w.conns i).Obliged) ∧
      ∀ handle < w.accepted,
        w.holding.count handle + w.owning.count handle + w.uvClosed.count handle = 1 := by
  obtain ⟨k, hsettled⟩ := invariant_of_along (P := fun w ↦ ∃ k, Settled (once k) k w)
    (fun w e ⟨_, hw⟩ henabled ↦ hw.step henabled) ⟨0, settled_listening dht⟩ h
  refine ⟨fun i ↦ ?_, fun handle hlt ↦ ?_⟩
  · rw [(hsettled.exact i).held]
    exact (hsettled.sound i).pinned_iff
  · rw [tally_eq, hsettled.tally, once, if_pos (hsettled.accepted ▸ hlt)]

/-- Two sockets and a datagram. The first socket ends with a write in flight, and its stream closes
from inside `hyperdht_stream_close`; the second cannot be dialled. Then the client is destroyed. -/
def eventful : List Event :=
  [.accept {}, .connected 1 0 true {}, .conn 1 (.streamOpen {}),
    .conn 1 (.streamData [7] {}), .conn 1 (.read .eof { sync := true }),
    .accept { connect := -1 }, .recv ⟨(127, 0, 0, 1), 5353⟩ (.datagram [1, 2]) {},
    .conn 1 (.written 0 {}), .destroy fun _ ↦ {}]

/-- The first connection is still waiting for its handle to close, the second is gone, and the
third is still dialling. -/
theorem table_exact_at :
    let w := run step (listening true) eventful
    ((w.conns 1).held = true ↔ (w.conns 1).Obliged) ∧
      w.holding.count 0 + w.owning.count 0 + w.uvClosed.count 0 = 1 ∧
      [1, 2, 3].map (fun i ↦ (w.conns i).held) = [true, false, true] :=
  ⟨(table_exact true eventful (by decide)).1 1, (table_exact true eventful (by decide)).2 0
    (by decide), by decide⟩

end Connections

end HolesailClient

end Holesail
