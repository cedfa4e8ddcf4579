import Holesail.Server.Connections

/-!
# What a teardown reaches

`HolesailServer::destroy` finds the connections through `conns_`, and so by the address of the
stream that each was made for. A connection outlives its stream for as long as its pipe has
something to write to the local service; but the address of the stream is hyperdht's to hand out
again as soon as the stream has closed. An accept that is handed such an address overwrites the
entry, and the pipe is one that no teardown reaches any more.

## Main results

`reaches_iff_spared`: in a run every pipe is within reach at every moment exactly when no accept is
handed the address of a connection whose pipe is not destroyed. `unreached`: a run that ends with a
server destroyed and a pipe that is not.
-/

namespace Holesail

namespace HolesailServer

open Run

namespace Conn

variable {b b' s : Bool} {c : Conn}

/-! ## Destroyed pipes -/

def PipeDestroyed (c : Conn) : Prop :=
  (∀ p ∈ c.tcp, p.destroyed = true) ∧ ∀ p ∈ c.udp, p.destroyed = true

instance (c : Conn) : Decidable c.PipeDestroyed :=
  inferInstanceAs (Decidable ((∀ p ∈ c.tcp, _) ∧ ∀ p ∈ c.udp, _))

/-- A TCP pipe that has been destroyed. -/
def Down (_ : Bool) (p : TcpPipe) : Prop := p.destroyed = true

theorem TcpAt.pipeDestroyed (h : TcpAt b s Down c) : c.PipeDestroyed := by
  obtain ⟨p, htcp, hdown, -⟩ := h.pipe
  refine ⟨fun q hq ↦ ?_, fun q hq ↦ ?_⟩
  · obtain rfl := Option.some.inj (htcp.symm.trans hq)
    exact hdown
  · rw [h.udp] at hq
    exact absurd hq (Option.not_mem_none q)

theorem survives_down : Survives b s Down where
  tended h hp := hp.bond.life.1.trans h
  destroy {a c} h := by
    obtain ⟨p, htcp, hdown, -⟩ := h.pipe
    rw [TcpPipe.destroy_of_destroyed _ (by rw [pipe_of_tcp htcp]; exact hdown)]
    exact h

theorem TcpAt.step_down (h : TcpAt b b (TcpLife b) c) (hdown : TcpAt b b Down c) {e : Event}
    (he : c.Enabled e) : (c.step e).PipeDestroyed := by
  obtain ⟨p, htcp, -⟩ := h.pipe
  by_cases hclosed : e = .closed
  · subst hclosed
    rcases he with ⟨t, ht, hclosing, -⟩ | ⟨sock, hsock, -⟩
    · rw [Conn.step, htcp]
      have hgone := h.closedCb (a := {}) ht hclosing
      exact TcpAt.pipeDestroyed (hgone.imp fun p hp ↦ hp.2.1)
    · rw [h.udp] at hsock
      exact absurd hsock (Option.not_mem_none sock)
  by_cases hclose : e = .streamClose
  · subst hclose
    have hstream : TcpAt b false Down { c with stream := false } :=
      ⟨hdown.boxed, rfl, hdown.udp, ⟨hdown.ledger.balance, hdown.ledger.nodup⟩, hdown.pipe⟩
    have hend := survives_down.onStreamClose (a := {}) hstream
    simp only [Conn.step, Conn.streamCloseCb, htcp]
    split_ifs
    · exact hdown.pipeDestroyed
    · rw [htcp] at hend
      exact TcpAt.pipeDestroyed (b := false) ⟨rfl, hend.stream, hend.udp,
        ⟨hend.ledger.balance, hend.ledger.nodup⟩, hend.pipe⟩
  · exact (survives_down.step hdown he hclosed hclose).pipeDestroyed

theorem UdpAt.pipeDestroyed (h : UdpAt b s (UdpLife false) c) : c.PipeDestroyed := by
  obtain ⟨p, hudp, hlife⟩ := h.pipe
  refine ⟨fun q hq ↦ ?_, fun q hq ↦ ?_⟩
  · rw [h.tcp] at hq
    exact absurd hq (Option.not_mem_none q)
  · obtain rfl := Option.some.inj (hudp.symm.trans hq)
    generalize c.keep = keep at hlife
    cases hlife with
    | bare _ _ _ hboxed => exact absurd hboxed Bool.false_ne_true
    | attached _ _ _ _ hboxed => exact absurd hboxed Bool.false_ne_true
    | detaching hdestroyed => exact hdestroyed
    | gone hdestroyed => exact hdestroyed

/-- A destroyed UDP pipe is one that the stream's close has nothing to do for. -/
theorem UdpAt.life_false (h : UdpAt b s (UdpLife b') c) (hdestroyed : c.PipeDestroyed) :
    UdpAt b s (UdpLife false) c := by
  obtain ⟨p, hudp, hlife⟩ := h.pipe
  have hp : p.destroyed = true := hdestroyed.2 p hudp
  refine ⟨h.boxed, h.stream, h.tcp, h.quiet, p, hudp, ?_⟩
  generalize c.keep = keep at hlife ⊢
  cases hlife with
  | bare hlive => exact absurd (hlive.symm.trans hp) Bool.false_ne_true
  | attached hlive => exact absurd (hlive.symm.trans hp) Bool.false_ne_true
  | detaching hdestroyed harmed hsock hclosing => exact .detaching hdestroyed harmed hsock hclosing
  | gone hdestroyed hfired hsock => exact .gone hdestroyed hfired hsock

/-- **A destroyed pipe stays destroyed.** -/
theorem Life.step_pipeDestroyed (h : Life b c) (hdestroyed : c.PipeDestroyed) {e : Event}
    (he : c.Enabled e) : (c.step e).PipeDestroyed := by
  rcases h with h | h
  · obtain ⟨p, htcp, -, hfresh⟩ := h.pipe
    exact h.step_down ⟨h.boxed, h.stream, h.udp, h.ledger, p, htcp, hdestroyed.1 p htcp, hfresh⟩ he
  · by_cases hclose : e = .streamClose
    · subst hclose
      obtain rfl : b = true := h.stream.symm.trans he
      exact h.streamCloseCb.pipeDestroyed
    · exact ((h.life_false hdestroyed).step he hclose).pipeDestroyed

/-- **A teardown destroys the pipe it finds.** -/
theorem Life.destroy_pipeDestroyed (h : Life b c) : c.destroy.PipeDestroyed := by
  rcases h with h | h
  · obtain ⟨p, htcp, -⟩ := h.pipe
    have hdestroyed := h.destroy (a := {})
    simp only [Conn.destroy, htcp, hdestroyed.udp]
    exact TcpAt.pipeDestroyed (hdestroyed.imp fun p hp ↦ hp.2)
  · obtain ⟨p, hudp, -⟩ := h.pipe
    simp only [Conn.destroy, h.tcp, hudp]
    exact h.destroy.pipeDestroyed

theorem Life.pipeDestroyed_of_keep (h : Life b c) (hkeep : c.keep = false) : c.PipeDestroyed := by
  rcases h with h | h
  · obtain ⟨p, htcp, hlife, hfresh⟩ := h.pipe
    rw [hkeep] at hlife
    cases hlife with
    | gone hdestroyed =>
      exact TcpAt.pipeDestroyed (b := b) (s := b)
        ⟨h.boxed, h.stream, h.udp, h.ledger, p, htcp, hdestroyed, hfresh⟩
  · obtain ⟨p, hudp, hlife⟩ := h.pipe
    rw [hkeep] at hlife
    cases hlife with
    | gone hdestroyed hfired hsock =>
      refine UdpAt.pipeDestroyed (b := b) (s := b) ⟨h.boxed, h.stream, h.tcp, h.quiet, p, hudp, ?_⟩
      rw [hkeep]
      exact .gone hdestroyed hfired hsock

theorem pipeDestroyed_reap : c.reap.PipeDestroyed ↔ c.PipeDestroyed := by
  rw [Conn.reap]
  split_ifs <;> rfl

theorem Kept.live_pipeDestroyed (h : Kept b c) (hdestroyed : c.PipeDestroyed) {e : Event}
    (he : c.Enabled e) : (c.live e).PipeDestroyed := by
  have hstep := pipeDestroyed_reap.mpr (h.life.step_pipeDestroyed hdestroyed he)
  by_cases hdestroy : e = .destroy
  · subst hdestroy
    rw [Conn.live]
    split_ifs
    · exact hdestroyed
    · exact hstep
  · rwa [live_of_ne_destroy hdestroy]

theorem Kept.destroy_pipeDestroyed (h : Kept b c) : (c.live .destroy).PipeDestroyed := by
  rw [Conn.live]
  split_ifs with hreleased
  · exact h.life.pipeDestroyed_of_keep hreleased.2
  · exact pipeDestroyed_reap.mpr h.life.destroy_pipeDestroyed

/-- A connection at some point of its life, or one that was never made. -/
def Known (c : Conn) : Prop := (∃ b, Kept b c) ∨ c = {}

theorem live_destroy_of_released (h : c.Released) : c.live .destroy = c := by
  rw [Conn.live, if_pos h]

theorem Known.destroy (h : Known c) :
    Known (c.live .destroy) ∧ (c.live .destroy).PipeDestroyed := by
  rcases h with ⟨b, h⟩ | rfl
  · obtain ⟨b', hkept, -⟩ := h.live (e := .destroy) trivial
    exact ⟨.inl ⟨b', hkept⟩, h.destroy_pipeDestroyed⟩
  · rw [live_destroy_of_released ⟨rfl, rfl⟩]
    exact ⟨.inr rfl, by decide⟩

end Conn

namespace Connections

open Conn

/-! ## What it means to be within reach -/

/-- Every pipe that is not destroyed is found, unexpired, through `conns_`, so that a teardown
leaves no pipe behind. -/
structure Reaches (w : Connections) : Prop where
  found : ∀ i, ¬(w.conns i).PipeDestroyed →
    (w.address i, i) ∈ w.table ∧ ¬(w.conns i).Released
  torn : ∀ i, (w.destroy.conns i).PipeDestroyed

/-- No accept is handed the address of a connection whose pipe is not destroyed. -/
def Spared (w : Connections) : Event → Prop
  | .accept (some p) _ => w.server.srv = true →
      ∀ i < w.made, w.address i = p → (w.conns i).PipeDestroyed
  | _ => True

instance (w : Connections) : (e : Event) → Decidable (Spared w e)
  | .accept (some _) _ => inferInstanceAs (Decidable (_ → ∀ i < w.made, _ → _))
  | .accept none _ => inferInstanceAs (Decidable True)
  | .conn _ _ => inferInstanceAs (Decidable True)
  | .server _ => inferInstanceAs (Decidable True)

/-- Every connection that was made is at some point of its life. -/
structure Made (w : Connections) : Prop where
  known : ∀ i, (w.conns i).Known
  rest : ∀ i, w.made ≤ i → w.conns i = {}

/-! ## The teardown -/

theorem Made.shut {w : Connections} (h : Made w) (e : ℕ × ℕ) : Made (w.shut e) := by
  constructor
  · intro i
    by_cases hi : i = e.2
    · rw [Connections.shut, hi, conns_act_self]
      exact (h.known e.2).destroy.1
    · rw [Connections.shut, conns_act_of_ne w hi]
      exact h.known i
  · intro i hmade
    have hnone : w.conns i = {} := h.rest i hmade
    by_cases hi : i = e.2
    · rw [Connections.shut, hi, conns_act_self, ← hi, hnone]
      exact live_destroy_of_released ⟨rfl, rfl⟩
    · rw [Connections.shut, conns_act_of_ne w hi]
      exact hnone

theorem Made.foldl_shut {w : Connections} (h : Made w) (l : List (ℕ × ℕ)) :
    Made (l.foldl Connections.shut w) ∧ ∀ i, (w.conns i).PipeDestroyed ∨ i ∈ l.map Prod.snd →
      ((l.foldl Connections.shut w).conns i).PipeDestroyed := by
  induction l generalizing w with
  | nil => exact ⟨h, fun i h ↦ h.resolve_right List.not_mem_nil⟩
  | cons e l ih =>
    obtain ⟨hmade, hdestroyed⟩ := ih (h.shut e)
    refine ⟨hmade, fun i hi ↦ hdestroyed i ?_⟩
    by_cases hie : i = e.2
    · left
      rw [Connections.shut, hie, conns_act_self]
      exact (h.known e.2).destroy.2
    · rw [Connections.shut, conns_act_of_ne w hie]
      exact hi.imp_right fun hmem ↦ (List.mem_cons.mp hmem).resolve_left hie

/-- **A teardown destroys every pipe that is found.** -/
theorem torn_of_found {w : Connections} (h : Made w)
    (hfound : ∀ i, ¬(w.conns i).PipeDestroyed → (w.address i, i) ∈ w.table) (i : ℕ) :
    (w.destroy.conns i).PipeDestroyed := by
  refine (h.foldl_shut w.table).2 i ?_
  by_cases hdestroyed : (w.conns i).PipeDestroyed
  · exact .inl hdestroyed
  · exact .inr (List.mem_map.mpr ⟨_, hfound i hdestroyed, rfl⟩)

/-! ## One event -/

theorem Made.destroy {w : Connections} (h : Made w) : Made w.destroy :=
  ⟨(h.foldl_shut w.table).1.known, (h.foldl_shut w.table).1.rest⟩

theorem Made.push {w : Connections} (h : Made w) (p : ℕ) {c : Conn} (hc : c.Known) :
    Made (w.push p c) := by
  constructor
  · intro i
    by_cases hi : i = w.made
    · rw [hi, conns_push_self]
      exact hc
    · rw [conns_push_of_ne w hi]
      exact h.known i
  · intro i hmade
    have hlt : w.made < i := hmade
    rw [conns_push_of_ne w (Nat.ne_of_gt hlt)]
    exact h.rest i hlt.le

theorem known_connectionCb (udp : Bool) (uv : Uv) : (Conn.connectionCb udp uv).Known :=
  .inl ⟨true, kept_connectionCb udp uv⟩

theorem not_enabled_unmade {e : Conn.Event} (he : ({} : Conn).Enabled e) : e = .destroy := by
  cases e with
  | destroy => rfl
  | connected status uv => exact absurd he.choose_spec.1 (Option.not_mem_none _)
  | read nread a => exact absurd he.choose_spec.1 (Option.not_mem_none _)
  | written status => exact absurd he.choose_spec.1 (Option.not_mem_none _)
  | closed =>
    rcases he with ⟨t, ht, -⟩ | ⟨sock, hsock, -⟩
    · exact absurd ht (Option.not_mem_none t)
    · exact absurd hsock (Option.not_mem_none sock)
  | recv r a => exact absurd he.choose_spec.1 (Option.not_mem_none _)
  | streamOpen a => exact absurd he.1 Bool.false_ne_true
  | streamData data a => exact absurd he.1 Bool.false_ne_true
  | streamClose => exact absurd he Bool.false_ne_true
  | drained drain uv => exact absurd he.1 Bool.false_ne_true

/-- An event of a connection happens to one that was made, and leaves its pipe destroyed if it was.
-/
theorem Made.conn {w : Connections} (h : Made w) {i : ℕ} {e : Conn.Event}
    (he : w.Enabled (.conn i e)) :
    Made (w.act i (Conn.live · e)) ∧
      ((w.conns i).PipeDestroyed → ((w.conns i).live e).PipeDestroyed) := by
  obtain ⟨he, hown⟩ := he
  have hne : e ≠ .destroy := by
    rintro rfl
    exact Bool.false_ne_true hown.symm
  rcases h.known i with ⟨b, hkept⟩ | hnone
  · obtain ⟨b', hkept', -⟩ := hkept.live he
    refine ⟨⟨fun j ↦ ?_, fun j hmade ↦ ?_⟩, fun hdestroyed ↦ hkept.live_pipeDestroyed hdestroyed he⟩
    · by_cases hj : j = i
      · rw [hj, conns_act_self]
        exact .inl ⟨b', hkept'⟩
      · rw [conns_act_of_ne w hj]
        exact h.known j
    · have hnone : w.conns j = {} := h.rest j hmade
      by_cases hj : j = i
      · rw [← hj, hnone] at he
        exact absurd (not_enabled_unmade he) hne
      · rw [conns_act_of_ne w hj]
        exact hnone
  · rw [hnone] at he
    exact absurd (not_enabled_unmade he) hne

theorem made_step {w : Connections} {e : Event} (h : Made w) (he : w.Enabled e) :
    Made (w.step e) := by
  cases e with
  | accept opened uv =>
    have hpruned : Made w.prune := ⟨h.known, h.rest⟩
    rw [step, Connections.connectionCb]
    split_ifs
    · exact h
    · cases opened with
      | none => exact hpruned
      | some p => exact hpruned.push p (known_connectionCb _ uv)
  | conn i e => exact (h.conn he).1
  | server e =>
    cases e with
    | destroy => exact h.destroy
    | _ => exact ⟨h.known, h.rest⟩

/-- A pipe that is not destroyed is that of a connection not released. -/
theorem Made.not_released {w : Connections} (h : Made w) {i : ℕ}
    (hlive : ¬(w.conns i).PipeDestroyed) : ¬(w.conns i).Released := by
  intro hreleased
  rcases h.known i with ⟨b, hkept⟩ | hnone
  · exact hlive (hkept.life.pipeDestroyed_of_keep hreleased.2)
  · rw [hnone] at hlive
    exact hlive (by decide)

/-- `conns_` still maps the address of every connection whose pipe is not destroyed to it. -/
def Mapped (w : Connections) : Prop :=
  ∀ i, ¬(w.conns i).PipeDestroyed → (w.address i, i) ∈ w.table

theorem Made.reaches_iff_mapped {w : Connections} (h : Made w) : Reaches w ↔ Mapped w := by
  constructor
  · exact fun hreaches i hlive ↦ (hreaches.found i hlive).1
  · exact fun hmapped ↦ ⟨fun i hlive ↦ ⟨hmapped i hlive, h.not_released hlive⟩,
      torn_of_found h hmapped⟩

theorem Made.mapped_prune {w : Connections} (h : Made w) (hmapped : Mapped w) :
    Mapped w.prune := fun i hlive ↦
  List.mem_filter.mpr ⟨hmapped i hlive, decide_eq_true (h.not_released hlive)⟩

/-- A new stream's entry replaces that of whatever had its address before. -/
theorem Made.mapped_push_iff {w : Connections} (h : Made w) (hmapped : Mapped w) (p : ℕ)
    (c : Conn) : Mapped (w.push p c) ↔
      ∀ i < w.made, w.address i = p → (w.conns i).PipeDestroyed := by
  constructor
  · intro hpushed i hi haddress
    by_contra hlive
    have hne : i ≠ w.made := Nat.ne_of_lt hi
    have hmem := hpushed i (by rwa [conns_push_of_ne w hne])
    rw [address_push_of_ne w hne, haddress] at hmem
    rcases List.mem_cons.mp hmem with heq | hmem
    · exact hne (congrArg Prod.snd heq)
    · exact of_decide_eq_true (List.mem_filter.mp hmem).2 rfl
  · intro hspared i hlive
    by_cases hi : i = w.made
    · rw [hi, address_push_self]
      exact List.mem_cons_self
    · rw [conns_push_of_ne w hi] at hlive
      rw [address_push_of_ne w hi]
      have hmade : i < w.made := by
        by_contra hnot
        rw [h.rest i (Nat.le_of_not_lt hnot)] at hlive
        exact hlive (by decide)
      refine List.mem_cons_of_mem _ (List.mem_filter.mpr ⟨hmapped i hlive, ?_⟩)
      exact decide_eq_true fun heq ↦ hlive (hspared i hmade heq)

/-- **The step lemma.** Only an accept can put a pipe out of reach. -/
theorem mapped_step_iff {w : Connections} {e : Event} (h : Made w) (he : w.Enabled e)
    (hmapped : Mapped w) : Mapped (w.step e) ↔ Spared w e := by
  cases e with
  | accept opened uv =>
    rw [step, Connections.connectionCb]
    split_ifs with hsrv
    · refine iff_of_true hmapped ?_
      cases opened with
      | none => trivial
      | some p => exact fun hsrv' ↦ absurd (hsrv.symm.trans hsrv') Bool.false_ne_true
    · have hpruned := h.mapped_prune hmapped
      cases opened with
      | none => exact iff_of_true hpruned trivial
      | some p =>
        have hmade : Made w.prune := ⟨h.known, h.rest⟩
        refine (hmade.mapped_push_iff hpruned p _).trans ⟨fun hspared _ ↦ hspared, fun hspared ↦ ?_⟩
        exact hspared (Bool.of_not_eq_false hsrv)
  | conn i e =>
    refine iff_of_true (fun j hlive ↦ ?_) trivial
    by_cases hj : j = i
    · subst hj
      have hlive' : ¬((w.conns j).live e).PipeDestroyed := by rwa [step, conns_act_self] at hlive
      exact hmapped j fun hdestroyed ↦ hlive' ((h.conn he).2 hdestroyed)
    · rw [step, conns_act_of_ne w hj] at hlive
      exact hmapped j hlive
  | server e =>
    cases e with
    | destroy => exact iff_of_true (fun i hlive ↦ absurd (torn_of_found h hmapped i) hlive) trivial
    | _ => exact iff_of_true hmapped trivial

/-! ## Every run -/

theorem made_idle (s : HolesailServer) : Made (idle s) :=
  ⟨fun _ ↦ .inr rfl, fun _ _ ↦ rfl⟩

theorem mapped_idle (s : HolesailServer) : Mapped (idle s) :=
  fun i hlive ↦ absurd (show ({} : Conn).PipeDestroyed by decide) hlive

/-- **What a teardown reaches.** From the construction of the server on, every pipe that is not
destroyed is found through `conns_` in every state of a run, and a teardown there would destroy it,
exactly when no accept of the run is handed the address of a connection whose pipe is not destroyed.
-/
theorem reaches_iff_spared (C : Crypto) (dht : Bool) (config : Config) (seed : Bytes32)
    (es : List Event) (h : Along step Enabled (idle (ofSeed C dht config seed)) es) :
    (∀ pre, pre <+: es → Reaches (run step (idle (ofSeed C dht config seed)) pre)) ↔
      Along step Spared (idle (ofSeed C dht config seed)) es := by
  have hmade := made_idle (ofSeed C dht config seed)
  rw [← forall_prefix_iff_along_of_invariant (P := Mapped) (I := Made)
    (fun _ _ ↦ made_step) (fun _ _ ↦ mapped_step_iff) hmade (mapped_idle _) h]
  refine forall_congr' fun pre ↦ forall_congr' fun hpre ↦ ?_
  obtain ⟨post, rfl⟩ := hpre
  exact (invariant_of_along (fun _ _ ↦ made_step) hmade
    (along_append.mp h).1).reaches_iff_mapped

/-- A request whose last bytes are still being written to the local service when its stream closes,
and the connection after it, on a stream at the same address. -/
def recycled : List Event :=
  [.server (.start {}), .accept (some 7) {}, .conn 0 (.connected 0 {}), .conn 0 (.streamOpen {}),
    .conn 0 (.streamData [1] {}), .conn 0 .streamClose, .accept (some 7) {}]

/-- Up to the second accept every pipe is within reach. -/
theorem reaches_iff_spared_at :
    Reaches (run step (idle (ofSeed vectorCrypto true {} vectorSeed)) (recycled.take 6)) := by
  have h := reaches_iff_spared vectorCrypto true {} vectorSeed (recycled.take 6) (by decide +kernel)
  exact h.mpr (by decide +kernel) (recycled.take 6) List.prefix_rfl

/-- **A pipe out of reach.** The server is destroyed, and the first pipe is not. -/
theorem unreached :
    ¬∀ (C : Crypto) (dht : Bool) (config : Config) (seed : Bytes32) (es : List Event),
      Along step Enabled (idle (ofSeed C dht config seed)) es →
        Reaches (run step (idle (ofSeed C dht config seed)) es) := by
  intro h
  have hreaches := h vectorCrypto true {} vectorSeed recycled (by decide +kernel)
  exact absurd (hreaches.torn 0) (by decide +kernel)

end Connections

end HolesailServer

end Holesail
