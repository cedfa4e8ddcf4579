import Holesail.Server.Publishing

/-!
# After the end of a server

`destroy` stops the refresh timer and closes the DHT server, but it keeps no flag, and the object
lives on until its owner drops it. Meanwhile the owner may call it, the listening event may fire,
and the reads of the record that were in flight end.

## Main results

`terminal_iff_harmless`: a destroyed server stays destroyed and leaves the DHT alone exactly as
long as none of these happens. `not_terminal`: a server that is destroyed while a read is in flight
puts its record.
-/

namespace Holesail

namespace HolesailServer

open Run

def Enabled (s : HolesailServer) : Event → Prop
  | .tick _ => s.refresh = true
  | .value k _ _ => k < s.gets.length
  | .done k => k < s.gets.length
  | .start _ | .listening | .pause | .resume | .destroy => True

instance (s : HolesailServer) : (e : Event) → Decidable (s.Enabled e)
  | .tick _ => inferInstanceAs (Decidable (_ = _))
  | .value _ _ _ => inferInstanceAs (Decidable (_ < _))
  | .done _ => inferInstanceAs (Decidable (_ < _))
  | .start _ | .listening | .pause | .resume | .destroy => inferInstanceAs (Decidable True)

/-- Another `start` begins another life. -/
def Event.isStart : Event → Bool
  | .start _ => true
  | _ => false

/-- What a destroyed server has no business calling. -/
def DhtCall.isLive : DhtCall → Bool
  | .suspend | .resume | .mutableGet | .mutablePut _ _ => true
  | _ => false

/-- Since `s`, the server has stayed destroyed and has left the DHT alone. -/
def Terminal (s s' : HolesailServer) : Prop :=
  s'.state = .destroyed ∧ ∃ l, s'.calls = s.calls ++ l ∧ ∀ call ∈ l, call.isLive = false

/-- An event that a destroyed server takes no notice of. Without a DHT the owner cannot disturb
it. -/
def Harmless (dht : Bool) : Event → Prop
  | .listening | .done _ => False
  | .pause | .resume => dht = false
  | _ => True

instance (dht : Bool) : (e : Event) → Decidable (Harmless dht e)
  | .listening | .done _ => inferInstanceAs (Decidable False)
  | .pause | .resume => inferInstanceAs (Decidable (_ = _))
  | .start _ | .tick _ | .value _ _ _ | .destroy => inferInstanceAs (Decidable True)

variable {s s' : HolesailServer}

theorem Terminal.call (h : Terminal s s') (call : DhtCall) (hlive : call.isLive = true)
    {s'' : HolesailServer} (hcalls : s''.calls = s'.calls ++ [call]) : ¬Terminal s s'' := by
  rintro ⟨-, l', hl', hquiet'⟩
  obtain ⟨-, l, hl, -⟩ := h
  rw [hcalls, hl, List.append_assoc, List.append_cancel_left_eq] at hl'
  have hmem : call ∈ l' := hl' ▸ List.mem_append_right l (List.mem_singleton.mpr rfl)
  exact absurd ((hquiet' call hmem).symm.trans hlive) Bool.false_ne_true

theorem Terminal.destroy (h : Terminal s s') : Terminal s s'.destroy := by
  obtain ⟨-, l, hl, hquiet⟩ := h
  rw [HolesailServer.destroy]
  simp only
  split_ifs
  · refine ⟨rfl, l ++ [.serverClose], ?_, fun call hcall ↦ ?_⟩
    · simp only [hl, List.append_assoc]
    · rcases List.mem_append.mp hcall with hcall | hcall
      · exact hquiet call hcall
      · rw [List.mem_singleton.mp hcall]
        rfl
  · exact ⟨rfl, l, hl, hquiet⟩

/-- What stays as `destroy` left it: the timer is stopped. -/
def Stopped (dht : Bool) (s : HolesailServer) : Prop := s.refresh = false ∧ s.dht = dht

theorem Stopped.step {dht : Bool} (h : Stopped dht s) {e : Event} (he : e.isStart = false) :
    Stopped dht (s.step e) := by
  cases e with
  | start env => exact absurd he Bool.noConfusion
  | tick rc =>
    rw [HolesailServer.step, publish]
    split_ifs <;> exact h
  | done k =>
    rw [HolesailServer.step]
    split <;> exact h
  | pause =>
    rw [HolesailServer.step, HolesailServer.pause]
    split_ifs <;> exact h
  | resume =>
    rw [HolesailServer.step, HolesailServer.resume]
    split_ifs <;> exact h
  | destroy =>
    obtain ⟨calls, heq⟩ := destroy_eq s
    rw [HolesailServer.step, heq]
    exact ⟨rfl, h.2⟩
  | _ => exact h

/-- **The step lemma.** A server that was left alone since its end is left alone by an event exactly
if it is harmless. -/
theorem terminal_step_iff {dht : Bool} (hs' : Stopped dht s') (h : Terminal s s') {e : Event}
    (he : s'.Enabled e) (hstart : e.isStart = false) :
    Terminal s (s'.step e) ↔ Harmless dht e := by
  cases e with
  | start env => exact absurd hstart Bool.noConfusion
  | listening => exact iff_of_false (fun hterminal ↦ EndpointState.noConfusion hterminal.1) id
  | tick rc => exact absurd (hs'.1.symm.trans he) Bool.false_ne_true
  | value k seq value => exact iff_of_true h trivial
  | done k =>
    refine iff_of_false ?_ id
    rw [HolesailServer.step, List.getElem?_eq_getElem he]
    exact h.call (.mutablePut s'.record _) rfl rfl
  | pause =>
    rw [HolesailServer.step, HolesailServer.pause, hs'.2]
    split_ifs with hdht
    · exact iff_of_true h hdht
    · exact iff_of_false (fun hterminal ↦ EndpointState.noConfusion hterminal.1) hdht
  | resume =>
    rw [HolesailServer.step, HolesailServer.resume, hs'.2]
    split_ifs with hdht
    · exact iff_of_true h hdht
    · exact iff_of_false (fun hterminal ↦ EndpointState.noConfusion hterminal.1) hdht
  | destroy => exact iff_of_true h.destroy trivial

theorem dht_step (s : HolesailServer) (e : Event) : (s.step e).dht = s.dht := by
  cases e with
  | start env =>
    obtain ⟨_, _, _, _, _, _, heq⟩ := start_eq (s := s) env
    rw [HolesailServer.step, heq]
  | tick rc =>
    rw [HolesailServer.step, publish]
    split_ifs <;> rfl
  | done k =>
    rw [HolesailServer.step]
    split <;> rfl
  | pause =>
    rw [HolesailServer.step, HolesailServer.pause]
    split_ifs <;> rfl
  | resume =>
    rw [HolesailServer.step, HolesailServer.resume]
    split_ifs <;> rfl
  | destroy =>
    obtain ⟨calls, heq⟩ := destroy_eq s
    rw [HolesailServer.step, heq]
  | _ => rfl

theorem dht_run (C : Crypto) (dht : Bool) (config : Config) (seed : Bytes32) (es : List Event) :
    (run step (ofSeed C dht config seed) es).dht = dht :=
  invariant (P := fun s ↦ s.dht = dht) (fun s e hs ↦ (dht_step s e).trans hs) rfl es

/-- **When the end is the end.** A server is destroyed at any moment of its life, and is not started
again. It stays destroyed and leaves the DHT alone as long as it does not begin to listen, no read
of the record ends that was in flight, and its owner neither pauses nor resumes it; and no
longer. -/
theorem terminal_iff_harmless (C : Crypto) (dht : Bool) (config : Config) (seed : Bytes32)
    (es later : List Event)
    (h : Along step Enabled (ofSeed C dht config seed) (es ++ .destroy :: later))
    (hlater : ∀ e ∈ later, e.isStart = false) :
    let s := run step (ofSeed C dht config seed) (es ++ [.destroy])
    (∀ pre, pre <+: later → Terminal s (run step s pre)) ↔ ∀ e ∈ later, Harmless dht e := by
  intro s
  have hs : s = (run step (ofSeed C dht config seed) es).destroy := run_concat step _ es .destroy
  obtain ⟨calls, heq⟩ := destroy_eq (run step (ofSeed C dht config seed) es)
  have hstopped : Stopped dht s := by
    rw [hs, heq]
    exact ⟨rfl, dht_run C dht config seed es⟩
  have hterminal : Terminal s s := by
    refine ⟨?_, [], (List.append_nil _).symm, fun _ hcall ↦ absurd hcall List.not_mem_nil⟩
    rw [hs, heq]
  have henabled : Along step Enabled s later := by
    rw [List.append_cons, along_append] at h
    exact h.2
  rw [← along_iff_forall_mem]
  exact forall_prefix_iff_along_of_invariant (I := Stopped dht)
    (H := fun s e ↦ s.Enabled e ∧ e.isStart = false) (fun _ _ hI he ↦ hI.step he.2)
    (fun _ _ hI he hP ↦ terminal_step_iff hI hP he.1 he.2) hstopped hterminal
    (henabled.and (along_iff_forall_mem.mpr hlater))

/-- A read that gets a reply after the end, but does not end. -/
theorem terminal_iff_harmless_at :
    let s := run step (ofSeed vectorCrypto true {} vectorSeed) [.start {}, .listening, .destroy]
    ∀ pre, pre <+: [.value 0 7 (some (ascii "x")), .destroy] → Terminal s (run step s pre) :=
  (terminal_iff_harmless vectorCrypto true {} vectorSeed [.start {}, .listening]
    [.value 0 7 (some (ascii "x")), .destroy] (by decide +kernel) (by decide)).mpr (by decide)

/-- **The end is not the end.** After `destroy` the read that was in flight ends, and the record is
put; or the owner pauses the server, and the DHT is suspended. -/
theorem not_terminal :
    let s := run step (ofSeed vectorCrypto true {} vectorSeed) [.start {}, .listening, .destroy]
    s.state = .destroyed ∧ Along step Enabled s [.done 0, .pause] ∧
      ¬Terminal s (run step s [.done 0]) ∧ ¬Terminal s (run step s [.pause]) := by
  intro s
  have hterminal : Terminal s s :=
    ⟨rfl, [], (List.append_nil _).symm, fun _ hcall ↦ absurd hcall List.not_mem_nil⟩
  refine ⟨rfl, by decide +kernel, ?_, fun h ↦ EndpointState.noConfusion h.1⟩
  exact hterminal.call (.mutablePut s.record 0) rfl rfl

end HolesailServer

end Holesail
