import Holesail.Client.Delivery
import Holesail.Server.Delivery
import Holesail.Tunnel.Stream

/-!
# Nothing stays underway

Each of the four queues of a tunnel is throttled by another: a pipe stops reading when the stream
has too much to ack, and pauses the stream when the local side has too much to write. This file says
that they never wait for each other in a circle. Whatever has happened before, while both ends are
up some byte that is underway can move on, and however the bytes move on they all arrive.

## Main result

`deliveries_complete`.
-/

namespace Holesail

namespace Tunnel

open Run Conduit

/-- At both ends the stream is up and open, and so is the handle. -/
def Flowing (t : Tunnel) : Prop :=
  HolesailClient.Conn.Flowing t.near ∧ HolesailServer.Conn.Flowing t.far

instance (t : Tunnel) : Decidable (Flowing t) := inferInstanceAs (Decidable (_ ∧ _))

/-- A byte that is underway moves on: the stream delivers to an end that has not paused it, or a
local write completes. -/
def Delivers : Tunnel → Event → Prop :=
  Link.Reliable HolesailClient.Conn.gateway HolesailServer.Conn.gateway
    HolesailClient.Conn.Delivers HolesailServer.Conn.Delivers

instance (t : Tunnel) (e : Event) : Decidable (Delivers t e) :=
  inferInstanceAs (Decidable (Link.Reliable _ _ _ _ t e))

/-- How many deliveries are possible at the most. -/
def rank : Tunnel → ℕ := Link.rank HolesailClient.Conn.underway HolesailServer.Conn.underway

variable {handle : ℕ} {proxy : UdpProxy} {uv : Uv} {es fs : List Event} {t : Tunnel} {e : Event}

theorem Delivers.spares (he : Delivers t e) : Spares t e := by
  cases e with
  | near e => exact ⟨HolesailClient.Conn.Delivers.orderly he.1, he.2⟩
  | far e =>
    refine ⟨⟨he.1.orderly, ?_⟩, he.2⟩
    obtain ⟨he, -⟩ := he
    cases e with
    | streamData data a => exact ⟨trivial, False.elim⟩
    | written status => exact ⟨trivial, False.elim⟩
    | _ => exact he.elim

theorem Spares.enabled (he : Spares t e) : Enabled t e := by
  cases e with
  | near e => exact he
  | far e => exact ⟨he.1.1, he.2⟩

theorem Delivers.reads (he : Delivers t e) : fromSocket t e = [] ∧ fromService t e = [] := by
  cases e with
  | near d =>
    obtain ⟨hd, -⟩ := he
    cases d with
    | event e => cases e <;> first | exact ⟨rfl, rfl⟩ | exact hd.elim
    | destroy a => exact hd.elim
  | far e =>
    obtain ⟨he, -⟩ := he
    cases e <;> first | exact ⟨rfl, rfl⟩ | exact he.elim

/-- The invariants of both ends. -/
structure Sound (t : Tunnel) : Prop where
  living : HolesailClient.Conn.Living t.near
  nearAttuned : HolesailClient.Conn.Attuned t.near
  settled : HolesailServer.Conn.Settled t.far
  farAttuned : HolesailServer.Conn.Attuned t.far

theorem sound_dialled (handle : ℕ) (proxy : UdpProxy) (uv : Uv) :
    Sound (dialled handle proxy uv) :=
  ⟨HolesailClient.Conn.living_dialled handle proxy,
    HolesailClient.Conn.attuned_dialled handle proxy,
    HolesailServer.Conn.settled_connectionCb uv,
    HolesailServer.Conn.attuned_connectionCb uv⟩

theorem Sound.step (h : Sound t) (he : Enabled t e) : Sound (step t e) := by
  cases e with
  | near d =>
    obtain ⟨hd, -⟩ := he
    exact ⟨h.living.act hd, h.nearAttuned.act h.living hd, h.settled, h.farAttuned⟩
  | far e =>
    obtain ⟨⟨he, -⟩, -⟩ := he
    exact ⟨h.living, h.nearAttuned, h.settled.step he, h.farAttuned.step h.settled.living he⟩

theorem sound_run (henabled : Along step Enabled (dialled handle proxy uv) es) :
    Sound (run step (dialled handle proxy uv) es) :=
  invariant_of_along (fun _ _ h he ↦ h.step he) (sound_dialled handle proxy uv) henabled

/-- Both ends are up, in every sense. -/
structure Up (t : Tunnel) : Prop where
  near : HolesailClient.Conn.Up t.near
  far : HolesailServer.Conn.Up t.far

theorem Sound.up (h : Sound t) (hflowing : Flowing t) : Up t :=
  ⟨⟨h.living, h.nearAttuned, hflowing.1⟩, ⟨h.settled, h.farAttuned, hflowing.2⟩⟩

/-- Nothing is queued at either end, and nothing is in the stream. -/
structure Idle (t : Tunnel) : Prop where
  near : HolesailClient.Conn.underway t.near = []
  inward : t.inward = []
  far : HolesailServer.Conn.underway t.far = []
  outward : t.outward = []

theorem Up.deliveries (hup : Up t) (hfs : Along step Delivers t fs) :
    fs.length ≤ rank t ∧ Up (run step t fs) ∧
      ((∀ e, ¬Delivers (run step t fs) e) → Idle (run step t fs)) := by
  have hend := Link.up_run HolesailClient.Conn.delivers HolesailServer.Conn.delivers
    ⟨hup.near, hup.far⟩ hfs
  refine ⟨Link.length_le_rank HolesailClient.Conn.delivers HolesailServer.Conn.delivers
    ⟨hup.near, hup.far⟩ hfs, ⟨hend.1, hend.2⟩, fun hstuck ↦ ?_⟩
  obtain ⟨hnear, hinward, hfar, houtward⟩ :=
    Link.nothing_underway HolesailClient.Conn.delivers HolesailServer.Conn.delivers hend hstuck
  exact ⟨hnear, hinward, hfar, houtward⟩

theorem Up.not_delivers (hup : Up t) (hrank : rank t = 0) : ¬Delivers t e := by
  intro he
  have hone : Along step Delivers t [e] := ⟨he, trivial⟩
  have hlength := (hup.deliveries hone).1
  rw [hrank] at hlength
  exact absurd hlength (Nat.not_succ_le_zero 0)

theorem Up.passing (hup : Up t) : t.far.Passing := by
  obtain ⟨p, -, htcp, -, -, hopen, -⟩ := hup.far.settled.living.attached hup.far.flowing.2.2
  exact Or.inr fun hdestroyed ↦
    absurd ((hdestroyed.1 p htcp).symm.trans hopen) (by decide)

/-- **The tunnel cannot jam.** Take any run, errors and back-pressure included, after which both
ends are up, and let bytes move on from there in any order. There are at most `rank` deliveries,
both ends stay up, and when no delivery is possible any more the service has everything that was
ever read from the socket; and if the server has dropped nothing, the socket has everything that was
ever read from the service. -/
theorem deliveries_complete (henabled : Along step Enabled (dialled handle proxy uv) es)
    (hflowing : Flowing (run step (dialled handle proxy uv) es))
    (hfs : Along step Delivers (run step (dialled handle proxy uv) es) fs) :
    let t₀ := dialled handle proxy uv
    let t := run step t₀ es
    fs.length ≤ rank t ∧ Flowing (run step t fs) ∧
      ((∀ e, ¬Delivers (run step t fs) e) →
        trace step toService t₀ (es ++ fs) = trace step fromSocket t₀ es ∧
          (Along step Spares t₀ es →
            trace step toSocket t₀ (es ++ fs) = trace step fromService t₀ es)) := by
  obtain ⟨hlength, hup, hidle⟩ := ((sound_run henabled).up hflowing).deliveries hfs
  refine ⟨hlength, ⟨hup.near.flowing, hup.far.flowing⟩, fun hstuck ↦ ?_⟩
  have hidle := hidle hstuck
  have hreads : trace step fromSocket (run step (dialled handle proxy uv) es) fs = [] ∧
      trace step fromService (run step (dialled handle proxy uv) es) fs = [] :=
    ⟨trace_eq_nil _ (hfs.imp fun _ _ he ↦ he.reads.1),
      trace_eq_nil _ (hfs.imp fun _ _ he ↦ he.reads.2)⟩
  constructor
  · have hall := along_append.mpr ⟨henabled, hfs.imp fun _ _ he ↦ he.spares.enabled⟩
    have hbalance := (socket_to_service handle proxy uv (es ++ fs) hall).balance
    rw [run_append] at hbalance
    have harrived := hbalance ⟨hup.near.flowing.2.2, hup.far.flowing.2.2⟩
    rw [hidle.far, hidle.outward, trace_append fromSocket, hreads.1, List.append_nil,
      List.append_nil, List.append_nil] at harrived
    exact harrived.symm
  · intro hspares
    have hall := along_append.mpr ⟨hspares, hfs.imp fun _ _ he ↦ he.spares⟩
    have hbalance := (service_to_socket handle proxy uv (es ++ fs) hall).balance
    rw [run_append] at hbalance
    have harrived := hbalance ⟨hup.passing, hup.near.flowing.2.2⟩
    rw [hidle.near, hidle.inward, hup.far.settled.released hup.far.flowing.2.1,
      trace_append fromService, hreads.2, List.append_nil, List.append_nil, List.append_nil,
      List.append_nil] at harrived
    exact harrived.symm

/-- What moves on after an exchange. -/
def settling : List Event :=
  [.near (.event (.streamData [9] {})), .far (.written 0), .near (.event (.written 0 {})),
    .near (.event (.written 0 {}))]

/-- Everything arrives. -/
theorem deliveries_complete_exchange :
    trace step toService (dialled 3 {} {}) (exchange ++ settling) = [1, 2] ∧
      trace step toSocket (dialled 3 {} {}) (exchange ++ settling) = [7, 8, 9] := by
  have henabled : Along step Enabled (dialled 3 {} {}) exchange := by decide +kernel
  have hfs : Along step Delivers (run step (dialled 3 {} {}) exchange) settling := by
    decide +kernel
  obtain ⟨-, hflowing, hall⟩ := deliveries_complete henabled (by decide +kernel) hfs
  have hsound : Sound (run step (run step (dialled 3 {} {}) exchange) settling) := by
    rw [← run_append]
    exact sound_run (by decide +kernel)
  obtain ⟨hservice, hsocket⟩ := hall fun _ ↦ (hsound.up hflowing).not_delivers (by decide +kernel)
  exact ⟨hservice.trans (by decide +kernel),
    (hsocket (by decide +kernel)).trans (by decide +kernel)⟩

end Tunnel

end Holesail
