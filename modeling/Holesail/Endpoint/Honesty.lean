import Holesail.Client.HolesailClient
import Holesail.Server.Lifecycle

/-!
# The reported state

`state()` of a server and of a client. It should say "listening" only once the endpoint listens, and
not while its DHT is suspended. The callbacks and the calls of the owner write the state without
looking at one another, so this holds for some lives and not for others; this file says for which.
-/

namespace Holesail

open Run

/-! ## Suspending a DHT -/

section Suspension

variable {κ : Type} {f : κ → Option Bool}

/-- Whether a DHT is suspended after some calls, where `f` is what a call makes of that. -/
def suspendedBy (f : κ → Option Bool) (calls : List κ) : Bool :=
  calls.foldl (fun suspended call ↦ (f call).getD suspended) false

theorem suspendedBy_concat (calls : List κ) (call : κ) :
    suspendedBy f (calls ++ [call]) = (f call).getD (suspendedBy f calls) :=
  List.foldl_concat _ _ _ _

theorem suspendedBy_append {calls more : List κ} (h : ∀ call ∈ more, f call = none) :
    suspendedBy f (calls ++ more) = suspendedBy f calls := by
  induction more using List.reverseRecOn with
  | nil => rw [List.append_nil]
  | append_singleton more call ih =>
    rw [← List.append_assoc, suspendedBy_concat, h call (List.mem_append_right more
      (List.mem_singleton.mpr rfl)), Option.getD_none]
    exact ih fun c hc ↦ h c (List.mem_append_left [call] hc)

end Suspension

/-! ## The server -/

namespace HolesailServer

/-- What a call makes of the DHT's suspension. -/
def DhtCall.suspension : DhtCall → Option Bool
  | .suspend => some true
  | .resume => some false
  | _ => none

def suspended (s : HolesailServer) : Bool := suspendedBy DhtCall.suspension s.calls

theorem Plain.suspended {s s' : HolesailServer} (h : Plain s s') : s'.suspended = s.suspended := by
  obtain ⟨l, hcalls, hplain⟩ := h
  rw [HolesailServer.suspended, hcalls]
  refine suspendedBy_append fun call hcall ↦ ?_
  have hthis := hplain call hcall
  cases call with
  | suspend => exact absurd hthis Bool.false_ne_true
  | resume => exact absurd hthis Bool.false_ne_true
  | _ => rfl

/-- A server, with whether its listening event has fired. -/
structure Watched where
  server : HolesailServer
  fired : Bool := false
deriving DecidableEq

namespace Watched

def step (w : Watched) : Event → Watched
  | .listening => ⟨w.server.step .listening, true⟩
  | e => ⟨w.server.step e, w.fired⟩

/-- The server reports that it listens only if its listening event has fired, and its DHT is not
suspended. -/
def Honest (w : Watched) : Prop :=
  w.server.state = .listening → w.fired = true ∧ w.server.suspended = false

/-- The listening event does not fire while the DHT is suspended, and nobody resumes before it has
fired. -/
def Timely (w : Watched) : Event → Prop
  | .listening => w.server.suspended = false
  | .resume => w.server.dht = true → w.fired = true
  | _ => True

theorem honest_iff_of_same {w w' : Watched} (h : Honest w)
    (hstate : w'.server.state = w.server.state) (hfired : w'.fired = w.fired)
    (hsuspended : w'.server.suspended = w.server.suspended) :
    Honest w' ↔ True := by
  refine iff_true_intro fun hlistening ↦ ?_
  rw [hfired, hsuspended]
  exact h (hstate.symm.trans hlistening)

/-- **One event keeps the report honest** exactly if it is timely. -/
theorem honest_step_iff {w : Watched} (h : Honest w) (e : Event) :
    Honest (w.step e) ↔ w.Timely e := by
  have hquiet : ∀ {s : HolesailServer}, s.state = w.server.state → Plain w.server s →
      (Honest ⟨s, w.fired⟩ ↔ True) := fun hstate hplain ↦
    honest_iff_of_same h hstate rfl hplain.suspended
  cases e with
  | start env =>
    obtain ⟨srv, refresh, onListening, record, gets, calls, heq⟩ := start_eq (s := w.server) env
    exact hquiet (congrArg HolesailServer.state heq :) (plain_start w.server env)
  | listening =>
    constructor
    · intro hhonest
      exact (hhonest rfl).2
    · intro hsuspended _
      exact ⟨rfl, hsuspended⟩
  | tick rc =>
    have hstate : (w.server.publish rc).state = w.server.state := by
      unfold publish
      split_ifs <;> rfl
    exact hquiet hstate (plain_publish w.server rc)
  | value k seq value => exact hquiet rfl (plain_of_calls rfl)
  | done k =>
    simp only [Watched.step, HolesailServer.step, Timely]
    split
    · rename_i ctx _
      refine honest_iff_of_same h rfl rfl ?_
      exact suspendedBy_concat w.server.calls (.mutablePut w.server.record _)
    · exact hquiet rfl (plain_of_calls rfl)
  | pause =>
    simp only [Watched.step, HolesailServer.step, Timely, HolesailServer.pause]
    split_ifs
    · exact hquiet rfl (plain_of_calls rfl)
    · exact iff_true_intro fun hlistening ↦ nomatch hlistening
  | resume =>
    simp only [Watched.step, HolesailServer.step, Timely, HolesailServer.resume]
    split_ifs with hdht
    · refine (hquiet rfl (plain_of_calls rfl)).trans (iff_of_true trivial fun htrue ↦ ?_)
      exact absurd (hdht.symm.trans htrue) Bool.false_ne_true
    · have hresumed : ({ w.server with
          calls := w.server.calls ++ [.resume], state := .listening } : HolesailServer).suspended
          = false := suspendedBy_concat w.server.calls .resume
      constructor
      · intro hhonest _
        exact (hhonest rfl).1
      · intro htimely _
        exact ⟨htimely (Bool.eq_true_of_not_eq_false hdht), hresumed⟩
  | destroy =>
    obtain ⟨calls, heq⟩ := destroy_eq w.server
    refine iff_true_intro fun hlistening ↦ ?_
    change w.server.destroy.state = .listening at hlistening
    rw [heq] at hlistening
    exact nomatch hlistening

/-- **The server's report is honest in every state of a run** exactly if all events are timely. -/
theorem honest_iff_timely {w : Watched} (h : w.server.state = .initial) (es : List Event) :
    (∀ pre, pre <+: es → Honest (run step w pre)) ↔ Along step Timely w es := by
  refine forall_prefix_iff_along (P := Honest) (fun w e hw ↦ honest_step_iff hw e) ?_ es
  intro hlistening
  exact nomatch h.symm.trans hlistening

end Watched

end HolesailServer

/-! ## The client -/

namespace HolesailClient

/-- What a call makes of the DHT's suspension. -/
def DhtCall.suspension : DhtCall → Option Bool
  | .suspend => some true
  | .resume => some false
  | _ => none

def suspended (c : HolesailClient) : Bool := suspendedBy DhtCall.suspension c.calls

def bound (c : HolesailClient) : Bool := c.tcpProxy || c.udpProxy

/-- What happens to a client, apart from its connections. -/
inductive Event where
  /-- `connect`. `started` says whether the read of the record could be started, and `listen` what
  the proxy's `listen` returns. -/
  | connect (started : Bool) (listen : ℤ)
  /-- `mutable_cb`. -/
  | value (seq : UInt64) (value : Option Bytes)
  /-- `mutable_done_cb`. -/
  | done (listen : ℤ)
  | pause
  | resume
  | destroy

def step (c : HolesailClient) : Event → HolesailClient
  | .connect started listen => (c.connect started listen).2
  | .value seq value => c.mutableCb seq value
  | .done listen => c.mutableDoneCb listen
  | .pause => c.pause
  | .resume => c.resume
  | .destroy => c.destroy

/-- The client reports that it listens only if its local proxy is bound, and its DHT is not
suspended. -/
def Honest (c : HolesailClient) : Prop :=
  c.state = .listening → c.bound = true ∧ c.suspended = false

/-- The proxy does not begin to listen while the DHT is suspended, and nobody resumes before it is
bound. -/
def Timely (c : HolesailClient) : Event → Prop
  | .connect started listen => c.initError = 0 → c.destroyed = false → c.dht = true →
      started = false → listen = 0 → c.suspended = false
  | .done listen => c.destroyed = false → listen = 0 → c.suspended = false
  | .resume => c.destroyed = false → c.dht = true → c.bound = true
  | _ => True

theorem honest_iff_of_same {c c' : HolesailClient} (h : Honest c) (hstate : c'.state = c.state)
    (hbound : c'.bound = c.bound) (hsuspended : c'.suspended = c.suspended) :
    Honest c' ↔ True := by
  refine iff_true_intro fun hlistening ↦ ?_
  rw [hbound, hsuspended]
  exact h (hstate.symm.trans hlistening)

/-- What `start_proxy` leaves: a state that says whether the proxy could listen, and the DHT as it
was. -/
theorem startProxy_spec (c : HolesailClient) (listen : ℤ) :
    (c.startProxy listen).2.suspended = c.suspended ∧
      (c.bound = true → (c.startProxy listen).2.bound = true) ∧
      (listen = 0 → (c.startProxy listen).2.state = .listening ∧
        (c.startProxy listen).2.bound = true) ∧
      (listen ≠ 0 → (c.startProxy listen).2.state = c.state) := by
  simp only [startProxy]
  refine ⟨?_, fun hbound ↦ ?_, ?_, fun hlisten ↦ ?_⟩
  · split_ifs <;> rfl
  · rw [bound, Bool.or_eq_true] at hbound
    split_ifs <;> rcases hbound with hbound | hbound <;> simp [bound, hbound]
  · rintro rfl
    cases hudp : (resolve c.config c.record).udp <;> simp only [if_true] <;> split_ifs <;>
      simp [bound]
  · rw [if_neg hlisten]
    split_ifs <;> rfl

/-- Starting the proxy keeps the report honest exactly if it fails, or the DHT is not suspended. -/
theorem honest_startProxy_iff {c : HolesailClient} (h : Honest c) (listen : ℤ) :
    Honest (c.startProxy listen).2 ↔ (listen = 0 → c.suspended = false) := by
  obtain ⟨hsuspended, hbound, hopened, hfailed⟩ := startProxy_spec c listen
  constructor
  · intro hhonest hlisten
    rw [← hsuspended]
    exact (hhonest (hopened hlisten).1).2
  · intro hawake hlistening
    by_cases hlisten : listen = 0
    · refine ⟨(hopened hlisten).2, ?_⟩
      rw [hsuspended]
      exact hawake hlisten
    · rw [hfailed hlisten] at hlistening
      obtain ⟨hthere, hstill⟩ := h hlistening
      refine ⟨hbound hthere, ?_⟩
      rw [hsuspended]
      exact hstill

theorem honest_connect_iff {c : HolesailClient} (h : Honest c) (started : Bool) (listen : ℤ) :
    Honest (c.connect started listen).2 ↔ c.Timely (.connect started listen) := by
  simp only [Timely, connect]
  by_cases hinit : c.initError = 0
  · rw [if_neg (not_not_intro hinit)]
    by_cases hdestroyed : c.destroyed = true
    · rw [if_pos hdestroyed]
      refine (honest_iff_of_same h rfl rfl rfl).trans (iff_of_true trivial fun _ hfalse ↦ ?_)
      exact absurd (hfalse.symm.trans hdestroyed) Bool.false_ne_true
    · rw [if_neg hdestroyed]
      by_cases hdht : c.dht = false
      · rw [if_pos hdht]
        refine (honest_iff_of_same h rfl rfl rfl).trans (iff_of_true trivial fun _ _ htrue ↦ ?_)
        exact absurd (hdht.symm.trans htrue) Bool.false_ne_true
      · rw [if_neg hdht]
        cases started with
        | true =>
          rw [if_neg Bool.false_ne_true.symm]
          refine iff_of_true (fun hlistening ↦ nomatch hlistening) fun _ _ _ hfalse ↦ ?_
          exact absurd hfalse.symm Bool.false_ne_true
        | false =>
          rw [if_pos rfl]
          have hwaiting : Honest { c with
              onListening := true
              state := .waiting
              calls := c.calls ++ [.mutableGet]
              query := false } := fun hlistening ↦ nomatch hlistening
          refine (honest_startProxy_iff hwaiting listen).trans ?_
          change (listen = 0 → suspendedBy _ (c.calls ++ [.mutableGet]) = false) ↔ _
          rw [suspendedBy_concat]
          constructor
          · exact fun hawake _ _ _ _ ↦ hawake
          · exact fun hawake ↦ hawake hinit (Bool.eq_false_iff.mpr hdestroyed)
              (Bool.eq_true_of_not_eq_false hdht) rfl
  · rw [if_pos hinit]
    exact (honest_iff_of_same h rfl rfl rfl).trans
      (iff_of_true trivial fun hzero ↦ absurd hzero hinit)

/-- **One event keeps the report honest** exactly if it is timely. -/
theorem honest_step_iff {c : HolesailClient} (h : Honest c) (e : Event) :
    Honest (c.step e) ↔ c.Timely e := by
  have hquiet : ∀ {c' : HolesailClient}, c'.state = c.state → c'.bound = c.bound →
      c'.suspended = c.suspended → (Honest c' ↔ True) := honest_iff_of_same h
  cases e with
  | connect started listen => exact honest_connect_iff h started listen
  | value seq value =>
    refine hquiet ?_ ?_ ?_
    all_goals
      simp only [step, mutableCb]
      split
      · rfl
      · split_ifs
        · rfl
        · rfl
        · split <;> rfl
  | done listen =>
    simp only [step, Timely, mutableDoneCb]
    by_cases hdestroyed : c.destroyed = true
    · rw [if_pos hdestroyed]
      refine (hquiet rfl rfl rfl).trans (iff_of_true trivial fun hfalse ↦ ?_)
      exact absurd (hfalse.symm.trans hdestroyed) Bool.false_ne_true
    · rw [if_neg hdestroyed]
      have hended : Honest { c with query := false } := h
      refine (honest_startProxy_iff hended listen).trans ?_
      exact ⟨fun hawake _ ↦ hawake, fun hawake ↦ hawake (Bool.eq_false_iff.mpr hdestroyed)⟩
  | pause =>
    simp only [step, Timely, pause]
    split_ifs
    · exact hquiet rfl rfl rfl
    · exact iff_true_intro fun hlistening ↦ nomatch hlistening
  | resume =>
    simp only [step, Timely, resume]
    split_ifs with hgone
    · refine (hquiet rfl rfl rfl).trans (iff_of_true trivial fun hdestroyed hdht ↦ ?_)
      rcases hgone with hgone | hgone
      · exact absurd (hdestroyed.symm.trans hgone) Bool.false_ne_true
      · exact absurd (hgone.symm.trans hdht) Bool.false_ne_true
    · rw [not_or, Bool.not_eq_true, Bool.not_eq_false] at hgone
      have hresumed : ({ c with
          calls := c.calls ++ [.resume]
          state := .listening } : HolesailClient).suspended = false :=
        suspendedBy_concat c.calls .resume
      constructor
      · intro hhonest _ _
        exact (hhonest rfl).1
      · intro htimely _
        exact ⟨htimely hgone.1 hgone.2, hresumed⟩
  | destroy =>
    simp only [step, Timely, destroy]
    by_cases hdestroyed : c.destroyed = true
    · rw [if_pos hdestroyed]
      exact hquiet rfl rfl rfl
    · rw [if_neg hdestroyed]
      exact iff_true_intro fun hlistening ↦ nomatch hlistening

/-- **The client's report is honest in every state of a run** exactly if all events are timely. -/
theorem honest_iff_timely {c : HolesailClient} (h : c.state = .initial) (es : List Event) :
    (∀ pre, pre <+: es → Honest (run step c pre)) ↔ Along step Timely c es := by
  refine forall_prefix_iff_along (P := Honest) (fun c e hc ↦ honest_step_iff hc e) ?_ es
  intro hlistening
  exact nomatch h.symm.trans hlistening

end HolesailClient

/-! ## Both -/

theorem HolesailClient.state_new (C : Crypto) (dht : Bool) (config : HolesailClient.Config) :
    (HolesailClient.new C dht config).state = .initial := by
  unfold HolesailClient.new
  split_ifs
  · rfl
  · simp only
    split
    · split_ifs <;> rfl
    · rfl

/-- **The reported state is honest** in every state of a life exactly if all its events are timely:
neither the server's listening event nor the opening of the client's proxy happens while the DHT is
suspended, and nobody resumes before it has happened. -/
theorem state_honest_iff (C : Crypto) (dht : Bool) (serverConfig : HolesailServer.Config)
    (seed : Bytes32) (serverEvents : List HolesailServer.Event)
    (clientConfig : HolesailClient.Config) (clientEvents : List HolesailClient.Event) :
    let w : HolesailServer.Watched := ⟨HolesailServer.ofSeed C dht serverConfig seed, false⟩
    let c := HolesailClient.new C dht clientConfig
    ((∀ pre, pre <+: serverEvents →
        HolesailServer.Watched.Honest (run HolesailServer.Watched.step w pre)) ↔
      Along HolesailServer.Watched.step HolesailServer.Watched.Timely w serverEvents) ∧
    ((∀ pre, pre <+: clientEvents → HolesailClient.Honest (run HolesailClient.step c pre)) ↔
      Along HolesailClient.step HolesailClient.Timely c clientEvents) := by
  constructor
  · exact HolesailServer.Watched.honest_iff_timely rfl serverEvents
  · exact HolesailClient.honest_iff_timely (HolesailClient.state_new C dht clientConfig)
      clientEvents

/-- **A server that is resumed before it listens says it does**, and one that begins to listen while
it is paused, and so does a client. -/
theorem state_dishonest :
    (¬∀ (C : Crypto) (dht : Bool) (config : HolesailServer.Config) (seed : Bytes32)
        (es : List HolesailServer.Event), HolesailServer.Watched.Honest
      (run HolesailServer.Watched.step ⟨HolesailServer.ofSeed C dht config seed, false⟩ es)) ∧
    ¬∀ (C : Crypto) (dht : Bool) (config : HolesailClient.Config)
        (es : List HolesailClient.Event), HolesailClient.Honest
      (run HolesailClient.step (HolesailClient.new C dht config) es) := by
  constructor
  · intro h
    have hstate := h vectorCrypto true { localPort := 8080 } vectorSeed
      [.start {}, .pause, .listening]
    obtain ⟨-, hawake⟩ := hstate (by decide +kernel)
    exact absurd hawake (by decide +kernel)
  · intro h
    have hstate := h vectorCrypto true { key := ascii "k", secure := true }
      [.connect true 0, .pause, .resume]
    obtain ⟨hbound, -⟩ := hstate (by decide +kernel)
    exact absurd hbound (by decide +kernel)

end Holesail
