import Holesail.Client.Stream
import Holesail.Pipe.Gauge
import Holesail.Theory.Delivery

/-!
# What a client's connection delivers

While its stream is up and its handle open, a connection can always hand some of what is in its
queue to the local socket, and receive more as soon as the queue is empty.

## Main result

`delivers`.
-/

namespace Holesail

namespace HolesailClient

namespace Conn

open Run Ctx

variable {x y : Ctx} {a : Answers} {e : Event} {d : Act}

/-! ## The pipe and its stream -/

/-- The pipe counts its queue right, and has not been told that a stream that is up has closed. -/
structure Attuned (x : Ctx) : Prop where
  metered : (x.conn.pipe.getD {}).Metered
  closed : x.conn.stream = true → (x.conn.pipe.getD {}).streamClosed = false

theorem Attuned.same (h : Attuned x) (hpipe : y.conn.pipe = x.conn.pipe)
    (hstream : y.conn.stream = x.conn.stream) : Attuned y := by
  refine ⟨?_, fun hup ↦ ?_⟩
  · rw [hpipe]
    exact h.metered
  · rw [hpipe]
    exact h.closed (hstream.symm.trans hup)

theorem Attuned.reap (h : Attuned x) : Attuned x.reap := by
  unfold Ctx.reap
  split_ifs
  · exact h
  · exact h
  · exact h
  · exact h
  · exact h.same rfl rfl

/-- A world that closes its stream without losing track of its pipe. -/
theorem gauges_host {k : Ctx → Ctx} (hk : ∀ {x}, Attuned x → Attuned (k x)) (a : Answers) :
    (host k a).Gauges Attuned where
  lawful := lawful_host k a
  metered hx := hx.metered
  setPipe hx hp hclosed := ⟨hp, fun hup ↦ hclosed.trans (hx.closed hup)⟩
  write data onDrain hx := by
    by_cases hrc : a.write < 0 <;> cases onDrain <;>
      simp only [host, makeSide, streamWrite, hrc, if_true, if_false] <;> split_ifs <;>
        exact hx.same rfl rfl
  pause hx := by
    simp only [host, makeSide]
    split_ifs
    · exact hx.same rfl rfl
    · exact hx
  resume hx := by
    simp only [host, makeSide]
    split_ifs
    · exact hx.same rfl rfl
    · exact hx
  close hx := by
    simp only [host, makeSide]
    split_ifs
    · exact hk hx
    · exact hx
  uvClose _ hx := hx.same rfl rfl
  onReady _ hx := hx
  onDestroy {x} hx := by
    have hdone : Attuned (x.modify fun c ↦ { c with pipeDone := true }) := hx.same rfl rfl
    simp only [host]
    split_ifs
    · exact hx
    · exact hdone.reap

theorem Attuned.closeLater (h : Attuned x) : Attuned x.closeLater := h.same rfl rfl

theorem Attuned.dropClient (h : Attuned x) : Attuned x.dropClient :=
  h.same (congrArg Conn.pipe (conn_dropClient x)) (congrArg Conn.stream (conn_dropClient x))

theorem Attuned.shutdownConn {k : Ctx → Ctx} (hk : ∀ {x}, Attuned x → Attuned (k x)) (a : Answers)
    (h : Attuned x) : Attuned (shutdownConn k a x) := by
  have hclosed : Attuned x.closeAccepted := by
    unfold closeAccepted
    split
    · exact h
    · split_ifs <;> exact h.same rfl rfl
  refine Attuned.reap ?_
  unfold endPipe
  split_ifs
  · exact (gauges_host hk a).destroy hclosed.dropClient
  · exact hk hclosed.dropClient
  · exact hclosed.dropClient

theorem Attuned.streamCloseCb (h : Attuned x) : Attuned x.streamCloseCb := by
  have hended : Attuned x.endStream := ⟨h.metered, fun hup ↦ Bool.noConfusion hup⟩
  unfold Ctx.streamCloseCb
  dsimp only
  split_ifs
  · exact h.same rfl rfl
  · exact hended.dropClient.reap
  · refine Attuned.reap ((gauges_host Attuned.closeLater {}).onStreamClose hended ?_)
    exact ⟨h.metered.closed, fun hup ↦ Bool.noConfusion hup⟩
  · exact hended.shutdownConn Attuned.closeLater {}
  · exact hended.reap

theorem Attuned.streamClose (h : Attuned x) : Attuned (x.streamClose a) := by
  unfold Ctx.streamClose
  split_ifs
  · exact h.closeLater.streamCloseCb
  · exact h.closeLater

theorem attuned_of_noPipe (hpipe : x.conn.pipe = none) : Attuned x := by
  constructor
  · rw [hpipe]
    exact fun _ ↦ ⟨rfl, rfl, fun hpaused ↦ Bool.noConfusion hpaused, nofun⟩
  · rw [hpipe]
    exact fun _ ↦ rfl

theorem attuned_dialled (handle : ℕ) (proxy : UdpProxy) : Attuned (dialled handle proxy) :=
  attuned_of_noPipe rfl

theorem attuned_streamOpenCb (handle : ℕ) (proxy : UdpProxy) (a : Answers) :
    Attuned ((dialled handle proxy).streamOpenCb a) := by
  have hnew : ({ onDestroy := true, tcp := some { id := handle } } : TcpPipe).Gauged :=
    ⟨rfl, rfl, fun hpaused ↦ Bool.noConfusion hpaused, nofun⟩
  have hstarts := (TcpPipe.turned_startReading
    { onDestroy := true, tcp := some { id := handle } } a.uv).sameGauge
  exact ⟨fun _ ↦ hnew.same hstarts, fun _ ↦ hstarts.closed⟩

theorem Attuned.step (h : Attuned x) (hlife : Living x) (he : x.conn.Enabled e) :
    Attuned (Conn.step x e) := by
  have hgauges : ∀ a : Answers, (host (Ctx.streamClose a) a).Gauges Attuned :=
    fun a ↦ gauges_host Attuned.streamClose a
  cases e with
  | streamOpen a =>
    rcases hlife.stage with ⟨left, hstage⟩ | hforsaken
    · cases hstage with
      | dialled handle proxy => exact attuned_streamOpenCb handle proxy a
      | opened hopen => exact absurd (hopen.streamOpen.symm.trans he.2) (by decide)
      | cut hcut => exact absurd (hcut.streamOpen.symm.trans he.2) (by decide)
      | ended hlive _ _ => exact absurd (hlive.symm.trans he.1) (by decide)
    · exact attuned_of_noPipe (hforsaken.step hlife.sound he).pipe
  | streamData data a =>
    simp only [Conn.step, Ctx.streamDataCb]
    split_ifs
    · exact h
    · exact (hgauges a).onStreamData a.uv data h
    · exact h
  | streamClose => exact h.streamCloseCb
  | drained drain a =>
    have hfreed : Attuned (x.modify fun c ↦ { c with drains := c.drains.erase drain }) :=
      h.same rfl rfl
    simp only [Conn.step, Ctx.drainCb]
    split_ifs
    · exact hfreed
    · exact (hgauges a).onDrain a.uv drain.len hfreed
  | read nread a =>
    exact (hgauges a).readCb nread ((hgauges a).turn (fun p ↦ p.turned_markEnded nread) h)
  | written status a => exact (hgauges a).writeCb status h
  | closed =>
    have hcut : Cut x := by
      obtain ⟨t, ht, hclosing, -⟩ := he
      rcases hlife.stage with ⟨left, hstage⟩ | hforsaken
      · cases hstage with
        | dialled handle proxy => exact absurd ht (TcpPipe.not_mem_handle rfl t)
        | opened hopen =>
          have hstill := (hopen.handle_eq ht).2
          exact absurd (hstill.symm.trans hclosing) (by decide)
        | cut hcut => exact hcut
        | ended _ hpipe _ => exact absurd ht (TcpPipe.not_mem_handle hpipe t)
      · exact absurd ht (TcpPipe.not_mem_handle hforsaken.pipe t)
    obtain ⟨p, hp, hdestroyed⟩ := hcut.pipe
    refine (gauges_host Attuned.closeLater {}).closedCb ?_ h
    rw [pipe_host hp]
    exact hdestroyed

theorem Attuned.act (h : Attuned x) (hlife : Living x) (ho : x.conn.Orderly d) :
    Attuned (act x d) := by
  cases d with
  | event e => exact h.step hlife ho.1
  | destroy a => exact h.shutdownConn Attuned.streamClose a

/-! ## Deliveries -/

/-- The stream is up and open, and so is the handle. -/
def Flowing (x : Ctx) : Prop := x.conn.stream = true ∧ x.conn.streamOpen = true ∧ Standing x

instance (x : Ctx) : Decidable (Flowing x) := inferInstanceAs (Decidable (_ ∧ _))

/-- An event that brings bytes toward the local socket, and goes well. A stream that is paused
delivers nothing. -/
def Brings (x : Ctx) : Event → Prop
  | .streamData data a => x.conn.Orderly (.event (.streamData data a)) ∧ data ≠ [] ∧ a = {} ∧
      (x.conn.pipe.getD {}).streamPaused = false
  | .written status a => x.conn.Orderly (.event (.written status a)) ∧ status = 0 ∧ a = {}
  | _ => False

instance (x : Ctx) : (e : Event) → Decidable (Brings x e)
  | .streamData _ _ | .written _ _ => inferInstanceAs (Decidable (_ ∧ _))
  | .streamOpen _ | .streamClose | .drained _ _ | .read _ _ | .closed =>
    inferInstanceAs (Decidable False)

def Delivers (x : Ctx) : Act → Prop
  | .event e => Brings x e
  | .destroy _ => False

instance (x : Ctx) : (d : Act) → Decidable (Delivers x d)
  | .event e => inferInstanceAs (Decidable (Brings x e))
  | .destroy _ => inferInstanceAs (Decidable False)

theorem Brings.orderly (he : Brings x e) : x.conn.Orderly (.event e) := by
  cases e with
  | streamData data a => exact he.1
  | written status a => exact he.1
  | _ => exact he.elim

theorem Brings.enabled (he : Brings x e) : x.conn.Enabled e := he.orderly.1

theorem Delivers.orderly (hd : Delivers x d) : x.conn.Orderly d := by
  cases d with
  | event e => exact Brings.orderly hd
  | destroy a => exact hd.elim

/-- A connection whose stream is closed later is a world that does not come back to its pipe. -/
theorem plain_host (a : Answers) : (host closeLater a).Plain where
  pipe_setPipe _ _ := rfl
  pipe_write data onDrain x := by
    by_cases hrc : a.write < 0 <;> cases onDrain <;>
      simp only [host, makeSide, streamWrite, hrc, if_true, if_false] <;> split_ifs <;> rfl
  pipe_pause x := by
    simp only [host, makeSide]
    split_ifs <;> rfl
  pipe_resume x := by
    simp only [host, makeSide]
    split_ifs <;> rfl
  pipe_close x := by
    simp only [host, makeSide]
    split_ifs <;> rfl
  pipe_uvClose _ _ := rfl
  pipe_onReady _ _ := rfl
  pipe_onDestroy x := by
    simp only [host, Ctx.reap]
    split_ifs <;> rfl

/-- The invariant of a connection that delivers. -/
structure Up (x : Ctx) : Prop where
  living : Living x
  attuned : Attuned x
  flowing : Flowing x

variable (hup : Up x)

include hup

theorem Up.exists_open : ∃ q, Open q x ∧ underway x = q.flatten := by
  obtain ⟨left, hstage⟩ := hup.living.exists_stage hup.flowing.2.2
  have hleft := hstage.underway hup.flowing.2.2
  cases hstage with
  | dialled handle proxy => exact absurd hup.flowing.2.1 Bool.false_ne_true
  | opened hopen => exact ⟨_, hopen, hleft⟩
  | cut hcut => exact absurd hup.flowing.2.2 hcut.uvClosed
  | ended hlive _ _ =>
    have hdown := hlive.symm.trans (hup.living.sound.live.trans hup.flowing.1)
    exact absurd hdown Bool.false_ne_true

theorem Up.open_step (he : Brings x e) : ∃ q, Open q (Conn.step x e) := by
  obtain ⟨q, hopen, -⟩ := hup.exists_open
  obtain ⟨p, t, hp, ht, -, hclosing, -, -, -, -, hheld⟩ := hopen.exists_pipe
  cases e with
  | streamData data a =>
    obtain ⟨-, hne, rfl, -⟩ := he
    have hguard : ¬(x.conn.held = false ∨ data = []) := by
      rw [hheld]
      exact not_or.mpr ⟨by decide, hne⟩
    rw [Conn.step, Ctx.streamDataCb, if_neg hguard, if_pos (by rw [hp]; rfl)]
    exact ⟨_, ((hopen.onStreamData {} hne).resolve_right fun hcut ↦ hcut.2 rfl).1⟩
  | written status a =>
    have hsound := (hup.living.act he.orderly).sound
    obtain ⟨⟨⟨u, hu, hsome⟩, -⟩, rfl, rfl⟩ := he
    rw [(hopen.handle_eq hu).1] at hsome
    obtain ⟨d, q, rfl⟩ := List.exists_cons_of_ne_nil hsome
    refine ⟨q, (hopen.writeCb {}).resolve_right fun hend ↦ ?_⟩
    -- A handle that is still open was not cut.
    have hstill : ((host closeLater {}).pipe (Conn.step x (.written 0 {}))).Open := by
      refine (plain_host {}).open_writeCb (hup.attuned.closed hup.flowing.1) ?_
      rw [pipe_host hp]
      exact ⟨t, ht, hclosing⟩
    obtain ⟨-, hcut, -⟩ := hend
    obtain ⟨p', hp', -⟩ := hcut.pipe
    obtain ⟨t', ht', hopen'⟩ := hstill
    rw [Option.mem_def, show (host closeLater {}).pipe (Conn.step x (.written 0 {})) = p' from
      pipe_host hp' _ _] at ht'
    have hclosed := hcut.closing hsound ((TcpPipe.handle_of_eq hp').trans ht')
    exact absurd (hopen'.symm.trans hclosed) Bool.false_ne_true
  | _ => exact he.elim

theorem Up.hushed (he : Brings x e) : Hushed x (Conn.step x e) := by
  refine hushed_step (hup.living.pending he.enabled) he.enabled ?_
  cases e <;> first | rfl | exact he.elim

theorem Up.step (he : Brings x e) : Up (Conn.step x e) := by
  obtain ⟨q, hopen⟩ := hup.open_step he
  have hliving : Living (Conn.step x e) := hup.living.act he.orderly
  have hlive : SameLive x (Conn.step x e) := by
    cases e with
    | streamData data a =>
      obtain ⟨-, -, rfl, -⟩ := he
      rw [Conn.step, Ctx.streamDataCb]
      split_ifs
      · rfl
      · exact (within_sameLive {}).onStreamData {} data x
      · rfl
    | written status a =>
      obtain ⟨-, -, rfl⟩ := he
      exact (within_sameLive {}).writeCb status x
    | _ => exact he.elim
  refine ⟨hliving, hup.attuned.step hup.living he.enabled, ?_, hopen.streamOpen, hopen.uvClosed⟩
  rw [← hliving.sound.live, hlive, hup.living.sound.live]
  exact hup.flowing.1

omit hup in
/-- **A connection that is up delivers.** -/
theorem delivers : Conduit.Delivers gateway Delivers Up underway where
  keeps {x d} hup hd := by
    cases d with
    | event e => exact hup.step hd
    | destroy a => exact hd.elim
  moves {x d} hup hd := by
    cases d with
    | event e =>
      exact carries_received.stands hup.living hd.orderly hup.flowing.2.2 (hup.step hd).flowing.2.2
    | destroy a => exact hd.elim
  sends {x d} hup hd := by
    cases d with
    | event e => exact (hup.hushed hd).handed
    | destroy a => exact hd.elim
  works {x d} hup hd := by
    obtain ⟨q, hopen, -⟩ := hup.exists_open
    cases d with
    | destroy a => exact hd.elim
    | event e =>
      cases e with
      | streamData data a => exact Or.inl hd.2.1
      | written status a =>
        obtain ⟨⟨⟨t, ht, hsome⟩, -⟩, rfl, -⟩ := hd
        have hwrites := (hopen.handle_eq ht).1
        obtain ⟨b, q', hq⟩ := List.exists_cons_of_ne_nil (hwrites ▸ hsome)
        right
        change x.conn.completes (.written 0 a) ≠ []
        rw [completes, if_pos rfl, Option.mem_def.mp ht, Option.map_some, Option.getD_some,
          hwrites, hq, List.headD_cons]
        exact hopen.ne b (hq ▸ List.mem_cons_self)
      | _ => exact hd.elim
  writes {x} hup hheld := by
    obtain ⟨q, hopen, hunderway⟩ := hup.exists_open
    obtain ⟨p, t, hp, ht, -, hclosing, hwrites, -⟩ := hopen.exists_pipe
    refine ⟨.event (.written 0 {}), ⟨⟨⟨t, (TcpPipe.handle_of_eq hp).trans ht, fun hnil ↦ hheld ?_⟩,
      fun u hu h ↦ ?_⟩, rfl, rfl⟩, rfl⟩
    · rw [hunderway, ← hwrites, hnil]
      rfl
    · exact absurd ((hopen.handle_eq hu).2.symm.trans h) Bool.false_ne_true
  receives {x} hup hheld b := by
    obtain ⟨q, hopen, hunderway⟩ := hup.exists_open
    obtain ⟨p, t, hp, ht, hattached, -, hwrites, -⟩ := hopen.exists_pipe
    have hlive := hup.living.sound.live.trans hup.flowing.1
    refine ⟨.event (.streamData [b] {}), ⟨⟨⟨hlive, hup.flowing.2.1⟩, trivial⟩,
      List.cons_ne_nil b [], rfl, ?_⟩, rfl⟩
    have hgauged := hup.attuned.metered
    rw [hp, Option.getD_some] at hgauged ⊢
    have hqueue : p.queue = [] := by
      rw [TcpPipe.queue, ht, Option.map_some, Option.getD_some, hwrites]
      exact hopen.eq_nil_of_flatten (hunderway.symm.trans hheld)
    exact Bool.of_not_eq_true fun hpaused ↦
      (hgauged hattached.1).queue_ne_nil hpaused hqueue

end Conn

end HolesailClient

end Holesail
