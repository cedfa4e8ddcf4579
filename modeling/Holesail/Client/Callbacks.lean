import Holesail.Client.Obligations

/-!
# What the callbacks of a connection are made of

Every callback of the client's connections comes down to a few changes of the connection, a few
calls on its stream, and the proxy's dropping its entry. So what these keep, in the sense of a
preorder on contexts, every callback keeps. Only the opening of the stream and the pipe's reads
write, and are left to whoever asks what is written.
-/

namespace Holesail

namespace HolesailClient

namespace Conn

namespace Ctx

/-- `R` allows what a connection does about its local side, and its calls on the stream but for the
writes. It may leave the table, and its pipe stays a pipe. -/
structure Allows (R : Ctx → Ctx → Prop) : Prop where
  refl : ∀ x, R x x
  trans : ∀ {x y z}, R x y → R y z → R x z
  own : ∀ (x : Ctx) (held pipeDone : Bool) (tcp : Option UvTcp) (pipe : Option TcpPipe)
    (uvClosed : List ℕ), (held = true → x.conn.held = true) →
    (x.conn.pipe.isSome → pipe.isSome) → R x (x.modify fun c ↦ { c with
      held := held
      pipeDone := pipeDone
      tcp := tcp
      pipe := pipe
      uvClosed := uvClosed })
  dropClient : ∀ x, R x x.dropClient
  pause : ∀ x, R x (x.streamCall .pause)
  resume : ∀ x, R x (x.streamCall .resume)
  closeLater : ∀ x, R x x.closeLater

/-- It allows the life of the stream too, but for its opening. A dial is over once and for all. -/
structure AllowsLife (R : Ctx → Ctx → Prop) : Prop extends Allows R where
  life : ∀ (x : Ctx) (connectPending connecting stream streamClosed live : Bool),
    (connectPending = true → x.conn.connectPending = true) → R x (x.modify fun c ↦ { c with
      connectPending := connectPending
      connecting := connecting
      stream := stream
      streamClosed := streamClosed
      live := live })

/-- The pipe's place in the connection, with nothing to write to. Only `read_cb` writes: to the
other callbacks it is the place that it was. -/
def muteHost (close : Ctx → Ctx) (a : Answers) : TcpPipe.Host Ctx :=
  { host close a with stream := { makeSide close a with write := fun _ _ x ↦ (0, x) } }

/-- `reap` decides whether the connection stays in the table, and nothing else. -/
theorem exists_reap_eq (x : Ctx) :
    ∃ held, x.reap = x.modify (fun c ↦ { c with held := held }) ∧
      (held = true → x.conn.held = true) := by
  unfold reap
  split_ifs
  · exact ⟨_, rfl, id⟩
  · exact ⟨_, rfl, id⟩
  · exact ⟨_, rfl, id⟩
  · exact ⟨_, rfl, id⟩
  · exact ⟨false, rfl, fun hfalse ↦ absurd hfalse (by decide)⟩

namespace Allows

variable {R : Ctx → Ctx → Prop} (hR : Allows R) {k : Ctx → Ctx}

include hR

theorem reap (x : Ctx) : R x x.reap := by
  obtain ⟨held, heq, hheld⟩ := exists_reap_eq x
  rw [heq]
  exact hR.own x held _ _ _ _ hheld id

theorem closeAccepted (x : Ctx) : R x x.closeAccepted := by
  unfold Ctx.closeAccepted
  split
  · exact hR.refl x
  · split_ifs
    · exact hR.own x _ _ none _ _ id id
    · exact hR.own x _ _ none _ _ id id

/-- A pipe with nothing to write to. -/
theorem within (hk : ∀ x, R x (k x)) (a : Answers) : (muteHost k a).Within R where
  refl := hR.refl
  trans := hR.trans
  setPipe := fun p x ↦ hR.own x _ _ _ (some p) _ id fun _ ↦ rfl
  write := fun _ _ ↦ hR.refl
  pause := by
    intro x
    simp only [muteHost, makeSide]
    split_ifs
    · exact hR.pause x
    · exact hR.refl x
  resume := by
    intro x
    simp only [muteHost, makeSide]
    split_ifs
    · exact hR.resume x
    · exact hR.refl x
  close := by
    intro x
    simp only [muteHost, makeSide]
    split_ifs
    · exact hk x
    · exact hR.refl x
  uvClose := fun t x ↦ hR.own x _ _ _ _ (x.conn.uvClosed ++ [t.id]) id id
  onReady := fun _ ↦ hR.refl
  onDestroy := by
    intro x
    simp only [muteHost, host]
    split_ifs
    · exact hR.refl x
    · exact hR.trans (hR.own x _ true _ _ _ id id) (hR.reap _)

theorem close (hk : ∀ x, R x (k x)) (a : Answers) (x : Ctx) :
    R x ((makeSide k a).close x) := (hR.within hk a).close x

theorem shutdownConn (hk : ∀ x, R x (k x)) (a : Answers) (x : Ctx) :
    R x (shutdownConn k a x) := by
  have hdrop : R x x.closeAccepted.dropClient :=
    hR.trans (hR.closeAccepted x) (hR.dropClient _)
  refine hR.trans ?_ (hR.reap _)
  unfold endPipe
  split_ifs
  · exact hR.trans hdrop ((hR.within hk a).destroy _)
  · exact hR.trans hdrop (hk _)
  · exact hdrop

theorem bridge (a : Answers) (x : Ctx) : R x (x.bridge a) := by
  cases ht : x.conn.tcp with
  | none =>
    rw [Ctx.bridge, ht]
    exact hR.refl x
  | some t =>
    rw [bridge_eq ht]
    exact hR.own x _ _ none _ _ id fun _ ↦ rfl

end Allows

namespace AllowsLife

variable {R : Ctx → Ctx → Prop} (hR : AllowsLife R)

include hR

theorem endStream (x : Ctx) : R x x.endStream := hR.life x _ _ false true false id

theorem streamCloseCb (x : Ctx) : R x x.streamCloseCb := by
  cases hheld : x.conn.held with
  | false =>
    rw [streamCloseCb_of_not_held hheld]
    exact hR.life x _ _ _ _ false id
  | true =>
    have hend := hR.endStream x
    rw [streamCloseCb_eq hheld]
    split_ifs
    · exact hR.trans hend (hR.trans (hR.dropClient _) (hR.reap _))
    · refine hR.trans hend (hR.trans ?_ (hR.reap _))
      exact (hR.within hR.closeLater {}).onStreamClose _
    · exact hR.trans hend (hR.shutdownConn hR.closeLater {} _)
    · exact hR.trans hend (hR.reap _)

theorem streamClose (a : Answers) (x : Ctx) : R x (x.streamClose a) := by
  unfold Ctx.streamClose
  split_ifs
  · exact hR.trans (hR.closeLater x) (hR.streamCloseCb _)
  · exact hR.closeLater x

theorem beginDhtConnect (a : Answers) (x : Ctx) : R x (beginDhtConnect a x).2 := by
  unfold Ctx.beginDhtConnect
  split_ifs
  · exact hR.trans (hR.life x false _ _ _ _ fun h ↦ absurd h Bool.false_ne_true)
      (hR.shutdownConn (hR.streamClose a) a _)
  · exact hR.life x _ true _ _ _ id

theorem connectCb (destroyed : Bool) (error : ℤ) (found : Bool) (a : Answers) (x : Ctx) :
    R x (connectCb destroyed error found a x) := by
  have hdialled := hR.life x false false x.conn.stream x.conn.streamClosed x.conn.live
    fun h ↦ absurd h Bool.false_ne_true
  simp only [Ctx.connectCb]
  split_ifs
  · exact hR.life x _ false _ _ _ id
  · exact hR.trans hdialled (hR.shutdownConn (hR.streamClose a) a _)
  · exact hR.life x false false true _ true fun h ↦ absurd h Bool.false_ne_true
  · exact hR.trans hdialled (hR.shutdownConn (hR.streamClose a) a _)

/-- The stream opens, if `R` allows the flush. -/
theorem streamOpenCb {a : Answers} {x : Ctx}
    (hflush : R x (flush a (x.modify fun c ↦ { c with streamOpen := true })).2) :
    R x (x.streamOpenCb a) := by
  unfold Ctx.streamOpenCb
  split_ifs
  · exact hR.refl x
  · simp only [onStreamOpen]
    split_ifs
    · exact hR.trans hflush (hR.shutdownConn (hR.streamClose a) a _)
    · exact hflush
    · exact hR.trans hflush (hR.bridge a _)

theorem streamDataCb (a : Answers) (data : Bytes) (x : Ctx) : R x (x.streamDataCb a data) := by
  unfold Ctx.streamDataCb
  split_ifs
  · exact hR.refl x
  · exact (hR.within (hR.streamClose a) a).onStreamData a.uv data x
  · exact hR.refl x

/-- What `drain_cb` does once it has freed its context. -/
theorem drainCb (a : Answers) (drain : Drain) (x : Ctx) :
    R (x.modify fun c ↦ { c with drains := c.drains.erase drain }) (x.drainCb a drain) := by
  simp only [Ctx.drainCb]
  split_ifs
  · exact hR.refl _
  · exact (hR.within (hR.streamClose a) a).onDrain a.uv drain.len _

theorem written (a : Answers) (status : ℤ) (x : Ctx) : R x (step x (.written status a)) :=
  (hR.within (hR.streamClose a) a).writeCb status x

theorem closed (x : Ctx) : R x (step x .closed) := (hR.within hR.closeLater {}).closedCb x

/-- A read, if `R` allows every write. -/
theorem read {a : Answers}
    (hwrite : ∀ data onDrain x, R x ((makeSide (Ctx.streamClose a) a).write data onDrain x).2)
    (nread : Read) (x : Ctx) : R x (step x (.read nread a)) := by
  have hwithin : (host (Ctx.streamClose a) a).Within R :=
    { hR.within (hR.streamClose a) a with write := hwrite }
  exact hR.trans (hwithin.modify _ x) (hwithin.readCb nread _)

end AllowsLife

/-- `R` allows everything that can happen to a connection. -/
structure AllowsAll (R : Ctx → Ctx → Prop) : Prop extends AllowsLife R where
  log : ∀ (x : Ctx) (streamOpen : Bool) (pending : Bytes) (drains : List Drain)
    (calls : List StreamCall), R x (x.modify fun c ↦ { c with
      streamOpen := streamOpen
      pending := pending
      drains := drains
      calls := calls })

namespace AllowsAll

variable {R : Ctx → Ctx → Prop} (hR : AllowsAll R)

include hR

theorem write (close : Ctx → Ctx) (a : Answers) (data : Bytes) (onDrain : Option Drain) (x : Ctx) :
    R x ((makeSide close a).write data onDrain x).2 := by
  obtain ⟨pending, drains, calls, heq, -⟩ := exists_write_eq close a data onDrain x
  rw [heq]
  exact hR.log x _ pending drains calls

/-- **No event** of a connection does anything else. -/
theorem step (x : Ctx) (e : Event) : R x (step x e) := by
  cases e with
  | streamOpen a =>
    refine hR.streamOpenCb ?_
    unfold flush
    split_ifs
    · exact hR.log x true _ _ _
    · exact hR.log x true [] _ _
  | streamData data a => exact hR.streamDataCb a data x
  | streamClose => exact hR.streamCloseCb x
  | drained drain a => exact hR.trans (hR.log x _ _ _ _) (hR.drainCb a drain x)
  | read nread a => exact hR.read (hR.write (Ctx.streamClose a) a) nread x
  | written status a => exact hR.written a status x
  | closed => exact hR.closed x

end AllowsAll

end Ctx

end Conn

end HolesailClient

end Holesail
