import Holesail.Client.Conn

/-!
# What keeps a connection of the client in the table

A connection is owed something as long as its connect callback, its stream's `on_close` or its
pipe's `on_destroy` has not fired. This file shows, callback by callback, that a connection is in
`conns_` exactly that long, and that no handle is ever forgotten or closed twice: what a connection
holds, what its pipe owns and what was closed always come to the same handles.

`reap` is called from many places, often more than once for one event and from inside other
callbacks. So it is not called for its own sake: it is shown to do nothing to a connection that is
`Exact`, and the callbacks are followed from one exact connection to the next.
-/

namespace Holesail

namespace HolesailClient

namespace Conn

/-- Something can still call back into the connection. -/
def Obliged (c : Conn) : Prop :=
  c.connecting = true ∨ c.live = true ∨ ∃ p ∈ c.pipe, p.onDestroy = true

/-! ## Handles -/

/-- The accepted socket that a connection in the table holds. -/
def holding (c : Conn) : List ℕ := if c.held then c.tcp.toList.map UvTcp.id else []

/-- The handle that the pipe of a connection in the table owns: it is still open. -/
def owning (c : Conn) : List ℕ :=
  if c.held then
    match c.pipe.bind TcpPipe.bond with
    | some (id, false) => [id]
    | _ => []
  else []

/-- How often a handle is held, owned or closed by the connection. -/
def tally (c : Conn) (handle : ℕ) : ℕ :=
  c.holding.count handle + c.owning.count handle + c.uvClosed.count handle

theorem tally_of_pipe {c : Conn} (hheld : c.held = true) (htcp : c.tcp = none) {p : TcpPipe}
    (hp : c.pipe = some p) (handle : ℕ) :
    c.tally handle = (match p.bond with
      | some (id, false) => [id]
      | _ => []).count handle + c.uvClosed.count handle := by
  rw [tally, holding, owning, if_pos hheld, if_pos hheld, htcp, hp, Option.bind_some,
    Option.toList_none, List.map_nil, List.count_nil, Nat.zero_add]

/-! ## The invariant -/

/-- The connection and its pipe agree with what hyperdht and libuv know. -/
structure Sound (c : Conn) : Prop where
  connecting : c.connecting = c.connectPending
  live : c.live = c.stream
  stream : c.stream = true → c.streamClosed = false
  dialling : c.connectPending = true → c.stream = false ∧ c.streamClosed = false
  noPipe : c.pipe = none → c.pipeDone = false ∧ c.drains = []
  tcp : ∀ t, c.tcp = some t → t.closing = false ∧ c.udp = false ∧ c.pipe = none
  pipe : ∀ p, c.pipe = some p → c.udp = false ∧ c.connectPending = false ∧
    ((p.Attached ∨ p.Detaching) ∧ c.pipeDone = false ∨ p.Detached ∧ c.pipeDone = true)

/-- What the connection itself knows to be outstanding. -/
def pinned (c : Conn) : Bool :=
  c.connectPending || c.stream || (c.pipe.isSome && !c.pipeDone)

/-- The connection is in the table exactly as long as something is outstanding, and holds a socket
only while it is dialled. -/
structure Exact (c : Conn) : Prop where
  held : c.held = c.pinned
  tcp : c.tcp ≠ none → c.connectPending = true ∨ c.stream = true

theorem Sound.tcp_of_pipe {c : Conn} (h : c.Sound) {p : TcpPipe} (hp : c.pipe = some p) :
    c.tcp = none := by
  by_contra hsome
  obtain ⟨t, ht⟩ := Option.ne_none_iff_exists'.mp hsome
  rw [(h.tcp t ht).2.2] at hp
  exact absurd hp.symm (Option.some_ne_none p)

theorem Sound.pinned_iff {c : Conn} (h : c.Sound) : c.pinned = true ↔ c.Obliged := by
  rw [pinned, Obliged, h.connecting, h.live, Bool.or_eq_true, Bool.or_eq_true, or_assoc]
  refine or_congr_right (or_congr_right ?_)
  cases hpipe : c.pipe with
  | none => simp
  | some p =>
    rcases (h.pipe p hpipe).2.2 with ⟨hp | hp, hdone⟩ | ⟨hp, hdone⟩
    · simp [hdone, hp.2.2.1]
    · simp [hdone, hp.2.2.1]
    · simp [hdone, hp.2.2.1]

/-- A connection whose pipe is not done is exact as long as it is in the table. -/
theorem Sound.exact_of_pipe {c : Conn} (h : c.Sound) (hheld : c.held = true)
    (hpipe : c.pipe.isSome) (hdone : c.pipeDone = false) : c.Exact := by
  refine ⟨?_, fun htcp ↦ ?_⟩
  · simp [pinned, hheld, hpipe, hdone]
  · obtain ⟨t, ht⟩ := Option.ne_none_iff_exists'.mp htcp
    rw [(h.tcp t ht).2.2] at hpipe
    exact absurd hpipe (by decide)

theorem Sound.connectPending_of_stream {c : Conn} (h : c.Sound) (hstream : c.stream = true) :
    c.connectPending = false := by
  by_contra hpending
  rw [Bool.not_eq_false] at hpending
  rw [(h.dialling hpending).1] at hstream
  exact absurd hstream (by decide)

theorem Exact.held_of_stream {c : Conn} (h : c.Exact) (hstream : c.stream = true) :
    c.held = true := by
  rw [h.held, pinned, hstream, Bool.or_true, Bool.true_or]

theorem Sound.event_of_noPipe {c : Conn} (h : c.Sound) (hpipe : c.pipe = none) {e : Event}
    (he : c.Enabled e) : c.live = true ∧
      ((∃ a, e = .streamOpen a) ∨ (∃ data a, e = .streamData data a) ∨ e = .streamClose) := by
  have hnoHandle := TcpPipe.not_mem_handle hpipe
  cases e with
  | streamOpen a => exact ⟨he.1, .inl ⟨a, rfl⟩⟩
  | streamData data a => exact ⟨he.1, .inr (.inl ⟨data, a, rfl⟩)⟩
  | streamClose => exact ⟨he, .inr (.inr rfl)⟩
  | drained drain a =>
    have hmem := he.2
    rw [(h.noPipe hpipe).2] at hmem
    exact absurd hmem List.not_mem_nil
  | read nread a => exact he.elim fun t ht ↦ absurd ht.1 (hnoHandle t)
  | written status a => exact he.elim fun t ht ↦ absurd ht.1 (hnoHandle t)
  | closed => exact he.elim fun t ht ↦ absurd ht.1 (hnoHandle t)

namespace Ctx

/-- `x'` is a sound connection if `x` is, with the same handles. -/
structure Settles (x x' : Ctx) : Prop where
  sound : x'.conn.Sound
  tally : ∀ handle, x'.conn.tally handle = x.conn.tally handle

theorem Settles.trans {x x' x'' : Ctx} (h : Settles x x') (h' : Settles x' x'') :
    Settles x x'' := ⟨h'.sound, fun handle ↦ (h'.tally handle).trans (h.tally handle)⟩

theorem settles_refl {x : Ctx} (h : x.conn.Sound) : Settles x x := ⟨h, fun _ ↦ rfl⟩

/-! ## `reap` -/

theorem reap_of_pinned {x : Ctx} (h : x.conn.Sound) (hpinned : x.conn.pinned = true) :
    x.reap = x := by
  unfold reap
  rw [pinned, Bool.or_eq_true, Bool.or_eq_true, Bool.and_eq_true, Bool.not_eq_true'] at hpinned
  split_ifs with hheld hpending hstream hpipe
  · rfl
  · rfl
  · rfl
  · rfl
  · rcases hpinned with (hpending' | hstream') | hpipe'
    · exact absurd hpending' hpending
    · exact absurd ⟨hstream', h.stream hstream'⟩ hstream
    · exact absurd hpipe' hpipe

theorem reap_of_exact {x : Ctx} (h : x.conn.Sound) (hexact : x.conn.Exact) : x.reap = x := by
  cases hpinned : x.conn.pinned with
  | true => exact reap_of_pinned h hpinned
  | false => exact if_pos (hexact.held.trans hpinned)

/-- **`reap` makes the connection exact.** -/
theorem reap_settles {x : Ctx} (h : x.conn.Sound) (hheld : x.conn.held = true)
    (htcp : x.conn.tcp ≠ none → x.conn.connectPending = true ∨ x.conn.stream = true) :
    Settles x x.reap ∧ x.reap.conn.Exact := by
  cases hpinned : x.conn.pinned with
  | true =>
    rw [reap_of_pinned h hpinned]
    exact ⟨settles_refl h, hheld.trans hpinned.symm, htcp⟩
  | false =>
    have hnot := hpinned
    rw [pinned, Bool.or_eq_false_iff, Bool.or_eq_false_iff, Bool.and_eq_false_iff,
      Bool.not_eq_false'] at hnot
    obtain ⟨⟨hpending, hstream⟩, hpipe⟩ := hnot
    -- An accepted socket is only kept while the connect or the stream is still to come.
    have hnone : x.conn.tcp = none := by
      by_contra hsome
      rcases htcp hsome with h' | h'
      · rw [hpending] at h'
        exact absurd h' (by decide)
      · rw [hstream] at h'
        exact absurd h' (by decide)
    have hreap : x.reap = x.modify fun c ↦ { c with held := false } := by
      unfold reap
      rw [if_neg (by simp [hheld]), if_neg (by simp [hpending]), if_neg (by simp [hstream]),
        if_neg (by rcases hpipe with hpipe | hpipe <;> simp [hpipe])]
    rw [hreap]
    refine ⟨⟨⟨h.connecting, h.live, h.stream, h.dialling, h.noPipe, h.tcp, h.pipe⟩,
      fun handle ↦ ?_⟩, hpinned.symm, fun hsome ↦ absurd hnone hsome⟩
    -- Nothing pins the connection, so it owns no handle that could be lost with it.
    have howning : x.conn.owning = [] := by
      rw [owning, if_pos hheld]
      cases hp : x.conn.pipe with
      | none => rfl
      | some p =>
        rw [hp] at hpipe
        have hdone : x.conn.pipeDone = true := hpipe.resolve_left (by simp)
        rcases (h.pipe p hp).2.2 with ⟨-, hdone'⟩ | ⟨hdetached, -⟩
        · rw [hdone] at hdone'
          exact absurd hdone' (by decide)
        · have hbond : p.bond = none := by rw [TcpPipe.bond, hdetached.2.2.2]; rfl
          rw [Option.bind_some, hbond]
    have hholding : x.conn.holding = [] := by
      rw [holding, hnone, if_pos hheld]
      rfl
    rw [tally, tally, howning, hholding]
    rfl

/-! ## Moves that leave the obligations alone -/

/-- What is written to, or withheld from, the stream does not matter. -/
theorem settles_log {x : Ctx} (h : x.conn.Sound) (pending : Bytes) (calls : List StreamCall)
    (drains : List Drain) (hdrains : x.conn.pipe = none → drains = []) :
    Settles x (x.modify fun c ↦
      { c with pending := pending, drains := drains, calls := calls }) :=
  ⟨⟨h.connecting, h.live, h.stream, h.dialling, fun hp ↦ ⟨(h.noPipe hp).1, hdrains hp⟩, h.tcp,
    h.pipe⟩, fun _ ↦ rfl⟩

theorem exact_log {x : Ctx} (h : x.conn.Exact) (pending : Bytes) (calls : List StreamCall)
    (drains : List Drain) :
    (x.modify fun c ↦ { c with pending := pending, drains := drains, calls := calls }).conn.Exact :=
  ⟨h.held, h.tcp⟩

theorem pipe_host {x : Ctx} {p : TcpPipe} (hp : x.conn.pipe = some p) (close : Ctx → Ctx)
    (a : Answers) : (host close a).pipe x = p := by
  simp only [host, hp, Option.getD_some]

theorem lawful_host (close : Ctx → Ctx) (a : Answers) : (host close a).Lawful :=
  ⟨fun _ _ ↦ rfl, fun _ _ _ ↦ rfl⟩

/-- The pipe may change as long as it stays at the same handle and the same point of its life. -/
theorem settles_setPipe {x : Ctx} (h : x.conn.Sound) {p p' : TcpPipe} (hp : x.conn.pipe = some p)
    (hbond : p.SameBond p') : Settles x (x.modify fun c ↦ { c with pipe := some p' }) := by
  refine ⟨⟨h.connecting, h.live, h.stream, h.dialling, fun hnone ↦ ?_, fun t ht ↦ ?_,
    fun q hq ↦ ?_⟩, fun handle ↦ ?_⟩
  · exact absurd hnone (Option.some_ne_none p')
  · have hnone := (h.tcp t ht).2.2
    rw [hp] at hnone
    exact absurd hnone (Option.some_ne_none p)
  · obtain rfl : p' = q := Option.some.inj hq
    obtain ⟨hudp, hpending, hstage⟩ := h.pipe p hp
    refine ⟨hudp, hpending, ?_⟩
    rcases hstage with ⟨hp | hp, hdone⟩ | ⟨hp, hdone⟩
    · exact Or.inl ⟨Or.inl (hbond.attached hp), hdone⟩
    · exact Or.inl ⟨Or.inr (hbond.detaching hp), hdone⟩
    · exact Or.inr ⟨hbond.detached hp, hdone⟩
  · have howning : (x.modify fun c ↦ { c with pipe := some p' }).conn.owning = x.conn.owning := by
      rw [owning, owning, hp]
      simp only [modify, Option.bind_some, hbond.bond]
    rw [tally, tally, howning]
    rfl

theorem exact_setPipe {x : Ctx} (h : x.conn.Exact) {p p' : TcpPipe} (hp : x.conn.pipe = some p) :
    (x.modify fun c ↦ { c with pipe := some p' }).conn.Exact := by
  refine ⟨h.held.trans ?_, h.tcp⟩
  rw [pinned, pinned, hp]
  rfl

/-! ## Closing the stream -/

def endStream (x : Ctx) : Ctx :=
  x.modify fun c ↦ { c with live := false, streamClosed := true, stream := false }

/-- What a call of `hyperdht_stream_close` may do: nothing yet but be noted, or fire `on_close`,
which leaves a connection whose pipe is being destroyed to that pipe, and otherwise goes from one
exact connection to another. -/
structure Closer (close : Ctx → Ctx) : Prop where
  ending : ∀ {x p}, x.conn.held = true → x.conn.connectPending = false → x.conn.udp = false →
    x.conn.pipe = some p → p.destroyed = true → x.conn.pipeDone = false →
    close x = x.closeLater ∨ close x = x.closeLater.endStream
  settles : ∀ {x}, x.conn.Sound → x.conn.Exact → x.conn.stream = true →
    Settles x (close x) ∧ (close x).conn.Exact
  pipe : ∀ {x}, x.conn.Sound → x.conn.Exact → x.conn.stream = true → x.conn.pipe.isSome →
    (close x).conn.pipe.isSome

theorem closer_closeLater : Closer closeLater where
  ending := fun _ _ _ _ _ _ ↦ Or.inl rfl
  settles := fun h hexact _ ↦
    ⟨settles_log h _ _ _ fun hp ↦ (h.noPipe hp).2, exact_log hexact _ _ _⟩
  pipe := fun _ _ _ h ↦ h

section Destroy

variable {close : Ctx → Ctx} {a : Answers} {x : Ctx}

/-- `y` is `x` while its pipe, now `q`, is being destroyed; its stream may have closed. -/
structure Ending (x y : Ctx) (q : TcpPipe) : Prop where
  same : y.conn = { x.conn with
    pipe := some q
    calls := y.conn.calls
    live := y.conn.live
    stream := y.conn.stream
    streamClosed := y.conn.streamClosed }
  live : y.conn.live = y.conn.stream
  stream : y.conn.stream = true → y.conn.streamClosed = false

/-- What the side's `close` does while the pipe is being destroyed. -/
theorem ending_makeSide_close (hc : Closer close) (h : x.conn.Sound) (hheld : x.conn.held = true)
    {p q : TcpPipe} (hp : x.conn.pipe = some p) (hdone : x.conn.pipeDone = false)
    (hdestroyed : q.destroyed = true) :
    Ending x ((makeSide close a).close (x.modify fun c ↦ { c with pipe := some q })) q := by
  obtain ⟨hudp, hpending, -⟩ := h.pipe p hp
  simp only [makeSide]
  split_ifs
  · rcases hc.ending (x := x.modify fun c ↦ { c with pipe := some q }) hheld hpending hudp rfl
      hdestroyed hdone with hend | hend <;> rw [hend]
    · exact ⟨rfl, h.live, h.stream⟩
    · refine ⟨rfl, rfl, fun hfalse ↦ ?_⟩
      exact absurd (show (false : Bool) = true from hfalse) (by decide)
  · exact ⟨rfl, h.live, h.stream⟩

theorem exists_destroy_eq (hc : Closer close) (h : x.conn.Sound) (hheld : x.conn.held = true)
    {p : TcpPipe} (hp : x.conn.pipe = some p) (hattached : p.Attached)
    (hdone : x.conn.pipeDone = false) :
    let q := TcpPipe.stopReading { p with destroyed := true }
    ∃ y t, Ending x y q ∧ q.tcp = some t ∧ p.bond = some (t.id, false) ∧
      TcpPipe.destroy (host close a) x = y.modify fun c ↦
        { c with pipe := some (q.detach t), uvClosed := c.uvClosed ++ [t.id] } := by
  obtain ⟨hdestroyed, hclosing, -, id, hbond⟩ := hattached
  have hsame := (TcpPipe.turned_stopReading { p with destroyed := true }).sameBond
  obtain ⟨t, ht, htbond⟩ := Option.map_eq_some_iff.mp (hsame.bond.trans hbond)
  have hopen : t.closing = false := (Prod.mk.inj htbond).2
  have hending := ending_makeSide_close (a := a) hc h hheld hp hdone hsame.life.1
  refine ⟨_, t, hending, ht, ?_, ?_⟩
  · rw [hbond, ← htbond, hopen]
  · rw [TcpPipe.destroy_of_not_destroyed _ (lawful_host close a)
      (by rw [pipe_host hp, hdestroyed]), pipe_host hp]
    exact TcpPipe.closeHandle_of_open _ (lawful_host close a)
      (pipe_host (congrArg Conn.pipe hending.same :) close a) ht (hsame.life.2.trans hclosing) hopen

/-- **A pipe with an open handle is destroyed**: it is left waiting for its handle, which goes from
the pipe to the closed ones. -/
theorem destroy_settles (hc : Closer close) (h : x.conn.Sound) (hheld : x.conn.held = true)
    {p : TcpPipe} (hp : x.conn.pipe = some p) (hattached : p.Attached)
    (hdone : x.conn.pipeDone = false) :
    Settles x (TcpPipe.destroy (host close a) x) ∧
      (TcpPipe.destroy (host close a) x).conn.Exact ∧
      (TcpPipe.destroy (host close a) x).conn.pipe.isSome := by
  obtain ⟨⟨c, proxy⟩, t, ⟨hsame, hlive, hstream⟩, ht, hbond, heq⟩ :=
    exists_destroy_eq (a := a) hc h hheld hp hattached hdone
  have hq := (TcpPipe.turned_stopReading { p with destroyed := true }).sameBond
  generalize TcpPipe.stopReading { p with destroyed := true } = q at hsame ht heq hq
  obtain ⟨hudp, hpending, -⟩ := h.pipe p hp
  rw [heq]
  simp only at hsame hlive hstream
  simp only [modify]
  rw [hsame]
  -- All that changes is the pipe, the log, and the handle that is closed.
  set c' : Conn := { x.conn with
    pipe := some (q.detach t)
    calls := c.calls
    live := c.live
    stream := c.stream
    streamClosed := c.streamClosed
    uvClosed := x.conn.uvClosed ++ [t.id] }
  have hsound : c'.Sound := by
    refine ⟨h.connecting, hlive, hstream, fun hdial ↦ ?_, fun hnone ↦ ?_, fun u hu ↦ ?_,
      fun r hr ↦ ?_⟩
    · exact absurd (hpending.symm.trans hdial) (by decide)
    · exact absurd hnone (Option.some_ne_none _)
    · exact absurd ((h.tcp_of_pipe hp).symm.trans hu) (Option.some_ne_none u).symm
    · obtain rfl := Option.some.inj hr
      exact ⟨hudp, hpending, Or.inl ⟨Or.inr ⟨hq.life.1, rfl,
        hq.onDestroy.trans hattached.2.2.1, t.id, rfl⟩, hdone⟩⟩
  refine ⟨⟨hsound, fun handle ↦ ?_⟩, hsound.exact_of_pipe hheld rfl hdone, rfl⟩
  have hdetached : (q.detach t).bond = some (t.id, true) := rfl
  rw [tally_of_pipe hheld (h.tcp_of_pipe hp) hp, hbond,
    tally_of_pipe (c := c') hheld (h.tcp_of_pipe hp) rfl, hdetached]
  simp only [c', List.count_nil, List.count_append]
  omega

end Destroy

/-! ## Callbacks of a pipe -/

/-- An exact connection that has a pipe, with the handles `n`. -/
structure Bridged (n : ℕ → ℕ) (x : Ctx) : Prop where
  sound : x.conn.Sound
  exact : x.conn.Exact
  pipe : x.conn.pipe.isSome
  tally : ∀ handle, x.conn.tally handle = n handle

section Bridged

variable {close : Ctx → Ctx} {a : Answers} {x : Ctx}

/-- A write through the side only touches what is withheld, what is awaiting an ack, and the log. -/
theorem exists_write_eq (close : Ctx → Ctx) (a : Answers) (data : Bytes) (onDrain : Option Drain)
    (x : Ctx) :
    ∃ pending drains calls, ((makeSide close a).write data onDrain x).2
      = (x.modify fun c ↦ { c with pending := pending, drains := drains, calls := calls }) ∧
      (onDrain = none → drains = x.conn.drains) := by
  simp only [makeSide]
  split_ifs
  · exact ⟨_, _, _, rfl, fun _ ↦ rfl⟩
  · exact ⟨_, _, _, rfl, fun _ ↦ rfl⟩
  · exact ⟨_, _, _, rfl, fun _ ↦ rfl⟩
  · cases onDrain with
    | none => exact ⟨_, _, _, rfl, fun _ ↦ rfl⟩
    | some drain =>
      by_cases hrc : a.write < 0
      · simp only [streamWrite, hrc, if_true]
        exact ⟨_, _, _, rfl, fun hnone ↦ absurd hnone (Option.some_ne_none drain)⟩
      · simp only [streamWrite, hrc, if_false]
        exact ⟨_, _, _, rfl, fun hnone ↦ absurd hnone (Option.some_ne_none drain)⟩

theorem write_settles (close : Ctx → Ctx) (a : Answers) (h : x.conn.Sound)
    (hexact : x.conn.Exact) (data : Bytes) (onDrain : Option Drain)
    (honDrain : x.conn.pipe = none → onDrain = none) :
    Settles x ((makeSide close a).write data onDrain x).2 ∧
      ((makeSide close a).write data onDrain x).2.conn.Exact ∧
      ((makeSide close a).write data onDrain x).2.conn.pipe = x.conn.pipe := by
  obtain ⟨pending, drains, calls, heq, hdrains⟩ :=
    exists_write_eq close a data onDrain x
  rw [heq]
  refine ⟨settles_log h _ _ _ fun hp ↦ ?_, exact_log hexact _ _ _, rfl⟩
  rw [hdrains (honDrain hp)]
  exact (h.noPipe hp).2

theorem streamCall_settles (h : x.conn.Sound) (hexact : x.conn.Exact) (call : StreamCall) :
    Settles x (x.streamCall call) ∧ (x.streamCall call).conn.Exact :=
  ⟨settles_log h _ _ _ fun hp ↦ (h.noPipe hp).2, exact_log hexact _ _ _⟩

theorem close_settles (hc : Closer close) (h : x.conn.Sound) (hexact : x.conn.Exact) :
    Settles x ((makeSide close a).close x) ∧ ((makeSide close a).close x).conn.Exact := by
  simp only [makeSide]
  split_ifs with hopen
  · exact hc.settles h hexact hopen.2.1
  · exact ⟨settles_refl h, hexact⟩

/-- **Every move of a pipe's callback** leaves an exact connection with the same handles. -/
theorem keeps_bridged (hc : Closer close) (n : ℕ → ℕ) : (host close a).Keeps (Bridged n) where
  modify := by
    intro x f hbond hx
    obtain ⟨p, hp⟩ := Option.isSome_iff_exists.mp hx.pipe
    have hpipe := pipe_host hp close a
    rw [hpipe] at hbond
    rw [TcpPipe.Host.modify, hpipe]
    have hset := settles_setPipe hx.sound hp hbond
    exact ⟨hset.sound, exact_setPipe hx.exact hp, rfl, fun handle ↦
      (hset.tally handle).trans (hx.tally handle)⟩
  write := by
    intro x data onDrain hx
    obtain ⟨hsettles, hexact, hpipe⟩ :=
      write_settles close a hx.sound hx.exact data onDrain fun hnone ↦ by
        have hsome := hx.pipe
        rw [hnone] at hsome
        exact absurd hsome (by decide)
    refine ⟨hsettles.sound, hexact, ?_, fun handle ↦
      (hsettles.tally handle).trans (hx.tally handle)⟩
    exact hpipe.symm ▸ hx.pipe
  pause := by
    intro x hx
    simp only [host, makeSide]
    split_ifs
    · obtain ⟨hsettles, hexact⟩ := streamCall_settles hx.sound hx.exact .pause
      exact ⟨hsettles.sound, hexact, hx.pipe, fun handle ↦
        (hsettles.tally handle).trans (hx.tally handle)⟩
    · exact hx
  resume := by
    intro x hx
    simp only [host, makeSide]
    split_ifs
    · obtain ⟨hsettles, hexact⟩ := streamCall_settles hx.sound hx.exact .resume
      exact ⟨hsettles.sound, hexact, hx.pipe, fun handle ↦
        (hsettles.tally handle).trans (hx.tally handle)⟩
    · exact hx
  close := by
    intro x hx
    obtain ⟨hsettles, hexact⟩ := close_settles (a := a) hc hx.sound hx.exact
    refine ⟨hsettles.sound, hexact, ?_, fun handle ↦
      (hsettles.tally handle).trans (hx.tally handle)⟩
    simp only [host, makeSide]
    split_ifs with hopen
    · exact hc.pipe hx.sound hx.exact hopen.2.1 hx.pipe
    · exact hx.pipe
  destroy := by
    intro x hx
    obtain ⟨p, hp⟩ := Option.isSome_iff_exists.mp hx.pipe
    have hpipe := pipe_host hp close a
    -- Only a pipe at an open handle is not destroyed yet.
    rcases (hx.sound.pipe p hp).2.2 with ⟨hattached | hdetaching, hdone⟩ | ⟨hdetached, -⟩
    · have hheld : x.conn.held = true := by
        rw [hx.exact.held, pinned, hp, hdone]
        exact Bool.or_true _
      obtain ⟨hsettles, hexact, hsome⟩ :=
        destroy_settles (a := a) hc hx.sound hheld hp hattached hdone
      exact ⟨hsettles.sound, hexact, hsome, fun handle ↦
        (hsettles.tally handle).trans (hx.tally handle)⟩
    · rw [TcpPipe.destroy_of_destroyed _ (by rw [hpipe, hdetaching.1])]
      exact hx
    · rw [TcpPipe.destroy_of_destroyed _ (by rw [hpipe, hdetached.1])]
      exact hx

end Bridged

/-! ## Teardown -/

section Teardown

variable {close : Ctx → Ctx} {a : Answers} {x : Ctx}

theorem conn_dropClient (x : Ctx) : x.dropClient.conn = x.conn := by
  unfold dropClient
  split_ifs <;> rfl

/-- The accepted socket goes from the connection to the closed handles. -/
theorem closeAccepted_settles (h : x.conn.Sound) (hheld : x.conn.held = true) :
    Settles x x.closeAccepted ∧ x.closeAccepted.conn.held = true ∧
      x.closeAccepted.conn.tcp = none := by
  unfold closeAccepted
  split
  · next hnone => exact ⟨settles_refl h, hheld, hnone⟩
  · next t ht =>
    obtain ⟨hopen, -, hpipe⟩ := h.tcp t ht
    rw [hopen]
    refine ⟨⟨⟨h.connecting, h.live, h.stream, h.dialling, h.noPipe, fun u hu ↦ ?_, h.pipe⟩,
      fun handle ↦ ?_⟩, hheld, rfl⟩
    · exact absurd hu.symm (Option.some_ne_none u)
    · simp only [tally, holding, owning, modify, hheld, ht, hpipe, Bool.false_eq_true, if_false,
        if_true, Option.toList_none, Option.toList_some, List.map_nil, List.map_cons,
        List.count_nil, List.count_append]
      omega

/-- **`shutdown_conn` leaves an exact connection**, wherever it is called. -/
theorem shutdownConn_settles (hc : Closer close) (h : x.conn.Sound) (hheld : x.conn.held = true) :
    Settles x (shutdownConn close a x) ∧ (shutdownConn close a x).conn.Exact := by
  obtain ⟨haccepted, hheld', htcp⟩ := closeAccepted_settles h hheld
  have hconn := conn_dropClient x.closeAccepted
  have hdropped : Settles x x.closeAccepted.dropClient :=
    ⟨hconn.symm ▸ haccepted.sound, fun handle ↦ hconn.symm ▸ haccepted.tally handle⟩
  rw [← hconn] at hheld' htcp
  rw [shutdownConn]
  set y := x.closeAccepted.dropClient with hy
  unfold endPipe
  -- The pipe is ended, or else the stream; with neither, the entry of the table is all there is.
  split_ifs with hpipe hstream
  · obtain ⟨p, hp⟩ := Option.isSome_iff_exists.mp hpipe.1
    have hgetD := pipe_host hp close a
    rcases (hdropped.sound.pipe p hp).2.2 with ⟨hattached | hdetaching, hdone⟩ | ⟨-, hdone⟩
    · obtain ⟨hsettles, hexact, -⟩ :=
        destroy_settles (a := a) hc hdropped.sound hheld' hp hattached hdone
      rw [reap_of_exact hsettles.sound hexact]
      exact ⟨hdropped.trans hsettles, hexact⟩
    -- The pipe waits for its handle already, and the connection for the pipe.
    · rw [TcpPipe.destroy_of_destroyed _ (by rw [hgetD, hdetaching.1])]
      have hexact := hdropped.sound.exact_of_pipe hheld' hpipe.1 hdone
      rw [reap_of_exact hdropped.sound hexact]
      exact ⟨hdropped, hexact⟩
    · rw [hpipe.2] at hdone
      exact absurd hdone (by decide)
  · have hexact : y.conn.Exact := by
      refine ⟨hheld'.trans ?_, fun hsome ↦ absurd htcp hsome⟩
      simp [pinned, hstream.1]
    obtain ⟨hsettles, hexact'⟩ := hc.settles hdropped.sound hexact hstream.1
    rw [reap_of_exact hsettles.sound hexact']
    exact ⟨hdropped.trans hsettles, hexact'⟩
  · obtain ⟨hsettles, hexact⟩ := reap_settles hdropped.sound hheld' fun hsome ↦ absurd htcp hsome
    exact ⟨hdropped.trans hsettles, hexact⟩

theorem shutdownConn_of_not_held (close : Ctx → Ctx) (a : Answers) (hexact : x.conn.Exact)
    (hheld : x.conn.held = false) : (shutdownConn close a x).conn = x.conn := by
  have hpinned := hexact.held.symm.trans hheld
  rw [pinned, Bool.or_eq_false_iff, Bool.or_eq_false_iff, Bool.and_eq_false_iff,
    Bool.not_eq_false'] at hpinned
  obtain ⟨⟨hpending, hstream⟩, hpipe⟩ := hpinned
  have htcp : x.conn.tcp = none := by
    by_contra hsome
    rcases hexact.tcp hsome with h' | h'
    · exact absurd (hpending.symm.trans h') (by decide)
    · exact absurd (hstream.symm.trans h') (by decide)
  have haccepted : x.closeAccepted = x := by
    unfold closeAccepted
    rw [htcp]
  have hdrop := conn_dropClient x
  have hpipe' : ¬(x.conn.pipe.isSome ∧ x.conn.pipeDone = false) := by
    rintro ⟨hsome, hdone⟩
    rcases hpipe with hnone | hdone'
    · rw [hnone] at hsome
      exact absurd hsome (by decide)
    · rw [hdone] at hdone'
      exact absurd hdone' (by decide)
  have hend : endPipe close a x.dropClient = x.dropClient := by
    rw [endPipe, hdrop, if_neg hpipe', if_neg (by rw [hstream]; simp)]
  rw [shutdownConn, haccepted, hend, reap, hdrop, if_pos hheld, hdrop]

theorem shutdownConn_settles_of_exact (hc : Closer close) (h : x.conn.Sound)
    (hexact : x.conn.Exact) :
    Settles x (shutdownConn close a x) ∧ (shutdownConn close a x).conn.Exact := by
  cases hheld : x.conn.held with
  | true => exact shutdownConn_settles hc h hheld
  | false =>
    have hsame := shutdownConn_of_not_held close a hexact hheld
    exact ⟨⟨hsame.symm ▸ h, fun handle ↦ by rw [hsame]⟩, hsame.symm ▸ hexact⟩

theorem pipe_reap (x : Ctx) : x.reap.conn.pipe = x.conn.pipe := by
  unfold reap
  split_ifs <;> rfl

theorem endStream_settles (h : x.conn.Sound) (hpending : x.conn.connectPending = false) :
    Settles x x.endStream := by
  refine ⟨⟨h.connecting, rfl, fun hfalse ↦ ?_, fun hdial ↦ ?_, h.noPipe, h.tcp, h.pipe⟩,
    fun _ ↦ rfl⟩
  · exact absurd (show (false : Bool) = true from hfalse) (by decide)
  · exact absurd (hpending.symm.trans hdial) (by decide)

theorem streamCloseCb_of_not_held (hheld : x.conn.held = false) :
    x.streamCloseCb = x.modify fun c ↦ { c with live := false } := by
  rw [streamCloseCb]
  exact if_pos hheld

theorem streamCloseCb_eq (hheld : x.conn.held = true) :
    x.streamCloseCb = if x.conn.udp then x.endStream.dropClient.reap
      else if x.conn.pipe.isSome then
        (TcpPipe.onStreamClose (host closeLater {}) x.endStream).reap
      else if x.conn.tcp.isSome then shutdownConn closeLater {} x.endStream
      else x.endStream.reap := by
  have hlocks : ¬(x.modify fun c ↦ { c with live := false }).conn.held = false := by
    simp [modify, hheld]
  simp only [streamCloseCb, if_neg hlocks]
  rfl

theorem streamCloseCb_settles (h : x.conn.Sound) (hexact : x.conn.Exact)
    (hstream : x.conn.stream = true) :
    Settles x x.streamCloseCb ∧ x.streamCloseCb.conn.Exact ∧
      (x.conn.pipe.isSome → x.streamCloseCb.conn.pipe.isSome) := by
  have hheld := hexact.held_of_stream hstream
  have hend := endStream_settles h (h.connectPending_of_stream hstream)
  have hreap : ∀ y : Ctx, y.conn = x.endStream.conn → x.conn.tcp = none →
      Settles x y.reap ∧ y.reap.conn.Exact ∧ (x.conn.pipe.isSome → y.reap.conn.pipe.isSome) := by
    intro y hy htcp
    have hy' : Settles x y := ⟨hy ▸ hend.sound, fun handle ↦ hy ▸ hend.tally handle⟩
    obtain ⟨hsettles, hexact'⟩ := reap_settles hy'.sound (by rw [hy]; exact hheld)
      fun hsome ↦ absurd (by rw [hy]; exact htcp) hsome
    refine ⟨hy'.trans hsettles, hexact', fun hsome ↦ ?_⟩
    rw [pipe_reap, hy]
    exact hsome
  rw [streamCloseCb_eq hheld]
  split_ifs with hudp hpipe htcp
  · refine hreap _ (conn_dropClient _) ?_
    · by_contra hsome
      obtain ⟨t, ht⟩ := Option.ne_none_iff_exists'.mp hsome
      rw [(h.tcp t ht).2.1] at hudp
      exact absurd hudp (by decide)
  · obtain ⟨p, hp⟩ := Option.isSome_iff_exists.mp hpipe
    rcases (h.pipe p hp).2.2 with ⟨-, hdone⟩ | ⟨hdetached, -⟩
    · have hbridged : Bridged x.conn.tally x.endStream :=
        ⟨hend.sound, hend.sound.exact_of_pipe hheld hpipe hdone, hpipe, hend.tally⟩
      have hclosed :=
        (keeps_bridged (a := {}) closer_closeLater x.conn.tally).onStreamClose hbridged
      rw [reap_of_exact hclosed.sound hclosed.exact]
      exact ⟨⟨hclosed.sound, hclosed.tally⟩, hclosed.exact, fun _ ↦ hclosed.pipe⟩
    · -- A pipe that is done does not care.
      have hgetD := pipe_host (x := x.endStream) hp closeLater {}
      rw [TcpPipe.onStreamClose_of_destroyed _ (by rw [hgetD, hdetached.1])]
      exact hreap _ rfl (h.tcp_of_pipe hp)
  · obtain ⟨hsettles, hexact'⟩ := shutdownConn_settles (a := {}) closer_closeLater hend.sound hheld
    exact ⟨hend.trans hsettles, hexact', fun hsome ↦ absurd hsome hpipe⟩
  · exact hreap _ rfl (Option.not_isSome_iff_eq_none.mp htcp)

/-- A stream that closes behind a destroyed pipe is none of the pipe's concern. -/
theorem streamCloseCb_of_destroyed {p : TcpPipe} (hheld : x.conn.held = true)
    (hudp : x.conn.udp = false) (hp : x.conn.pipe = some p) (hdestroyed : p.destroyed = true) :
    x.streamCloseCb = x.endStream.reap := by
  have hgetD := pipe_host (x := x.endStream) hp closeLater {}
  rw [streamCloseCb_eq hheld, hudp, hp,
    TcpPipe.onStreamClose_of_destroyed _ (by rw [hgetD, hdestroyed])]
  simp only [Bool.false_eq_true, if_false, Option.isSome_some, if_true]

theorem streamCloseCb_of_ending {p : TcpPipe} (hheld : x.conn.held = true)
    (hpending : x.conn.connectPending = false) (hudp : x.conn.udp = false)
    (hp : x.conn.pipe = some p) (hdestroyed : p.destroyed = true)
    (hdone : x.conn.pipeDone = false) : x.streamCloseCb = x.endStream := by
  rw [streamCloseCb_of_destroyed hheld hudp hp hdestroyed]
  unfold reap
  simp [endStream, modify, hheld, hpending, hp, hdone]

/-- **`hyperdht_stream_close`**, whenever it fires `on_close`. -/
theorem closer_streamClose (a : Answers) : Closer (streamClose a) := by
  cases hsync : a.sync with
  | false =>
    have hlater : streamClose a = closeLater := by
      funext x
      rw [streamClose, hsync]
      rfl
    rw [hlater]
    exact closer_closeLater
  | true =>
    have hnow : ∀ x, streamClose a x = x.closeLater.streamCloseCb := by
      intro x
      rw [streamClose, hsync]
      rfl
    constructor
    · intro x p hheld hpending hudp hp hdestroyed hdone
      rw [hnow]
      exact Or.inr (streamCloseCb_of_ending (x := x.closeLater) hheld hpending hudp hp hdestroyed
        hdone)
    · intro x h hexact hstream
      obtain ⟨hlater, hexact'⟩ := streamCall_settles h hexact .close
      obtain ⟨hsettles, hexact'', -⟩ := streamCloseCb_settles hlater.sound hexact' hstream
      rw [hnow]
      exact ⟨hlater.trans hsettles, hexact''⟩
    · intro x h hexact hstream hsome
      obtain ⟨hlater, hexact'⟩ := streamCall_settles h hexact .close
      obtain ⟨-, -, hpipe⟩ := streamCloseCb_settles hlater.sound hexact' hstream
      rw [hnow]
      exact hpipe hsome

end Teardown

/-! ## Dialling -/

section Dial

variable {a : Answers} {x : Ctx}

theorem sound_undialled {tcp : Option UvTcp} {udp : Bool} {clientId : Bytes}
    (htcp : ∀ t, tcp = some t → t.closing = false ∧ udp = false) :
    ({ tcp := tcp, udp := udp, clientId := clientId, connectPending := false } : Conn).Sound := by
  refine ⟨rfl, rfl, fun _ ↦ rfl, fun hdial ↦ ?_, fun _ ↦ ⟨rfl, rfl⟩, fun t ht ↦ ?_, fun p hp ↦ ?_⟩
  · exact absurd (show (false : Bool) = true from hdial) (by decide)
  · exact ⟨(htcp t ht).1, (htcp t ht).2, rfl⟩
  · exact absurd hp.symm (Option.some_ne_none p)

/-- **A connection is made**, of a socket or of a source of datagrams. It is exact whether or not
the dial could be started, and accounts for its socket. -/
theorem beginDhtConnect_settles {tcp : Option UvTcp} {udp : Bool} {clientId : Bytes}
    (hx : x.conn = { tcp := tcp, udp := udp, clientId := clientId })
    (htcp : ∀ t, tcp = some t → t.closing = false ∧ udp = false) :
    (beginDhtConnect a x).2.conn.Sound ∧ (beginDhtConnect a x).2.conn.Exact ∧
      ∀ handle, (beginDhtConnect a x).2.conn.tally handle
        = (tcp.toList.map UvTcp.id).count handle := by
  obtain ⟨c, proxy⟩ := x
  obtain rfl : c = { tcp := tcp, udp := udp, clientId := clientId } := hx
  have htally : ∀ handle, ({ tcp := tcp, udp := udp, clientId := clientId } : Conn).tally handle
      = (tcp.toList.map UvTcp.id).count handle := by
    intro handle
    simp only [tally, holding, owning, if_true, Option.bind_none, List.count_nil, Nat.add_zero]
  have hsocket : ∀ t, tcp = some t →
      t.closing = false ∧ udp = false ∧ (none : Option TcpPipe) = none :=
    fun t ht ↦ ⟨(htcp t ht).1, (htcp t ht).2, rfl⟩
  unfold beginDhtConnect
  split_ifs
  · obtain ⟨hsettles, hexact⟩ := shutdownConn_settles (a := a) (closer_streamClose a)
      (x := ⟨_, proxy⟩) (sound_undialled htcp) rfl
    exact ⟨hsettles.sound, hexact, fun handle ↦ (hsettles.tally handle).trans (htally handle)⟩
  · refine ⟨⟨rfl, rfl, fun _ ↦ rfl, fun _ ↦ ⟨rfl, rfl⟩, fun _ ↦ ⟨rfl, rfl⟩, hsocket, fun p hp ↦ ?_⟩,
      ⟨rfl, fun _ ↦ Or.inl rfl⟩, htally⟩
    exact absurd hp.symm (Option.some_ne_none p)

def fired (x : Ctx) : Ctx :=
  x.modify fun c ↦ { c with connecting := false, connectPending := false }

/-- Until the connect callback the connection is in the table, without a stream or a pipe. -/
theorem fired_settles (h : x.conn.Sound) (hexact : x.conn.Exact)
    (hconnecting : x.conn.connecting = true) :
    Settles x x.fired ∧ x.conn.held = true ∧ x.conn.pipe = none ∧ x.conn.streamClosed = false := by
  have hpending : x.conn.connectPending = true := h.connecting.symm.trans hconnecting
  have hheld : x.conn.held = true := by
    rw [hexact.held, pinned, hpending]
    rfl
  have hpipe : x.conn.pipe = none := by
    by_contra hsome
    obtain ⟨p, hp⟩ := Option.ne_none_iff_exists'.mp hsome
    have hnot := (h.pipe p hp).2.1
    rw [hpending] at hnot
    exact absurd hnot (by decide)
  refine ⟨⟨⟨rfl, h.live, h.stream, fun hdial ↦ ?_, h.noPipe, h.tcp, fun p hp ↦ ?_⟩, fun _ ↦ rfl⟩,
    hheld, hpipe, (h.dialling hpending).2⟩
  · exact absurd (show (false : Bool) = true from hdial) (by decide)
  · exact absurd (hp.symm.trans hpipe) (Option.some_ne_none p)

theorem connectCb_eq (hheld : x.conn.held = true) (destroyed : Bool) (error : ℤ) (found : Bool) :
    connectCb destroyed error found a x =
      if destroyed = true ∨ error ≠ 0 ∨ found = false then shutdownConn (streamClose a) a x.fired
      else if a.opened then x.fired.modify fun c ↦ { c with stream := true, live := true }
      else shutdownConn (streamClose a) a x.fired := by
  have hlocks : ¬(x.modify fun c ↦ { c with connecting := false }).conn.held = false := by
    simp [modify, hheld]
  simp only [connectCb, if_neg hlocks]
  rfl

/-- **The connect callback**, however it turns out. -/
theorem connectCb_settles (h : x.conn.Sound) (hexact : x.conn.Exact)
    (hconnecting : x.conn.connecting = true) (destroyed : Bool) (error : ℤ) (found : Bool) :
    Settles x (connectCb destroyed error found a x) ∧
      (connectCb destroyed error found a x).conn.Exact := by
  obtain ⟨hfired, hheld, hpipe, hclosed⟩ := fired_settles h hexact hconnecting
  obtain ⟨hshut, hshutExact⟩ := shutdownConn_settles (a := a) (closer_streamClose a) hfired.sound
    (show x.fired.conn.held = true from hheld)
  rw [connectCb_eq hheld]
  split_ifs
  · exact ⟨hfired.trans hshut, hshutExact⟩
  · refine ⟨⟨⟨rfl, rfl, fun _ ↦ hclosed, fun hdial ↦ ?_, h.noPipe, h.tcp, fun p hp ↦ ?_⟩,
      fun _ ↦ rfl⟩, ⟨hheld, fun _ ↦ Or.inr rfl⟩⟩
    · exact absurd (show (false : Bool) = true from hdial) (by decide)
    · exact absurd (hp.symm.trans hpipe) (Option.some_ne_none p)
  · exact ⟨hfired.trans hshut, hshutExact⟩

/-- The pipe that a socket is handed to. -/
def bridgedPipe (a : Answers) (t : UvTcp) : TcpPipe :=
  TcpPipe.startReading { onDestroy := true, tcp := some t } a.uv

theorem bridge_eq {t : UvTcp} (ht : x.conn.tcp = some t) :
    x.bridge a = x.modify fun c ↦ { c with tcp := none, pipe := some (bridgedPipe a t) } := by
  unfold bridge
  rw [ht]
  rfl

theorem bridge_settles (h : x.conn.Sound) (hexact : x.conn.Exact)
    (hstream : x.conn.stream = true) :
    Settles x (x.bridge a) ∧ (x.bridge a).conn.Exact := by
  cases ht : x.conn.tcp with
  | none =>
    have hnot : x.bridge a = x := by
      unfold bridge
      rw [ht]
    rw [hnot]
    exact ⟨settles_refl h, hexact⟩
  | some t =>
    obtain ⟨hopen, hudp, hpipe⟩ := h.tcp t ht
    have hheld := hexact.held_of_stream hstream
    -- The accepted handle moves from the connection to the pipe, whether or not it can be read.
    have hbond := (TcpPipe.turned_startReading
      { onDestroy := true, tcp := some t } a.uv).sameBond
    have hattached : (bridgedPipe a t).Attached :=
      hbond.attached ⟨rfl, rfl, rfl, t.id, by rw [TcpPipe.bond, Option.map_some, hopen]⟩
    have howned : (bridgedPipe a t).bond = some (t.id, false) := by
      rw [bridgedPipe, hbond.bond, TcpPipe.bond, Option.map_some, hopen]
    rw [bridge_eq ht]
    refine ⟨⟨⟨h.connecting, h.live, h.stream, h.dialling, fun hnone ↦ ?_, fun u hu ↦ ?_,
      fun p hp ↦ ?_⟩, fun handle ↦ ?_⟩, ⟨hheld.trans ?_, fun hsome ↦ absurd rfl hsome⟩⟩
    · exact absurd hnone (Option.some_ne_none _)
    · exact absurd hu.symm (Option.some_ne_none u)
    · obtain rfl := Option.some.inj hp
      exact ⟨hudp, h.connectPending_of_stream hstream,
        Or.inl ⟨Or.inl hattached, (h.noPipe hpipe).1⟩⟩
    · rw [tally_of_pipe
        (c := (x.modify fun c ↦ { c with tcp := none, pipe := some (bridgedPipe a t) }).conn)
        hheld rfl rfl, howned]
      simp only [tally, holding, owning, modify, hheld, ht, hpipe, if_true, Option.toList_some,
        List.map_cons, List.map_nil, Option.bind_none, List.count_nil, Nat.add_zero]
    · simp [modify, pinned, hstream]

/-- The flush takes what was buffered, and only writes. -/
theorem exists_flush_eq (a : Answers) (x : Ctx) :
    ∃ pending calls, (flush a (x.modify fun c ↦ { c with streamOpen := true })).2
        = x.modify (fun c ↦ { c with streamOpen := true, pending := pending, calls := calls }) ∧
      (StreamCall.close ∈ calls ↔ StreamCall.close ∈ x.conn.calls) := by
  unfold flush
  split_ifs
  · exact ⟨_, _, rfl, Iff.rfl⟩
  · refine ⟨_, _, rfl, ?_⟩
    simp only [modify, List.mem_append, List.mem_singleton, reduceCtorEq, or_false]

/-- **The stream opens**: what was buffered is written, and a socket gets its pipe. -/
theorem streamOpenCb_settles (h : x.conn.Sound) (hexact : x.conn.Exact) :
    Settles x (x.streamOpenCb a) ∧ (x.streamOpenCb a).conn.Exact := by
  unfold streamOpenCb
  split_ifs with hguard
  · exact ⟨settles_refl h, hexact⟩
  · rw [not_or, not_or, Bool.not_eq_false, Bool.not_eq_false] at hguard
    obtain ⟨hheld, hstream, -⟩ := hguard
    obtain ⟨pending, calls, hflush, -⟩ := exists_flush_eq a x
    set y := x.modify fun c ↦ { c with streamOpen := true, pending := pending, calls := calls }
    have hopened : Settles x y :=
      ⟨⟨h.connecting, h.live, h.stream, h.dialling, h.noPipe, h.tcp, h.pipe⟩, fun _ ↦ rfl⟩
    have hopenedExact : y.conn.Exact := ⟨hexact.held, hexact.tcp⟩
    simp only [onStreamOpen, hflush]
    split_ifs
    · obtain ⟨hshut, hshutExact⟩ := shutdownConn_settles (a := a) (closer_streamClose a)
        hopened.sound (show y.conn.held = true from hheld)
      exact ⟨hopened.trans hshut, hshutExact⟩
    · exact ⟨hopened, hopenedExact⟩
    · obtain ⟨hbridge, hbridgeExact⟩ := bridge_settles (a := a) hopened.sound hopenedExact
        (show y.conn.stream = true from hstream)
      exact ⟨hopened.trans hbridge, hbridgeExact⟩

end Dial

/-! ## One event -/

section Step

variable {x : Ctx}

theorem bridged_of_pipe (h : x.conn.Sound) (hexact : x.conn.Exact) (hpipe : x.conn.pipe.isSome) :
    Bridged x.conn.tally x := ⟨h, hexact, hpipe, fun _ ↦ rfl⟩

theorem Bridged.settles {y : Ctx} (h : Bridged x.conn.tally y) :
    Settles x y ∧ y.conn.Exact := ⟨⟨h.sound, h.tally⟩, h.exact⟩

/-- The pipe is done. -/
def finish (p : TcpPipe) (x : Ctx) : Ctx :=
  x.modify fun c ↦ { c with
    pipe := some { p with tcp := none, onDestroy := false }
    pipeDone := true }

/-- When its handle has closed, a pipe is done, and what it was for may be reaped. -/
theorem closedCb_eq {p : TcpPipe} (hheld : x.conn.held = true) (hp : x.conn.pipe = some p)
    (honDestroy : p.onDestroy = true) :
    TcpPipe.closedCb (host closeLater {}) x = (x.finish p).reap := by
  have hgetD := pipe_host hp closeLater {}
  rw [TcpPipe.closedCb, TcpPipe.fireOnDestroy, TcpPipe.Host.modify, hgetD]
  have hfire : ((host closeLater {}).pipe ((host closeLater {}).setPipe
      { p with tcp := none } x)).onDestroy = true := honDestroy
  rw [if_pos hfire]
  have hlocks : ¬x.conn.held = false := by rw [hheld]; decide
  simp only [host, modify, TcpPipe.Host.modify, Option.getD_some, if_neg hlocks, finish]

theorem detaching_of_handle (h : x.conn.Sound) {t : UvTcp} (ht : t ∈ TcpPipe.handle x.conn.pipe)
    (hclosing : t.closing = true) :
    ∃ p, x.conn.pipe = some p ∧ p.bond = some (t.id, true) ∧ p.Detaching ∧
      x.conn.pipeDone = false := by
  obtain ⟨p, hp, hpt⟩ := Option.bind_eq_some_iff.mp ht
  have hbond : p.bond = some (t.id, true) := by
    rw [TcpPipe.bond, hpt, Option.map_some, hclosing]
  refine ⟨p, hp, hbond, ?_⟩
  rcases (h.pipe p hp).2.2 with ⟨⟨-, -, -, id, hopen⟩ | hdetaching, hdone⟩ | ⟨⟨-, -, -, hnone⟩, -⟩
  · rw [hbond] at hopen
    exact absurd (congrArg Prod.snd (Option.some.inj hopen)) (by simp)
  · exact ⟨hdetaching, hdone⟩
  · rw [hpt] at hnone
    exact absurd hnone (Option.some_ne_none t)

theorem closedCb_settles (h : x.conn.Sound) (hexact : x.conn.Exact) {t : UvTcp}
    (ht : t ∈ TcpPipe.handle x.conn.pipe) (hclosing : t.closing = true) :
    Settles x (TcpPipe.closedCb (host closeLater {}) x) ∧
      (TcpPipe.closedCb (host closeLater {}) x).conn.Exact := by
  obtain ⟨p, hp, hbond, ⟨hdestroyed, hpclosing, honDestroy, -⟩, hdone⟩ :=
    detaching_of_handle h ht hclosing
  obtain ⟨hudp, hpending, -⟩ := h.pipe p hp
  have hheld : x.conn.held = true := by
    rw [hexact.held, pinned, hp, hdone]
    exact Bool.or_true _
  have hdone' : Settles x (x.finish p) := by
    refine ⟨⟨h.connecting, h.live, h.stream, h.dialling, fun hnone ↦ ?_, fun u hu ↦ ?_,
      fun q hq ↦ ?_⟩, fun handle ↦ ?_⟩
    · exact absurd hnone (Option.some_ne_none _)
    · exact absurd ((h.tcp_of_pipe hp).symm.trans hu) (Option.some_ne_none u).symm
    · obtain rfl := Option.some.inj hq
      exact ⟨hudp, hpending, Or.inr ⟨⟨hdestroyed, hpclosing, rfl, rfl⟩, rfl⟩⟩
    · rw [tally_of_pipe hheld (h.tcp_of_pipe hp) hp, hbond,
        tally_of_pipe (c := (x.finish p).conn) hheld (h.tcp_of_pipe hp) rfl]
      rfl
  rw [closedCb_eq hheld hp honDestroy]
  obtain ⟨hsettles, hexact'⟩ := reap_settles hdone'.sound
    (show (x.finish p).conn.held = true from hheld) fun hsome ↦ absurd (h.tcp_of_pipe hp) hsome
  exact ⟨hdone'.trans hsettles, hexact'⟩

/-- **A connection that was reaped gets no callbacks.** -/
theorem not_enabled_of_not_held (h : x.conn.Sound) (hexact : x.conn.Exact)
    (hheld : x.conn.held = false) (e : Event) : ¬x.conn.Enabled e := by
  have hpinned := hexact.held.symm.trans hheld
  rw [pinned, Bool.or_eq_false_iff, Bool.or_eq_false_iff, Bool.and_eq_false_iff,
    Bool.not_eq_false'] at hpinned
  obtain ⟨⟨-, hstream⟩, hpipe⟩ := hpinned
  have hlive : x.conn.live ≠ true := by
    rw [h.live, hstream]
    decide
  have hnoHandle : ∀ t, t ∉ TcpPipe.handle x.conn.pipe := by
    intro t ht
    obtain ⟨p, hp, hpt⟩ := Option.bind_eq_some_iff.mp ht
    rcases (h.pipe p hp).2.2 with ⟨-, hdone⟩ | ⟨⟨-, -, -, hnone⟩, -⟩
    · rw [hp, hdone] at hpipe
      simp at hpipe
    · exact Option.some_ne_none t (hpt.symm.trans hnone)
  cases e with
  | streamOpen a => exact fun henabled ↦ hlive henabled.1
  | streamData data a => exact fun henabled ↦ hlive henabled.1
  | streamClose => exact fun henabled ↦ hlive henabled
  | drained drain a => exact fun henabled ↦ hlive henabled.1
  | read nread a => exact fun ⟨t, ht, _⟩ ↦ hnoHandle t ht
  | written status a => exact fun ⟨t, ht, _⟩ ↦ hnoHandle t ht
  | closed => exact fun ⟨t, ht, _⟩ ↦ hnoHandle t ht

/-- **Every event of a connection** leads from an exact connection to an exact connection, with the
same handles. -/
theorem step_settles (h : x.conn.Sound) (hexact : x.conn.Exact) {e : Event}
    (henabled : x.conn.Enabled e) : Settles x (step x e) ∧ (step x e).conn.Exact := by
  have hnoHandle : ∀ t ∈ TcpPipe.handle x.conn.pipe, x.conn.pipe.isSome := by
    intro t ht
    obtain ⟨p, hp, -⟩ := Option.bind_eq_some_iff.mp ht
    rw [hp]
    rfl
  cases e with
  | streamOpen a => exact streamOpenCb_settles h hexact
  | streamData data a =>
    rw [step, streamDataCb]
    split_ifs with hguard hpipe
    · exact ⟨settles_refl h, hexact⟩
    · exact ((keeps_bridged (closer_streamClose a) _).onStreamData a.uv data
        (bridged_of_pipe h hexact hpipe)).settles
    · exact ⟨settles_refl h, hexact⟩
  | streamClose =>
    obtain ⟨hsettles, hexact', -⟩ := streamCloseCb_settles h hexact (h.live.symm.trans henabled)
    exact ⟨hsettles, hexact'⟩
  | drained drain a =>
    -- Only a pipe passes an `on_drain`, so there is one to be told of the ack.
    have hpipe : x.conn.pipe.isSome := by
      by_contra hnone
      have hmem := henabled.2
      rw [(h.noPipe (Option.not_isSome_iff_eq_none.mp hnone)).2] at hmem
      exact absurd hmem List.not_mem_nil
    have hfreed : Bridged x.conn.tally
        (x.modify fun c ↦ { c with drains := c.drains.erase drain }) := by
      have hlog := settles_log h x.conn.pending x.conn.calls
        (x.conn.drains.erase drain) fun hnone ↦ by
          rw [hnone] at hpipe
          exact absurd hpipe (by decide)
      exact ⟨hlog.sound, exact_log hexact _ _ _, hpipe, hlog.tally⟩
    simp only [step, drainCb]
    split_ifs
    · exact hfreed.settles
    · exact ((keeps_bridged (closer_streamClose a) _).onDrain a.uv drain.len hfreed).settles
  | read nread a =>
    obtain ⟨t, ht, -⟩ := henabled
    have hbridged := bridged_of_pipe h hexact (hnoHandle t ht)
    have hkeeps := keeps_bridged (a := a) (closer_streamClose a) x.conn.tally
    exact (hkeeps.readCb nread
      (hkeeps.modify _ (TcpPipe.turned_markEnded _ nread).sameBond hbridged)).settles
  | written status a =>
    obtain ⟨t, ht, -⟩ := henabled
    exact ((keeps_bridged (closer_streamClose a) _).writeCb status
      (bridged_of_pipe h hexact (hnoHandle t ht))).settles
  | closed =>
    obtain ⟨t, ht, hclosing, -⟩ := henabled
    exact closedCb_settles h hexact ht hclosing

end Step

end Ctx

end Conn

end HolesailClient

end Holesail
