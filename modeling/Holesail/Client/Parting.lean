import Holesail.Client.Callbacks

/-!
# What a connection of the client does to the UDP proxy

A source of datagrams has its entry in the proxy exactly as long as its connection serves it: from
the moment it is dialled until its stream is asked to close, or closes. This file shows, callback by
callback, that a connection either leaves the proxy's table alone and goes on as it was, or drops
the entry of its own `clientId` and stops serving; and that the connection of a socket never touches
the table.
-/

namespace Holesail

namespace HolesailClient

namespace Conn

/-- In the table, and not asked to close. -/
def Serving (c : Conn) : Prop := c.held = true ∧ StreamCall.close ∉ c.calls

/-- Its stream, if it has one, was asked to close. -/
def Quiet (c : Conn) : Prop := c.stream = true → StreamCall.close ∈ c.calls

/-- In the table, for the datagrams of `key`. -/
structure Carries (c : Conn) (key : Bytes) : Prop where
  held : c.held = true
  udp : c.udp = true
  clientId : c.clientId = key

instance (c : Conn) (key : Bytes) : Decidable (c.Carries key) :=
  decidable_of_iff (c.held = true ∧ c.udp = true ∧ c.clientId = key)
    ⟨fun ⟨hheld, hudp, hid⟩ ↦ ⟨hheld, hudp, hid⟩, fun ⟨hheld, hudp, hid⟩ ↦ ⟨hheld, hudp, hid⟩⟩

theorem Sound.bare {c : Conn} (h : c.Sound) (hudp : c.udp = true) :
    c.tcp = none ∧ c.pipe = none := by
  constructor
  · by_contra hsome
    obtain ⟨t, ht⟩ := Option.ne_none_iff_exists'.mp hsome
    exact absurd (hudp.symm.trans (h.tcp t ht).2.1) (by decide)
  · by_contra hsome
    obtain ⟨p, hp⟩ := Option.ne_none_iff_exists'.mp hsome
    exact absurd (hudp.symm.trans (h.pipe p hp).1) (by decide)

namespace Ctx

/-! ## What no callback touches -/

/-- What a connection is for stays the same, it does not come back into the table, and it touches
no entry of the proxy but that of the datagrams it carries. -/
structure Frame (x y : Ctx) : Prop where
  udp : y.conn.udp = x.conn.udp
  clientId : y.conn.clientId = x.conn.clientId
  held : y.conn.held = true → x.conn.held = true
  clients : y.proxy.clients = x.proxy.clients ∨ x.conn.udp = true ∧
    y.proxy.clients = Function.update x.proxy.clients x.conn.clientId none

theorem frame_refl (x : Ctx) : Frame x x := ⟨rfl, rfl, id, Or.inl rfl⟩

theorem Frame.trans {x y z : Ctx} (h : Frame x y) (h' : Frame y z) : Frame x z := by
  refine ⟨h'.udp.trans h.udp, h'.clientId.trans h.clientId, fun hz ↦ h.held (h'.held hz), ?_⟩
  rcases h.clients with hxy | ⟨hudp, hxy⟩
  · rcases h'.clients with hyz | ⟨hudp, hyz⟩
    · exact Or.inl (hyz.trans hxy)
    · exact Or.inr ⟨h.udp.symm.trans hudp, by rw [hyz, hxy, h.clientId]⟩
  · rcases h'.clients with hyz | ⟨-, hyz⟩
    · exact Or.inr ⟨hudp, hyz.trans hxy⟩
    · exact Or.inr ⟨hudp, by rw [hyz, hxy, h.clientId, Function.update_idem]⟩

theorem Frame.carries {x y : Ctx} (h : Frame x y) {key : Bytes} (hy : y.conn.Carries key) :
    x.conn.Carries key :=
  ⟨h.held hy.held, h.udp.symm.trans hy.udp, h.clientId.symm.trans hy.clientId⟩

/-- **No callback of a connection leaves its frame.** -/
theorem allows_frame : AllowsAll Frame where
  refl := frame_refl
  trans := Frame.trans
  own := fun _ _ _ _ _ _ hheld _ ↦ ⟨rfl, rfl, hheld, Or.inl rfl⟩
  dropClient := by
    intro x
    unfold dropClient
    split_ifs with hudp
    · exact ⟨rfl, rfl, id, Or.inr ⟨hudp, rfl⟩⟩
    · exact frame_refl x
  pause := fun _ ↦ ⟨rfl, rfl, id, Or.inl rfl⟩
  resume := fun _ ↦ ⟨rfl, rfl, id, Or.inl rfl⟩
  closeLater := fun _ ↦ ⟨rfl, rfl, id, Or.inl rfl⟩
  life := fun _ _ _ _ _ _ _ ↦ ⟨rfl, rfl, id, Or.inl rfl⟩
  log := fun _ _ _ _ _ ↦ ⟨rfl, rfl, id, Or.inl rfl⟩

/-! ## Serving a source of datagrams -/

/-- The connection goes on as it was. Once the client is destroyed, no stream is opened any more. -/
structure Stays (destroyed : Bool) (x y : Ctx) : Prop where
  clients : y.proxy.clients = x.proxy.clients
  serving : y.conn.Serving ↔ x.conn.Serving
  quiet : destroyed = true → x.conn.Quiet → y.conn.Quiet

/-- The connection drops its entry, and stops serving. -/
structure Parts (x y : Ctx) : Prop where
  held : x.conn.held = true
  clients : y.proxy.clients = Function.update x.proxy.clients x.conn.clientId none
  serving : ¬y.conn.Serving

theorem not_serving_of_close {c : Conn} (h : StreamCall.close ∈ c.calls) : ¬c.Serving :=
  fun hserving ↦ hserving.2 h

theorem not_serving_of_not_held {c : Conn} (h : c.held = false) : ¬c.Serving := by
  rintro ⟨hheld, -⟩
  exact absurd (h.symm.trans hheld) (by decide)

section Serving

variable {a : Answers} {x : Ctx}

theorem write_stays (destroyed : Bool) (close : Ctx → Ctx) (data : Bytes) :
    Stays destroyed x ((makeSide close a).write data none x).2 := by
  simp only [makeSide]
  split_ifs
  · exact ⟨rfl, Iff.rfl, fun _ ↦ id⟩
  · exact ⟨rfl, Iff.rfl, fun _ ↦ id⟩
  · exact ⟨rfl, Iff.rfl, fun _ ↦ id⟩
  · refine ⟨rfl, ?_, fun _ hquiet hstream ↦ List.mem_append_left _ (hquiet hstream)⟩
    simp only [Serving, streamWrite, modify, List.mem_append, List.mem_singleton, reduceCtorEq,
      or_false]

theorem stream_of_write_neg {close : Ctx → Ctx} {data : Bytes} (h : x.conn.Sound)
    (hheld : x.conn.held = true) (hexact : x.conn.Exact) (hudp : x.conn.udp = true)
    (hrc : ((makeSide close a).write data none x).1 < 0) : x.conn.stream = true := by
  by_contra hstream
  rw [Bool.not_eq_true] at hstream
  have hpending : x.conn.connectPending = true := by
    have hpinned := hexact.held.symm.trans hheld
    rw [pinned, hstream, (h.bare hudp).2] at hpinned
    simpa using hpinned
  simp only [makeSide] at hrc
  rw [if_neg (by simp [hheld, (h.dialling hpending).2]), if_pos (Or.inl hstream)] at hrc
  split_ifs at hrc
  · exact absurd (show (1 : ℤ) < 0 from hrc) (by decide)
  · exact absurd (show (1 : ℤ) < 0 from hrc) (by decide)

theorem streamCloseCb_eq_of_udp (hheld : x.conn.held = true) (hudp : x.conn.udp = true) :
    x.streamCloseCb = x.endStream.dropClient.reap := by
  rw [streamCloseCb_eq hheld, if_pos hudp]

theorem clients_dropClient (hudp : x.conn.udp = true) :
    x.dropClient.proxy.clients = Function.update x.proxy.clients x.conn.clientId none := by
  rw [dropClient, if_pos hudp]
  rfl

/-- **The stream of a source of datagrams closes.** -/
theorem streamCloseCb_parts (h : x.conn.Sound) (hheld : x.conn.held = true)
    (hudp : x.conn.udp = true) (hpending : x.conn.connectPending = false) :
    Parts x x.streamCloseCb := by
  rw [streamCloseCb_eq_of_udp hheld hudp]
  have hdrop := clients_dropClient (x := x.endStream) hudp
  have hgone : x.endStream.dropClient.reap.conn.held = false := by
    have hpipe := (h.bare hudp).2
    rw [reap, conn_dropClient]
    simp [endStream, modify, hheld, hpending, hpipe]
  obtain ⟨held, heq, -⟩ := exists_reap_eq x.endStream.dropClient
  exact ⟨hheld, by rw [heq]; exact hdrop, not_serving_of_not_held hgone⟩

theorem close_mem_streamClose (hheld : x.conn.held = true) (hudp : x.conn.udp = true) :
    StreamCall.close ∈ (streamClose a x).conn.calls := by
  have hasked : StreamCall.close ∈ x.closeLater.conn.calls :=
    List.mem_append_right _ (List.mem_singleton_self _)
  unfold streamClose
  split_ifs
  · rw [streamCloseCb_eq_of_udp (x := x.closeLater) hheld hudp]
    obtain ⟨held, heq, -⟩ := exists_reap_eq x.closeLater.endStream.dropClient
    rw [heq]
    change _ ∈ x.closeLater.endStream.dropClient.conn.calls
    rw [conn_dropClient]
    exact hasked
  · exact hasked

/-- **The entry is erased, and then the stream is asked to close**, whenever that closes it. -/
theorem erase_close_parts {y : Ctx} (hframe : Frame x y) (hheld : x.conn.held = true)
    (hudp : x.conn.udp = true) (hyheld : y.conn.held = true)
    (hclients : y.proxy.clients = Function.update x.proxy.clients x.conn.clientId none) :
    Parts x (streamClose a y) := by
  refine ⟨hheld, ?_, not_serving_of_close (close_mem_streamClose hyheld (hframe.udp.trans hudp))⟩
  rcases (allows_frame.streamClose a y).clients with hsame | ⟨-, hsame⟩
  · exact hsame.trans hclients
  · rw [hsame, hclients, hframe.clientId, Function.update_idem]

theorem erase_makeSide_close_parts {y : Ctx} (hframe : Frame x y) (hy : y.conn.Sound)
    (hexact : y.conn.Exact) (hstream : y.conn.stream = true) (hudp : x.conn.udp = true)
    (hclients : y.proxy.clients = Function.update x.proxy.clients x.conn.clientId none) :
    Parts x ((makeSide (streamClose a) a).close y) := by
  have hheld := hexact.held_of_stream hstream
  have hopen : y.conn.held = true ∧ y.conn.stream = true ∧ y.conn.streamClosed = false :=
    ⟨hheld, hstream, hy.stream hstream⟩
  simp only [makeSide]
  rw [if_pos hopen]
  exact erase_close_parts hframe (hframe.held hheld) hudp hheld hclients

/-- **`shutdown_conn` drops the entry**, and leaves the connection asked to close or gone. -/
theorem shutdownConn_parts (h : x.conn.Sound) (hheld : x.conn.held = true)
    (hudp : x.conn.udp = true) (hpending : x.conn.connectPending = false) :
    Parts x (shutdownConn (streamClose a) a x) := by
  obtain ⟨htcp, hpipe⟩ := h.bare hudp
  have haccepted : x.closeAccepted = x := by rw [closeAccepted, htcp]
  have hdrop := clients_dropClient hudp
  have hconn := conn_dropClient x
  have hframe := allows_frame.dropClient x
  rw [shutdownConn, haccepted, endPipe, hconn, hpipe]
  rw [if_neg (by simp)]
  split_ifs with hstream
  · obtain ⟨-, hclients, hserving⟩ := erase_close_parts (a := a) hframe hheld hudp
      (by rw [hconn, hheld]) hdrop
    obtain ⟨held, heq, himp⟩ := exists_reap_eq (streamClose a x.dropClient)
    rw [heq]
    refine ⟨hheld, hclients, fun hserving' ↦ hserving ⟨himp hserving'.1, hserving'.2⟩⟩
  · have hgone : x.dropClient.reap.conn.held = false := by
      rw [reap, hconn, if_neg (by rw [hheld]; decide), if_neg (by rw [hpending]; decide),
        if_neg hstream, if_neg (by rw [hpipe]; simp)]
      rfl
    obtain ⟨held, heq, -⟩ := exists_reap_eq x.dropClient
    exact ⟨hheld, by rw [heq]; exact hdrop, not_serving_of_not_held hgone⟩

/-- A connection that does not serve has no stream that was not asked to close. -/
theorem quiet_of_not_serving {c : Conn} (hexact : c.Exact) (h : ¬c.Serving) : c.Quiet := by
  intro hstream
  by_contra hclose
  exact h ⟨hexact.held_of_stream hstream, hclose⟩

/-- **`shutdown_conn` leaves no stream that was not asked to close**, wherever it is called. -/
theorem shutdownConn_quiet (h : x.conn.Sound) (hexact : x.conn.Exact) (hudp : x.conn.udp = true) :
    (shutdownConn (streamClose a) a x).conn.Quiet := by
  obtain ⟨-, hexact'⟩ := shutdownConn_settles_of_exact (a := a) (closer_streamClose a) h hexact
  cases hstream : x.conn.stream with
  | true =>
    exact quiet_of_not_serving hexact' (shutdownConn_parts h (hexact.held_of_stream hstream) hudp
      (h.connectPending_of_stream hstream)).serving
  | false =>
    obtain ⟨htcp, hpipe⟩ := h.bare hudp
    have haccepted : x.closeAccepted = x := by rw [closeAccepted, htcp]
    have hend : shutdownConn (streamClose a) a x = x.dropClient.reap := by
      rw [shutdownConn, haccepted, endPipe, conn_dropClient, hpipe, if_neg (by simp), hstream,
        if_neg (by simp)]
    obtain ⟨held, heq, -⟩ := exists_reap_eq x.dropClient
    intro hopen
    rw [hend, heq] at hopen
    change x.dropClient.conn.stream = true at hopen
    rw [conn_dropClient, hstream] at hopen
    exact absurd hopen (by decide)

/-- A source of datagrams whose dial cannot be started is not served. -/
theorem beginDhtConnect_parts {clientId : Bytes}
    (hx : x.conn = { udp := true, clientId := clientId }) (hconnect : a.connect < 0) :
    Parts x (beginDhtConnect a x).2 := by
  obtain ⟨c, proxy⟩ := x
  obtain rfl : c = { udp := true, clientId := clientId } := hx
  rw [beginDhtConnect, if_pos hconnect]
  obtain ⟨-, hclients, hserving⟩ := shutdownConn_parts (a := a)
    (x := ⟨{ udp := true, clientId := clientId, connectPending := false }, proxy⟩)
    (sound_undialled fun t ht ↦ absurd ht.symm (Option.some_ne_none t)) rfl rfl rfl
  exact ⟨rfl, hclients, hserving⟩

/-- **The connect callback** of a source of datagrams. -/
theorem connectCb_moves (h : x.conn.Sound) (hexact : x.conn.Exact) (hudp : x.conn.udp = true)
    (hconnecting : x.conn.connecting = true) (destroyed : Bool) (error : ℤ) (found : Bool) :
    Stays destroyed x (connectCb destroyed error found a x) ∨
      Parts x (connectCb destroyed error found a x) := by
  obtain ⟨hfired, hheld, -, -⟩ := fired_settles h hexact hconnecting
  have hparts : Parts x (shutdownConn (streamClose a) a x.fired) := by
    obtain ⟨-, hclients, hserving⟩ :=
      shutdownConn_parts (a := a) (x := x.fired) hfired.sound hheld hudp rfl
    exact ⟨hheld, hclients, hserving⟩
  rw [connectCb_eq hheld]
  split_ifs with hfailed
  · exact Or.inr hparts
  · refine Or.inl ⟨rfl, Iff.rfl, fun hdestroyed ↦ ?_⟩
    exact absurd (Or.inl hdestroyed) hfailed
  · exact Or.inr hparts

/-- **The stream of a source of datagrams opens**: what was buffered is written, or cannot be. -/
theorem streamOpenCb_moves (h : x.conn.Sound) (hudp : x.conn.udp = true) (destroyed : Bool) :
    Stays destroyed x (x.streamOpenCb a) ∨ Parts x (x.streamOpenCb a) := by
  unfold streamOpenCb
  split_ifs with hguard
  · exact Or.inl ⟨rfl, Iff.rfl, fun _ ↦ id⟩
  · rw [not_or, not_or, Bool.not_eq_false, Bool.not_eq_false] at hguard
    obtain ⟨hheld, hstream, -⟩ := hguard
    obtain ⟨pending, calls, hflush, hcalls⟩ := exists_flush_eq a x
    set y := x.modify fun c ↦ { c with streamOpen := true, pending := pending, calls := calls }
    have hsound : y.conn.Sound :=
      ⟨h.connecting, h.live, h.stream, h.dialling, h.noPipe, h.tcp, h.pipe⟩
    have hserving : y.conn.Serving ↔ x.conn.Serving := and_congr_right fun _ ↦ not_congr hcalls
    simp only [onStreamOpen, hflush]
    rw [if_pos (show y.conn.udp = true from hudp)]
    split_ifs
    · obtain ⟨-, hclients, hnot⟩ := shutdownConn_parts (a := a) hsound hheld hudp
        (h.connectPending_of_stream hstream)
      exact Or.inr ⟨hheld, hclients, hnot⟩
    · exact Or.inl ⟨rfl, hserving, fun _ hquiet hopen ↦ hcalls.mpr (hquiet hopen)⟩

/-- **Every event of a source of datagrams** leaves it serving with its entry, or parts the two. -/
theorem step_moves (h : x.conn.Sound) (hexact : x.conn.Exact) (hudp : x.conn.udp = true)
    (destroyed : Bool) {e : Event} (henabled : x.conn.Enabled e) :
    Stays destroyed x (step x e) ∨ Parts x (step x e) := by
  obtain ⟨-, hpipe⟩ := h.bare hudp
  -- A source of datagrams has no pipe, so most events are not for it.
  obtain ⟨hlive, ⟨a, rfl⟩ | ⟨data, a, rfl⟩ | rfl⟩ := h.event_of_noPipe hpipe henabled
  · exact streamOpenCb_moves h hudp destroyed
  · left
    rw [step, streamDataCb, hpipe]
    split_ifs with hguard hsome
    · exact ⟨rfl, Iff.rfl, fun _ ↦ id⟩
    · exact absurd hsome (by decide)
    · exact ⟨rfl, Iff.rfl, fun _ ↦ id⟩
  · have hstream : x.conn.stream = true := h.live.symm.trans hlive
    exact Or.inr (streamCloseCb_parts h (hexact.held_of_stream hstream) hudp
      (h.connectPending_of_stream hstream))

end Serving

end Ctx

end Conn

end HolesailClient

end Holesail
