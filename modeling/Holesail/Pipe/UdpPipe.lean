import Holesail.Codec.Frame
import Holesail.Pipe.StreamSide

/-!
# The UDP pipe

`UdpPipe`: the server's side of a UDP tunnel, one local UDP socket bridged to one encrypted stream.
Datagrams cross the stream as frames; there is no flow control either way.

Like a TCP pipe, it acts on its world through its host only: what every function of the host keeps,
in the sense of a preorder on worlds, every callback of the pipe keeps.
-/

namespace Holesail

/-- What a UDP receive callback is called with. -/
inductive Recv where
  /-- `nread == 0` and no address: nothing more this pass. -/
  | endOfPass
  | error
  /-- Some bytes and no address. -/
  | noAddr
  /-- `UV_UDP_PARTIAL`. -/
  | truncated (data : Bytes)
  | datagram (data : Bytes)
deriving DecidableEq

structure UdpPipe where
  sock : Option UvUdp := none
  decoder : FrameDecoder := {}
  onDestroy : Bool := false
  destroyed : Bool := false
deriving DecidableEq

namespace UdpPipe

/-- The world of a pipe. -/
structure Host (W : Type) where
  pipe : W → UdpPipe
  setPipe : UdpPipe → W → W
  /-- `stream_`. -/
  stream : StreamSide W
  /-- Issue `uv_close` on the socket. -/
  uvClose : W → W
  /-- `send_datagram` to the local service. -/
  send : Bytes → W → W
  /-- `on_destroy_`. -/
  onDestroy : W → W

variable {W : Type} (h : Host W)

def Host.modify (f : UdpPipe → UdpPipe) (w : W) : W := h.setPipe (f (h.pipe w)) w

def fireOnDestroy (w : W) : W :=
  if (h.pipe w).onDestroy then
    h.onDestroy (h.modify (fun p ↦ { p with onDestroy := false }) w)
  else w

def destroy (w : W) : W :=
  if (h.pipe w).destroyed then w
  else
    let w := h.modify (fun p ↦
      { p with destroyed := true, sock := p.sock.map fun s ↦ { s with receiving := false } }) w
    let w := h.stream.close w
    match (h.pipe w).sock with
    | some s =>
      if s.closing then fireOnDestroy h w
      -- The close callback runs `on_destroy_`.
      else h.uvClose (h.modify (fun p ↦ { p with sock := some { s with closing := true } }) w)
    | none => fireOnDestroy h w

def start (uv : Uv) (w : W) : ℤ × W :=
  if (h.pipe w).destroyed then (uvECANCELED, w)
  else if uv.resolve ≠ 0 then (uv.resolve, w)
  else if uv.udpInit ≠ 0 then (uv.udpInit, w)
  else
    let w := h.modify (fun p ↦ { p with sock := some {} }) w
    let rc := if uv.udpBind ≠ 0 then uv.udpBind else uv.recvStart
    if rc ≠ 0 then (rc, destroy h w)
    else (0, h.modify (fun p ↦ { p with sock := some { receiving := true } }) w)

def recvCb (r : Recv) (w : W) : W :=
  if (h.pipe w).destroyed then w
  else match r with
    | .endOfPass => w
    | .error => destroy h w
    | .noAddr => w
    | .truncated _ => w
    | .datagram data =>
      let (rc, w) := h.stream.write (frame data) none w
      if rc < 0 then destroy h w else w

def onStreamData (data : Bytes) (w : W) : W :=
  if (h.pipe w).destroyed ∨ (h.pipe w).sock = none ∨ data = [] then w
  else
    let pushed := (h.pipe w).decoder.push data
    let w := h.modify (fun p ↦ { p with decoder := pushed.decoder }) w
    let w := pushed.frames.foldl (fun w d ↦ h.send d w) w
    if pushed.ok then w else destroy h w

def onStreamClose (w : W) : W := if (h.pipe w).destroyed then w else destroy h w

/-- The close callback of the socket. -/
def closedCb (w : W) : W := fireOnDestroy h (h.modify (fun p ↦ { p with sock := none }) w)

/-! ## What a pipe can do to its world -/

/-- The pipe goes on, or comes nearer to its end, and decodes nothing meanwhile. -/
structure Fades (p p' : UdpPipe) : Prop where
  decoder : p'.decoder = p.decoder
  destroyed : p'.destroyed = false → p.destroyed = false
  sock : p'.sock ≠ none → p.sock ≠ none

theorem Fades.refl (p : UdpPipe) : p.Fades p := ⟨rfl, id, id⟩

theorem Fades.trans {p p' p'' : UdpPipe} (h : p.Fades p') (h' : p'.Fades p'') : p.Fades p'' :=
  ⟨h'.decoder.trans h.decoder, h.destroyed ∘ h'.destroyed, h.sock ∘ h'.sock⟩

/-- Every function of the host moves the world along `R`, as long as the pipe fades. What is sent
to the local service is not asked about: only `on_stream_data` sends, and it decodes as well. -/
structure Host.Within (h : Host W) (R : W → W → Prop) : Prop where
  refl : ∀ w, R w w
  trans : ∀ {w w' w''}, R w w' → R w' w'' → R w w''
  setPipe : ∀ {p w}, (h.pipe w).Fades p → R w (h.setPipe p w)
  close : ∀ w, R w (h.stream.close w)
  uvClose : ∀ w, R w (h.uvClose w)
  onDestroy : ∀ w, R w (h.onDestroy w)

namespace Host.Within

variable {h} {R : W → W → Prop} (hR : h.Within R)

include hR

theorem modify {f : UdpPipe → UdpPipe} {w : W} (hf : (h.pipe w).Fades (f (h.pipe w))) :
    R w (h.modify f w) := hR.setPipe hf

theorem fireOnDestroy (w : W) : R w (UdpPipe.fireOnDestroy h w) := by
  unfold UdpPipe.fireOnDestroy
  split_ifs
  · exact hR.trans (hR.modify ⟨rfl, id, id⟩) (hR.onDestroy _)
  · exact hR.refl w

theorem destroy (w : W) : R w (UdpPipe.destroy h w) := by
  unfold UdpPipe.destroy
  split_ifs
  · exact hR.refl w
  · have hstopped : R w (h.modify (fun p ↦ { p with
        destroyed := true
        sock := p.sock.map fun s ↦ { s with receiving := false } }) w) :=
      hR.modify ⟨rfl, fun hlive ↦ Bool.noConfusion hlive,
        fun hsock hnone ↦ hsock (Option.map_eq_none_iff.mpr hnone)⟩
    refine hR.trans hstopped (hR.trans (hR.close _) ?_)
    dsimp only
    split
    · next s hs =>
      split_ifs
      · exact hR.fireOnDestroy _
      · refine hR.trans (hR.modify ⟨rfl, id, fun _ hnone ↦ ?_⟩) (hR.uvClose _)
        exact absurd (hs.symm.trans hnone) (Option.some_ne_none s)
    · exact hR.fireOnDestroy _

theorem onStreamClose (w : W) : R w (UdpPipe.onStreamClose h w) := by
  unfold UdpPipe.onStreamClose
  split_ifs
  · exact hR.refl w
  · exact hR.destroy w

theorem closedCb (w : W) : R w (UdpPipe.closedCb h w) :=
  hR.trans (hR.modify ⟨rfl, id, fun hsock ↦ absurd rfl hsock⟩) (hR.fireOnDestroy _)

/-- A datagram from the local service, if `R` allows the write. -/
theorem recvCb (hwrite : ∀ data w, R w (h.stream.write data none w).2) (r : Recv) (w : W) :
    R w (UdpPipe.recvCb h r w) := by
  unfold UdpPipe.recvCb
  split_ifs
  · exact hR.refl w
  cases r with
  | endOfPass => exact hR.refl w
  | error => exact hR.destroy w
  | noAddr => exact hR.refl w
  | truncated data => exact hR.refl w
  | datagram data =>
    dsimp only
    split_ifs
    · exact hR.trans (hwrite _ w) (hR.destroy _)
    · exact hwrite _ w

end Host.Within

end UdpPipe

end Holesail
