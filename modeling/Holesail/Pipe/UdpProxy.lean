import Mathlib.Logic.Function.Basic
import Holesail.Codec.Record
import Holesail.Pipe.UdpPipe

/-!
# The UDP proxy

`UdpProxy`: the client's side of a UDP tunnel, one bound socket with one encrypted stream for each
source address. A stream is found by the text of its address, in both directions.

A `StreamSide` is known here by the number of the connection it was made for; a `UdpProxy.Host` says
what the proxy and those sides are in a world `W`.
-/

namespace Holesail

open Decimal

structure SockAddr where
  ip : UInt8 × UInt8 × UInt8 × UInt8
  port : UInt16
deriving DecidableEq

def clientKey (addr : SockAddr) : Bytes :=
  let (a, b, c, d) := addr.ip
  toDecimal a.toNat ++ ascii "." ++ toDecimal b.toNat ++ ascii "." ++ toDecimal c.toNat
    ++ ascii "." ++ toDecimal d.toNat ++ ascii ":" ++ toDecimal addr.port.toNat

theorem toDecimal_injective : Function.Injective toDecimal := by
  intro m n h
  rw [← digitsValue_toDecimal m, h, digitsValue_toDecimal]

theorem toDecimal_append_cons_inj {m n : ℕ} {s t : Bytes} {d : UInt8} (hd : ¬isDigit d = true)
    (h : toDecimal m ++ d :: s = toDecimal n ++ d :: t) : m = n ∧ s = t := by
  have hdigits : ∀ n, ∀ b ∈ toDecimal n, isDigit b = true := fun n b hb ↦
    isDigit_eq_true_iff.mpr (isDigit_of_mem_toDecimal hb)
  have htake : ∀ n t, (toDecimal n ++ d :: t).takeWhile isDigit = toDecimal n := by
    intro n t
    rw [List.takeWhile_append_of_pos (hdigits n), List.takeWhile_cons_of_neg hd, List.append_nil]
  have hdec : toDecimal m = toDecimal n := by rw [← htake m s, h, htake]
  rw [hdec] at h
  exact ⟨toDecimal_injective hdec, (List.cons.inj (List.append_cancel_left h)).2⟩

/-- **No two addresses share a text.** -/
theorem clientKey_injective : Function.Injective clientKey := by
  rintro ⟨⟨a, b, c, d⟩, port⟩ ⟨⟨a', b', c', d'⟩, port'⟩ h
  have hdot : ¬isDigit 46 = true := by decide
  have hcolon : ¬isDigit 58 = true := by decide
  simp only [clientKey, List.append_assoc] at h
  obtain ⟨ha, h⟩ := toDecimal_append_cons_inj hdot h
  obtain ⟨hb, h⟩ := toDecimal_append_cons_inj hdot h
  obtain ⟨hc, h⟩ := toDecimal_append_cons_inj hdot h
  obtain ⟨hd, h⟩ := toDecimal_append_cons_inj hcolon h
  rw [UInt8.toNat_inj.mp ha, UInt8.toNat_inj.mp hb, UInt8.toNat_inj.mp hc, UInt8.toNat_inj.mp hd,
    UInt16.toNat_inj.mp (toDecimal_injective h)]

namespace UdpProxy

structure Client where
  /-- The connection its `StreamSide` was made for. -/
  stream : ℕ
  addr : SockAddr
  decoder : FrameDecoder := {}
  /-- The streams whose bytes were pushed into the decoder. -/
  sources : List ℕ := []
deriving DecidableEq

end UdpProxy

structure UdpProxy where
  sock : Option UvUdp := none
  clients : Bytes → Option UdpProxy.Client := fun _ ↦ none
  /-- The datagrams sent to the local side. -/
  sent : List (SockAddr × Bytes) := []

namespace UdpProxy

/-! ## Functions of the proxy alone -/

section Pure

variable (p : UdpProxy)

/-- `clients_[id] = client`. -/
def emplace (id : Bytes) (client : Client) : UdpProxy :=
  { p with clients := Function.update p.clients id (some client) }

/-- `clients_.erase(id)`. -/
def erase (id : Bytes) : UdpProxy := { p with clients := Function.update p.clients id none }

def onStreamClose (clientId : Bytes) : UdpProxy := p.erase clientId

/-- `close`. The streams belong to the caller that opened them. -/
def close : UdpProxy := { p with clients := fun _ ↦ none, sock := none }

end Pure

structure Host (W : Type) where
  proxy : W → UdpProxy
  setProxy : UdpProxy → W → W
  /-- `open_stream_`: no side if there is no stream to be had. -/
  openStream : Bytes → W → Option ℕ × W
  /-- The `StreamSide` of a connection. -/
  stream : ℕ → StreamSide W

variable {W : Type} (h : Host W)

def Host.modify (f : UdpProxy → UdpProxy) (w : W) : W := h.setProxy (f (h.proxy w)) w

/-- The client for `addr`, opening a stream for it if there is none yet. -/
def clientFor (addr : SockAddr) (w : W) : Option Client × W :=
  match (h.proxy w).clients (clientKey addr) with
  | some client => (some client, w)
  | none =>
    match h.openStream (clientKey addr) w with
    | (none, w) => (none, w)
    | (some stream, w) =>
      let client : Client := { stream := stream, addr := addr }
      (some client, h.modify (fun p ↦ p.emplace (clientKey addr) client) w)

section ClientFor

variable {h} {addr : SockAddr} {w w' : W}

theorem clientFor_of_some {client : Client}
    (hclient : (h.proxy w).clients (clientKey addr) = some client) :
    clientFor h addr w = (some client, w) := by
  rw [clientFor, hclient]

theorem clientFor_of_none (hclient : (h.proxy w).clients (clientKey addr) = none)
    (hopen : h.openStream (clientKey addr) w = (none, w')) : clientFor h addr w = (none, w') := by
  rw [clientFor, hclient, hopen]

theorem clientFor_of_opened (hclient : (h.proxy w).clients (clientKey addr) = none) {stream : ℕ}
    (hopen : h.openStream (clientKey addr) w = (some stream, w')) :
    clientFor h addr w = (some { stream := stream, addr := addr },
      h.modify (fun p ↦ p.emplace (clientKey addr) { stream := stream, addr := addr }) w') := by
  rw [clientFor, hclient, hopen]

end ClientFor

def recvCb (addr : SockAddr) (r : Recv) (w : W) : W :=
  match r with
  | .endOfPass | .error | .noAddr | .truncated _ => w
  | .datagram data =>
    match clientFor h addr w with
    | (none, w) => w
    | (some client, w) =>
      let (rc, w) := (h.stream client.stream).write (frame data) none w
      if rc < 0 then
        -- Erased first: `close` may re-enter.
        (h.stream client.stream).close (h.modify (fun p ↦ p.erase (clientKey addr)) w)
      else w

section RecvCb

variable {h} {addr : SockAddr} {data : Bytes} {w w' : W}

theorem recvCb_of_none (hfound : clientFor h addr w = (none, w')) :
    recvCb h addr (.datagram data) w = w' := by
  rw [recvCb, hfound]

theorem recvCb_of_some {client : Client} (hfound : clientFor h addr w = (some client, w')) :
    recvCb h addr (.datagram data) w =
      if ((h.stream client.stream).write (frame data) none w').1 < 0 then
        (h.stream client.stream).close (h.modify (fun p ↦ p.erase (clientKey addr))
          ((h.stream client.stream).write (frame data) none w').2)
      else ((h.stream client.stream).write (frame data) none w').2 := by
  rw [recvCb, hfound]

end RecvCb

/-- `on_stream_data`, for bytes that came over the stream of the connection `source`. -/
def onStreamData (clientId : Bytes) (source : ℕ) (data : Bytes) (w : W) : W :=
  if (h.proxy w).sock = none ∨ data = [] then w
  else
    match (h.proxy w).clients clientId with
    | none => w
    | some client =>
      let pushed := client.decoder.push data
      let w := h.modify (fun p ↦
        { p.emplace clientId
            { client with decoder := pushed.decoder, sources := client.sources ++ [source] } with
          sent := p.sent ++ pushed.frames.map fun d ↦ (client.addr, d) }) w
      if pushed.ok then w
      else (h.stream client.stream).close (h.modify (fun p ↦ p.erase clientId) w)

/-! ## What a callback is made of -/

/-- Every move of a callback keeps `P`. -/
structure Host.Keeps (h : Host W) (P : W → Prop) : Prop where
  setProxy : ∀ {w} (p : UdpProxy), P w → P (h.setProxy p w)
  openStream : ∀ {w} (id : Bytes), P w → P (h.openStream id w).2
  write : ∀ {w} (i : ℕ) (data : Bytes), P w → P ((h.stream i).write data none w).2
  close : ∀ {w} (i : ℕ), P w → P ((h.stream i).close w)

namespace Host.Keeps

variable {h} {P : W → Prop} (hP : h.Keeps P) {w : W}

include hP

theorem clientFor (addr : SockAddr) (hw : P w) : P (UdpProxy.clientFor h addr w).2 := by
  unfold UdpProxy.clientFor
  split
  · exact hw
  · have hopened := hP.openStream (clientKey addr) hw
    split
    · next heq =>
      rw [heq] at hopened
      exact hopened
    · next heq =>
      rw [heq] at hopened
      exact hP.setProxy _ hopened

theorem recvCb (addr : SockAddr) (r : Recv) (hw : P w) : P (UdpProxy.recvCb h addr r w) := by
  cases r with
  | datagram data =>
    have hclient := hP.clientFor addr hw
    rw [UdpProxy.recvCb]
    split
    · next heq =>
      rw [heq] at hclient
      exact hclient
    · next client w' heq =>
      rw [heq] at hclient
      have hwritten := hP.write client.stream (frame data) hclient
      simp only
      split_ifs
      · exact hP.close _ (hP.setProxy _ hwritten)
      · exact hwritten
  | _ => exact hw

theorem onStreamData (clientId : Bytes) (source : ℕ) (data : Bytes) (hw : P w) :
    P (UdpProxy.onStreamData h clientId source data w) := by
  unfold UdpProxy.onStreamData
  split_ifs
  · exact hw
  · split
    · exact hw
    · simp only
      split_ifs
      · exact hP.setProxy _ hw
      · exact hP.close _ (hP.setProxy _ (hP.setProxy _ hw))

end Host.Keeps

end UdpProxy

end Holesail
