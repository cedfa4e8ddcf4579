import Holesail.Codec.Bytes
import Holesail.Endpoint.Uv

/-!
# What a pipe stands between

On one side a local libuv socket, on the other the encrypted stream behind a `StreamSide`. A pipe
is written against a world `W` it knows nothing about: the four closures of its `StreamSide` are
functions on that world, and so may come back to the pipe itself.

The answers of libuv are arguments. One answer is enough for each kind of call that one callback
makes, since a call is only repeated while it fails.
-/

namespace Holesail

/-- One `on_drain` closure of a `TcpPipe`: which one it is, and the length it captured. -/
structure Drain where
  id : ℕ
  len : ℕ
deriving DecidableEq

structure StreamSide (W : Type) where
  /-- Negative on error. -/
  write : Bytes → Option Drain → W → ℤ × W
  pause : W → W
  resume : W → W
  close : W → W

/-- A call made on a hyperdht stream, a write with what it returned. -/
inductive StreamCall where
  | write (data : Bytes) (rc : ℤ)
  | pause
  | resume
  | close
deriving DecidableEq

/-- The bytes handed to the stream, in order. -/
def written (calls : List StreamCall) : Bytes :=
  calls.flatMap fun call ↦ match call with
    | .write data _ => data
    | _ => []

/-- The bytes that the stream took, in order. -/
def taken (calls : List StreamCall) : Bytes :=
  calls.flatMap fun call ↦ match call with
    | .write data rc => if rc < 0 then [] else data
    | _ => []

def StreamCall.refused : StreamCall → Bool
  | .write _ rc => rc < 0
  | _ => false

instance (calls : List StreamCall) :
    Decidable (∀ data rc, StreamCall.write data rc ∈ calls → 0 ≤ rc) :=
  decidable_of_iff (∀ call ∈ calls, call.refused = false) <| by
    constructor
    · intro h data rc hmem
      exact Int.not_lt.mp (of_decide_eq_false (h _ hmem))
    · rintro h (⟨data, rc⟩ | _ | _ | _) hmem
      · exact decide_eq_false (Int.not_lt.mpr (h data rc hmem))
      all_goals rfl

/-- The calls before the stream was first told to close. -/
def beforeClose (calls : List StreamCall) : List StreamCall := calls.takeWhile (· ≠ .close)

@[simp] theorem written_append (calls calls' : List StreamCall) :
    written (calls ++ calls') = written calls ++ written calls' := List.flatMap_append

@[simp] theorem written_write (data : Bytes) (rc : ℤ) : written [.write data rc] = data :=
  List.append_nil data

@[simp] theorem taken_append (calls calls' : List StreamCall) :
    taken (calls ++ calls') = taken calls ++ taken calls' := List.flatMap_append

theorem taken_write_of_accepted {rc : ℤ} (hrc : 0 ≤ rc) (data : Bytes) :
    taken [.write data rc] = data := by
  rw [taken, List.flatMap_singleton]
  exact if_neg (Int.not_lt.mpr hrc)

theorem taken_write_of_refused {rc : ℤ} (hrc : rc < 0) (data : Bytes) :
    taken [.write data rc] = [] := by
  rw [taken, List.flatMap_singleton]
  exact if_pos hrc

/-- What libuv answers. -/
structure Uv where
  tcpInit : ℤ := 0
  resolve : ℤ := 0
  tcpConnect : ℤ := 0
  readStart : ℤ := 0
  write : ℤ := 0
  udpInit : ℤ := 0
  udpBind : ℤ := 0
  recvStart : ℤ := 0
deriving DecidableEq

structure UvTcp where
  id : ℕ := 0
  /-- A connect request is in flight. -/
  connecting : Bool := false
  reading : Bool := false
  /-- The other end has ended: there is no data left to read. -/
  ended : Bool := false
  /-- The `uv_write`s in flight, oldest first. -/
  writes : List Bytes := []
  /-- `uv_is_closing`. -/
  closing : Bool := false
deriving DecidableEq

/-- As libuv documents `uv_close`, a write that is in flight then is cancelled. -/
def UvTcp.Cancels (t : UvTcp) (status : ℤ) : Prop := t.closing = true → status ≠ 0

instance (t : UvTcp) (status : ℤ) : Decidable (t.Cancels status) :=
  inferInstanceAs (Decidable (_ → _))

structure UvUdp where
  receiving : Bool := false
  /-- `uv_is_closing`. -/
  closing : Bool := false
deriving DecidableEq

/-- What a TCP read callback is called with. -/
inductive Read where
  | eof
  | error
  /-- `nread` bytes; none at all is `EAGAIN`. -/
  | data (bytes : Bytes)
deriving DecidableEq

def Read.isData : Read → Bool
  | .data _ => true
  | _ => false

end Holesail
