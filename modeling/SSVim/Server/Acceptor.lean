/-
The acceptor of `SemanticHTTPServer`: the completions of `async_accept` and the
`onAccept` calls they start.

The io threads may run several `onAccept` calls at once, since a call arms the
acceptor again before it starts its session.  A call is a frame in the pool, and a
step takes one frame one statement further.  `accepted` and `started` list the
connections of successful completions and the sockets that sessions were started
on, and no step reads them.
-/
import SSVim.Transition.Machine
import SSVim.Transition.Pool

namespace SSVim
namespace Server

open Transition

abbrev Connection := Nat

/-- What `_socket` or a socket moved out of it holds. -/
abbrev Socket := Option Connection

/-- An `onAccept` call by the statement it is at. -/
inductive Frame where
  | entered (success : Bool)
  /-- It found the acceptor open and no error. -/
  | passed
  /-- `sock` is moved out of `_socket`. -/
  | moved (sock : Socket)
  /-- `async_accept` is called again. -/
  | armed (sock : Socket)
  deriving DecidableEq, Repr

structure Acceptor where
  isOpen : Bool
  socket : Socket
  /-- The `async_accept` operations that have not completed. -/
  outstanding : Nat
  frames : List Frame
  accepted : List Connection
  started : List Socket
  deriving DecidableEq, Repr

namespace Acceptor

/-- After the constructor of the server. -/
def init : Acceptor :=
  { isOpen := true, socket := none, outstanding := 1, frames := [], accepted := [],
    started := [] }

inductive Action where
  | complete (success : Bool)
  | advance (k : Nat)
  /-- The destructor of the server. -/
  | close

/-- An `async_accept` completes, and a successful one connects `_socket`. -/
def complete (acceptor : Acceptor) (success : Bool) : Acceptor :=
  if success then
    { acceptor with
      socket := some acceptor.accepted.length
      outstanding := acceptor.outstanding - 1
      frames := acceptor.frames ++ [.entered true]
      accepted := acceptor.accepted ++ [acceptor.accepted.length] }
  else
    { acceptor with
      outstanding := acceptor.outstanding - 1
      frames := acceptor.frames ++ [.entered false] }

/-- One statement of `onAccept`, with the other frames in `rest`. -/
def onAccept (acceptor : Acceptor) (rest : List Frame) : Frame → Acceptor
  | .entered success =>
    if acceptor.isOpen = false then { acceptor with frames := rest }
    else if success = false then { acceptor with frames := rest }
    else { acceptor with frames := rest ++ [.passed] }
  | .passed =>
    { acceptor with frames := rest ++ [.moved acceptor.socket], socket := none }
  | .moved sock =>
    { acceptor with
      frames := rest ++ [.armed sock], outstanding := acceptor.outstanding + 1 }
  | .armed sock => { acceptor with frames := rest, started := acceptor.started ++ [sock] }

def step : Machine Acceptor Action
  | acceptor, .complete success =>
    if 0 < acceptor.outstanding then some (acceptor.complete success) else none
  | acceptor, .advance k =>
    (pick acceptor.frames k).map fun (frame, rest) => acceptor.onAccept rest frame
  | acceptor, .close => some { acceptor with isOpen := false }

/-- The sockets that a step starts a session on. -/
def starts (acceptor : Acceptor) : Action → List Socket
  | .advance k =>
    match pick acceptor.frames k with
    | some (.armed sock, _) => [sock]
    | _ => []
  | _ => []

theorem onAccept_entered (acceptor : Acceptor) (rest : List Frame) (success : Bool) :
    acceptor.onAccept rest (.entered success) =
      { acceptor with
        frames :=
          if acceptor.isOpen = true ∧ success = true then rest ++ [.passed] else rest } := by
  rw [onAccept]
  cases hopen : acceptor.isOpen with
  | false => rfl
  | true => cases success <;> rfl

theorem step_started {acceptor acceptor' : Acceptor} {a : Action}
    (h : step acceptor a = some acceptor') :
    acceptor'.started = acceptor.started ++ acceptor.starts a := by
  cases a with
  | complete success =>
    simp only [step] at h
    split at h
    · cases h
      rw [complete]
      split <;> exact (List.append_nil _).symm
    · cases h
  | close =>
    cases h
    exact (List.append_nil _).symm
  | advance k =>
    obtain ⟨⟨frame, rest⟩, hpick, rfl⟩ := Option.map_eq_some_iff.mp h
    rw [starts, hpick]
    show (acceptor.onAccept rest frame).started = _
    cases frame with
    | entered success =>
      rw [onAccept_entered]
      exact (List.append_nil _).symm
    | passed | moved => exact (List.append_nil _).symm
    | armed => rfl

end Acceptor

end Server
end SSVim
