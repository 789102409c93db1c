/-
What the protocol still has to do by itself.

A call has at most five steps left and a receiver four.  An edit may cause any number of
notifications, so the steps of receivers are counted after those of calls.
-/
import SSVim.Sema.Waiters
import SSVim.Transition.Family

namespace SSVim
namespace Sema

open Transition

def CallPhase.remaining : CallPhase → Nat
  | .entered => 5
  | .opened _ => 4
  | .replaced _ => 3
  | .edited => 2
  | .waiting _ => 1
  | .returned _ => 0
  | .answered _ => 0

def HandlerPhase.remaining : HandlerPhase → Nat
  | .delivered => 4
  | .named _ => 3
  | .querying .. => 2
  | .queried .. => 1
  | .finished _ => 0

def Call.remaining (call : Call) : Nat := call.phase.remaining

def Handler.remaining (handler : Handler) : Nat := handler.phase.remaining

namespace State

end State

section
variable {s s' : State} {a : Action}

end

/-! ## What can move -/

section
variable {s : State}

end

end Sema
end SSVim
