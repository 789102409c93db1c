/-
The server comes to rest.

With no new connection, no client that sends or hangs up and no notification out of the
blue, every run of the server ends, whatever sourcekitd replies and however the threads are
scheduled.  Then nobody waits for the server: a client that sent requests has its responses,
or its call waits for a promise that is registered and that no receiver is going to take.
A session whose read has failed reads no more, though, and what it has buffered by then stays
without a response.
-/
import SSVim.Sema.Progress
import SSVim.Server.Answering
import SSVim.Server.Delivered

namespace SSVim
namespace Server

open Transition

/-! ## The steps of the server itself -/

/-- An upper bound of the steps of a block and its write, without those of its call. -/
def Block.remaining : Block → Nat
  | .queued _ => 11
  | .diagnosing _ => 10
  | .decoded _ => 5
  | .opened .. => 4
  | .inCall .. => 4
  | .delayed => 4
  | .result _ => 3
  | .responding _ => 2

/-- Every buffered request may still start a block. -/
def Session.remaining (session : Session) : Nat :=
  12 * session.streambuf.length + (session.blocks.map Block.remaining).sum +
    session.writes.length

/-- The steps of a call that an effect starts. -/
def Effect.starts : Effect → Nat
  | .enterCall .. => 5
  | _ => 0

section
variable {session session' : Session} {a : Session.Action} {effect : Effect}

end

namespace Process

section
variable {p p' : Process}

end

end Process

/-! ## What can move -/

namespace Process

section
variable {p : Process} {i : Nat} {session : Session} {block : Block}

end

/-! ## Rest -/

end Process

end Server
end SSVim
