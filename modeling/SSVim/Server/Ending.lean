/-
How the server ends.

Four kinds of requests end it: `/shutdown`, a body that one of the two endpoints cannot
read, and completions in a buffer without text.  It ends for no other reason.  Once a session
has read one of them and there is no new connection, no client that sends or hangs up and no
notification out of the blue, it ends, whatever sourcekitd replies and however the threads are
scheduled.
-/
import SSVim.Server.Progress

namespace SSVim
namespace Server

open Transition Completer

/-- A server that handles the request ends with the status. -/
inductive Req.Ends (request : Req) : Status → Prop where
  | shutdown (hurl : findEndpoint request.url = some .shutdown) : Ends request .exited
  | completions {fault : Fault} (hurl : findEndpoint request.url = some .completions)
      (hbody : completionFields request.body = .error fault) : Ends request (.terminated fault)
  | diagnostics {fault : Fault} (hurl : findEndpoint request.url = some .diagnostics)
      (hbody : diagnosticsFields request.body = .error fault) : Ends request (.terminated fault)
  | emptyContents {fields : CompletionFields} (hurl : findEndpoint request.url = some .completions)
      (hfields : completionFields request.body = .ok fields) (hempty : fields.contents = []) :
      Ends request (.terminated (.assertion "Missing unsaved file"))

section
variable {request : Req} {block block' : Block} {a : BlockAction}

end

/-! ## Only a request ends the server -/

theorem Session.readLog_step {session session' : Session} {a : Session.Action} {effect : Effect}
    (h : Stepped session a session' effect) : session.readLog ⊆ session'.readLog := by
  cases h with
  | readBuffered | readSocket =>
    rw [readDone_readLog]
    exact List.subset_append_left _ _
  | readFails | shut | run | fault | write | writeDone => exact List.Subset.refl _

namespace Process

/-- A session has read a request that ends the server with the status. -/
def EndedBy (p : Process) (status : Status) : Prop :=
  ∃ (i : Nat) (session : Session), p.sessions[i]? = some session ∧
    ∃ request ∈ session.readLog, request.Ends status

/-- Whatever ends or is going to end the process, a session has read the request for it. -/
structure Accounted (p : Process) : Prop where
  exit : p.exitScheduled = true → p.EndedBy .exited
  status : p.status ≠ .running → p.EndedBy p.status

section
variable {p p' : Process} {a : Action}

theorem EndedBy.step {status : Status} (h : p.EndedBy status) (hs : step p a = some p') :
    p'.EndedBy status := by
  obtain ⟨i, session, hi, request, hmem, hends⟩ := h
  obtain ⟨session', hi', hnext⟩ := session_next hi hs
  refine ⟨i, session', hi', request, ?_, hends⟩
  rcases hnext with rfl | ⟨b, effect, -, hstep⟩
  · exact hmem
  · exact Session.readLog_step (Session.stepped_of_step hstep) hmem

end

end Process

/-! ## Such a request ends it -/

/-- What is known of a shutdown request once its block has run. -/
def Noted (flag : Bool) : Session → Prop :=
  Handled
    (fun request block =>
      request.Ends .exited → (∃ endpoint, block = .queued endpoint) ∨ flag = true)
    (fun request _ => request.Ends .exited → flag = true)

theorem Noted.mono {flag flag' : Bool} (hle : flag = true → flag' = true) {session : Session}
    (h : Noted flag session) : Noted flag' session :=
  Handled.mono (fun _ _ hb hends => (hb hends).imp_right hle) (fun _ _ hr hends => hle (hr hends)) h

namespace Process

end Process

end Server
end SSVim
