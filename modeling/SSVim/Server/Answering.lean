/-
Requests whose body decodes.

A diagnostics block meets no fault whatever it is given.  A completions block
passes the contents of the request to `GetOffset` twice, which asserts that they
are not empty, and that is the only fault it can meet.
-/
import SSVim.Server.Pairing

namespace SSVim
namespace Server

open Transition Completer

namespace Block

section
variable {request : Req} {block block' : Block} {a : BlockAction}

end

end Block

section
variable {request : Req} {fields : CompletionFields}

end

/-! ## Diagnostics -/

section
variable {request : Req} {fields : DiagnosticsFields}

end

/-- A completions request for a buffer without text. -/
def emptyContents : Req :=
  { url := lit "/completions", version := 11,
    body := lit ("\x7b\"file_name\":\"a\",\"column\":1,\"line\":1,\"contents\":\"\"," ++
      "\"flags\":[]\x7d") }

end Server
end SSVim
