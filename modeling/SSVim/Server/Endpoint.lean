/-
The endpoints: which urls they serve, what they read from a request body, and
what each of them answers.

`response` is the answer of a whole endpoint to one request on its own.  The
outcome it takes is what sourcekitd contributes.  The blocks of a session compute
the same answers in steps.
-/
import SSVim.Completer.Service
import SSVim.Json.Read
import SSVim.Server.Message

namespace SSVim
namespace Server

open Completer Json

inductive Endpoint where
  | status
  | shutdown
  | completions
  | diagnostics
  | slowTest
  deriving DecidableEq, Repr

/-- The endpoints a session inserts into its map. -/
def endpoints : List (Str × Endpoint) :=
  [(lit "/status", .status), (lit "/shutdown", .shutdown), (lit "/completions", .completions),
   (lit "/diagnostics", .diagnostics), (lit "/slow_test", .slowTest)]

def findEndpoint (url : Str) : Option Endpoint := endpoints.lookup url

/-! ## Request bodies -/

def readJSONPostBody (body : Str) : Except Fault PTree := readJson body

structure CompletionFields where
  fileName : Str
  column : Int32
  line : Int32
  contents : Str
  flags : List Str
  deriving DecidableEq

def completionFields (body : Str) : Except Fault CompletionFields := do
  let bodyJSON ← readJSONPostBody body
  let fileName ← bodyJSON.getString "file_name"
  let column ← bodyJSON.getInt "column"
  let line ← bodyJSON.getInt "line"
  let contents ← bodyJSON.getString "contents"
  let flags ← bodyJSON.asVector "flags"
  return { fileName := fileName, column := column, line := line, contents := contents,
           flags := flags }

structure DiagnosticsFields where
  fileName : Str
  contents : Str
  flags : List Str
  deriving DecidableEq

def diagnosticsFields (body : Str) : Except Fault DiagnosticsFields := do
  let bodyJSON ← readJSONPostBody body
  let fileName ← bodyJSON.getString "file_name"
  let contents ← bodyJSON.getString "contents"
  let flags ← bodyJSON.asVector "flags"
  return { fileName := fileName, contents := contents, flags := flags }

/-- The body is not an acceptable request to the endpoint. -/
def Endpoint.Rejects (body : Str) : Endpoint → Prop
  | .completions => ∃ fault, completionFields body = .error fault
  | .diagnostics => ∃ fault, diagnosticsFields body = .error fault
  | _ => False

/-! ## The calls into the completer -/

/-- `files`, with the one unsaved file of the request. -/
def unsavedFiles (fileName contents : Str) : List UnsavedFile :=
  [{ contents := contents, fileName := fileName }]

def CompletionFields.context (fields : CompletionFields) : CompletionContext :=
  completionContext fields.fileName fields.line fields.column
    (unsavedFiles fields.fileName fields.contents) fields.flags

section
variable {σ : Type} (skd : Sourcekitd σ)

def CompletionFields.candidates (fields : CompletionFields) (s : σ) : Except Fault (Str × σ) :=
  candidatesForLocationInFile skd fields.fileName fields.line fields.column
    (unsavedFiles fields.fileName fields.contents) fields.flags s

def DiagnosticsFields.diagnose (fields : DiagnosticsFields) (s : σ) :
    Except Fault (Diagnosis × σ) :=
  diagnosticsForFile skd fields.fileName (unsavedFiles fields.fileName fields.contents)
    fields.flags s

/-- `makeCompletionsEndpoint`. -/
def completionsEndpoint (request : Req) (s : σ) : Except Fault (Response × σ) := do
  let fields ← completionFields request.body
  let (candidates, s) ← fields.candidates skd s
  return (okResponse request candidates, s)

theorem completionsEndpoint_eq {request : Req} {fields : CompletionFields} {s s' : σ}
    {candidates : Str} (hfields : completionFields request.body = .ok fields)
    (hcandidates : fields.candidates skd s = .ok (candidates, s')) :
    completionsEndpoint skd request s = .ok (okResponse request candidates, s') := by
  rw [completionsEndpoint, hfields]
  show (fields.candidates skd s).bind _ = _
  rw [hcandidates]
  rfl

/-- How far `makeDiagnosticsEndpoint` gets by itself. -/
inductive DiagnosticsProgress where
  | writes (res : Response)
  /-- It waits for the value of `key`, and writes `resume` of it. -/
  | awaits (key : Str) (resume : Str → Response)

/-- `makeDiagnosticsEndpoint`. -/
def diagnosticsEndpoint (request : Req) (s : σ) : Except Fault (DiagnosticsProgress × σ) := do
  let fields ← diagnosticsFields request.body
  let (diagnosis, s) ← fields.diagnose skd s
  match diagnosis with
  | .empty response => return (.writes (okResponse request response), s)
  | .awaits key => return (.awaits key (okResponse request), s)

end

/-! ## Answers -/

/-- A sourcekitd that gives the replies of a list one after the other. -/
def replay : Sourcekitd (List (Option Str)) := fun _ replies => (replies.headD none, replies.tail)

/-- What sourcekitd contributes to one answer. -/
structure Outcome where
  opened : Option Str
  updated : Option Str
  diagnostics : Str

/-- The response of the server to one request. -/
def response (request : Req) (outcome : Outcome) : Except Fault Response :=
  match findEndpoint request.url with
  | none => .ok (notFoundResponse request)
  | some .status => .ok (okResponse request [])
  | some .shutdown => .ok (okResponse request [])
  | some .slowTest => .ok (okResponse request (lit "Hello World"))
  | some .completions => do
    let (res, _) ← completionsEndpoint replay request [outcome.opened, outcome.updated]
    return res
  | some .diagnostics => do
    let _ ← diagnosticsFields request.body
    return okResponse request outcome.diagnostics

/-- `res` is built from `request`. -/
def Answers (request : Req) (res : Response) : Prop :=
  ∃ outcome, response request outcome = .ok res

end Server
end SSVim
