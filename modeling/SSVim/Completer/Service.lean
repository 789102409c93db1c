/-
`SourceKitService` and `SwiftCompleter` over an arbitrary sourcekitd.

sourcekitd is a parameter with a state of its own: it answers a request with
JSON text, or with `none` for an error response.  The `char *response` that the
two calls of one request share is an `Option Str`: a call that succeeds
overwrites it, and one that fails leaves what an earlier call put there.
-/
import SSVim.SourceKit.Request

namespace SSVim
namespace Completer

open SourceKit

/-- `sourcekitd_send_request_sync` followed by the JSON description of the
response, with `none` for a response that is an error. -/
abbrev Sourcekitd (σ : Type) := Request → σ → Option Str × σ

/-- The response handler every service call passes to `SendRequestSync`: the
error flag it returns and `*oresponse` after it. -/
def handleResponse (reply oresponse : Option Str) : Bool × Option Str :=
  match reply with
  | none => (true, oresponse)
  | some json => (false, some json)

section
variable {σ : Type} (skd : Sourcekitd σ)

def sendRequestSync (request : Request) (oresponse : Option Str) (s : σ) :
    (Bool × Option Str) × σ :=
  (handleResponse (skd request s).1 oresponse, (skd request s).2)

/-- The request that `CompletionOpen` and `CompletionUpdate` send. -/
def completionRequest (requestUID : RequestUID) (ctx : CompletionContext) :
    Except Fault Request := do
  let (codeCompletionOffset, cleanFile) ← getOffset ctx
  return codeCompleteRequest requestUID ctx.sourceFilename codeCompletionOffset cleanFile
    ctx.compilerArgs none

def completionCall (requestUID : RequestUID) (ctx : CompletionContext) (oresponse : Option Str)
    (s : σ) : Except Fault ((Bool × Option Str) × σ) := do
  let request ← completionRequest requestUID ctx
  return sendRequestSync skd request oresponse s

/-- Update the file and get latest results. -/
def completionUpdate (ctx : CompletionContext) (oresponse : Option Str) (s : σ) :
    Except Fault ((Bool × Option Str) × σ) :=
  completionCall skd .codeCompleteUpdate ctx oresponse s

/-- Open the connection and get the first set of results. -/
def completionOpen (ctx : CompletionContext) (oresponse : Option Str) (s : σ) :
    Except Fault ((Bool × Option Str) × σ) :=
  completionCall skd .codeCompleteOpen ctx oresponse s

/-- The request that `EditorOpen` and `EditorReplaceText` send, with the text of
the first unsaved file. -/
def editorRequest (requestUID : RequestUID) (ctx : CompletionContext) : Except Fault Request :=
  match ctx.unsavedFiles[0]? with
  | none => .error .badIndex
  | some file => .ok (basicRequest requestUID ctx.sourceFilename file.contents ctx.compilerArgs)

def editorCall (requestUID : RequestUID) (ctx : CompletionContext) (oresponse : Option Str)
    (s : σ) : Except Fault ((Bool × Option Str) × σ) := do
  let request ← editorRequest requestUID ctx
  return sendRequestSync skd request oresponse s

def editorOpen (ctx : CompletionContext) (oresponse : Option Str) (s : σ) :
    Except Fault ((Bool × Option Str) × σ) :=
  editorCall skd .editorOpen ctx oresponse s

def editorReplaceText (ctx : CompletionContext) (oresponse : Option Str) (s : σ) :
    Except Fault ((Bool × Option Str) × σ) :=
  editorCall skd .editorReplaceText ctx oresponse s

def emptyCompletions : Str := lit "\x7b 'key.results':[] \x7d"

def candidatesForLocationInFile (filename : Str) (line column : Int32)
    (unsavedFiles : List UnsavedFile) (flags : List Str) (s : σ) : Except Fault (Str × σ) := do
  let ctx := completionContext filename line column unsavedFiles flags
  let ((_, response), s) ← completionOpen skd ctx none s
  let ((_, response), s) ← completionUpdate skd ctx response s
  match response with
  | none => return (emptyCompletions, s)
  | some response => return (response, s)

def emptyDiagnostics : Str := lit "\x7b 'key.diagnostics':[] \x7d"

/-- Where `DiagnosticsForFile` gets to before it blocks. -/
inductive Diagnosis where
  /-- Both edits failed and it returns at once. -/
  | empty (response : Str)
  /-- It goes on to `SemaFutureChannel.future(key)` and waits. -/
  | awaits (key : Str)
  deriving DecidableEq

/-- `DiagnosticsForFile` up to its wait. -/
def diagnosticsForFile (filename : Str) (unsavedFiles : List UnsavedFile) (flags : List Str)
    (s : σ) : Except Fault (Diagnosis × σ) := do
  let ctx := diagnosticsContext filename unsavedFiles flags
  let ((_, response), s) ← editorOpen skd ctx none s
  let ((_, response), s) ← editorReplaceText skd ctx response s
  match response with
  | none => return (.empty emptyDiagnostics, s)
  | some _ => return (.awaits filename, s)

/-! ## What the calls do

A completion request depends on the context alone, so the two calls of
`CandidatesForLocationInFile` fault together, and then before sourcekitd is
asked anything. -/

theorem completionRequest_ok {ctx : CompletionContext} (h : unsavedInput ctx ≠ [])
    (u : RequestUID) : ∃ request, completionRequest u ctx = .ok request := by
  obtain ⟨⟨offset, cleanFile⟩, hr⟩ := getOffset_ok h
  rw [completionRequest, hr]
  exact ⟨_, rfl⟩

theorem completionRequest_empty {ctx : CompletionContext} (h : unsavedInput ctx = [])
    (u : RequestUID) :
    completionRequest u ctx = .error (.assertion "Missing unsaved file") := by
  rw [completionRequest, getOffset_empty h]
  rfl

theorem completionRequest_error {ctx : CompletionContext} {u : RequestUID} {fault : Fault}
    (h : completionRequest u ctx = .error fault) : unsavedInput ctx = [] := by
  by_contra hne
  obtain ⟨request, hr⟩ := completionRequest_ok hne u
  rw [hr] at h
  cases h

/-- The shared response after two requests: the second reply when there is one,
and else the first. -/
def lastResponse (first second : Request) (s : σ) : Option Str :=
  (skd second (skd first s).2).1.or (skd first s).1

theorem sendRequestSync_twice (first second : Request) (s : σ) :
    (sendRequestSync skd second (sendRequestSync skd first none s).1.2
      (sendRequestSync skd first none s).2).1.2 = lastResponse skd first second s := by
  simp only [sendRequestSync, lastResponse]
  cases (skd second (skd first s).2).1 <;> cases (skd first s).1 <;> rfl

theorem candidates_eq {filename : Str} {line column : Int32} {unsavedFiles : List UnsavedFile}
    {flags : List Str} {opening updating : Request} (s : σ)
    (ho : completionRequest .codeCompleteOpen
      (completionContext filename line column unsavedFiles flags) = .ok opening)
    (hu : completionRequest .codeCompleteUpdate
      (completionContext filename line column unsavedFiles flags) = .ok updating) :
    candidatesForLocationInFile skd filename line column unsavedFiles flags s =
      .ok ((lastResponse skd opening updating s).getD emptyCompletions,
        (skd updating (skd opening s).2).2) := by
  rw [candidatesForLocationInFile]
  simp only [completionOpen, completionUpdate, completionCall, ho, hu]
  show (match (sendRequestSync _ _ (sendRequestSync _ _ none s).1.2 _).1.2 with
    | none => Except.ok (emptyCompletions, _)
    | some response => Except.ok (response, _)) = _
  rw [sendRequestSync_twice]
  cases lastResponse skd opening updating s <;> rfl

theorem candidates_empty {filename : Str} {line column : Int32}
    {unsavedFiles : List UnsavedFile} {flags : List Str} (s : σ)
    (h : unsavedInput (completionContext filename line column unsavedFiles flags) = []) :
    candidatesForLocationInFile skd filename line column unsavedFiles flags s =
      .error (.assertion "Missing unsaved file") := by
  rw [candidatesForLocationInFile]
  simp only [completionOpen, completionCall, completionRequest_empty h]
  rfl

theorem diagnosticsForFile_eq {filename : Str} {unsavedFiles : List UnsavedFile}
    {flags : List Str} {opening replacing : Request} (s : σ)
    (ho : editorRequest .editorOpen (diagnosticsContext filename unsavedFiles flags) =
      .ok opening)
    (hr : editorRequest .editorReplaceText (diagnosticsContext filename unsavedFiles flags) =
      .ok replacing) :
    diagnosticsForFile skd filename unsavedFiles flags s =
      .ok (if lastResponse skd opening replacing s = none then .empty emptyDiagnostics
        else .awaits filename, (skd replacing (skd opening s).2).2) := by
  rw [diagnosticsForFile]
  simp only [editorOpen, editorReplaceText, editorCall, ho, hr]
  show (match (sendRequestSync _ _ (sendRequestSync _ _ none s).1.2 _).1.2 with
    | none => Except.ok (Diagnosis.empty emptyDiagnostics, _)
    | some _ => Except.ok (Diagnosis.awaits filename, _)) = _
  rw [sendRequestSync_twice]
  cases lastResponse skd opening replacing s <;> rfl

theorem editorRequest_singleton (u : RequestUID) (filename contents : Str) (flags : List Str) :
    editorRequest u (diagnosticsContext filename
        [{ contents := contents, fileName := filename }] flags) =
      .ok (basicRequest u filename contents (diagnosticsContext filename
        [{ contents := contents, fileName := filename }] flags).compilerArgs) := rfl

end

end Completer
end SSVim
