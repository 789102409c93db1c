/-
The request dictionaries sent to sourcekitd.

A request is a dictionary from uids to values.  Setting a key a second time
replaces its value.  Strings cross the interface as C strings, so what sourcekitd
receives of a `std::string` is `cstr` of it.
-/
import SSVim.Completer.Offset

namespace SSVim
namespace SourceKit

open Completer

/-- The keys a request sets, with their uids. -/
inductive Key where
  | request -- key.request
  | compilerArgs -- key.compilerargs
  | offset -- key.offset
  | length -- key.length
  | codeCompleteOptions -- key.codecomplete.options
  | filterText -- key.codecomplete.filtertext
  | sourceFile -- key.sourcefile
  | sourceText -- key.sourcetext
  | name -- key.name
  | syntacticOnly -- key.syntactic_only
  | enableSubStructure -- key.enablesubstructure
  deriving DecidableEq, Repr

inductive RequestUID where
  | codeCompleteOpen -- source.request.codecomplete.open
  | codeCompleteUpdate -- source.request.codecomplete.update
  | codeCompleteClose -- source.request.codecomplete.close
  | editorOpen -- source.request.editor.open
  | editorReplaceText -- source.request.editor.replacetext
  deriving DecidableEq, Repr

inductive Value where
  | uid (u : RequestUID)
  | int64 (n : Int)
  | string (s : Str)
  | array (items : List Str)
  | dictionary (entries : List (Key × Str))
  deriving DecidableEq, Repr

abbrev Request := List (Key × Value)

namespace Request

def set (r : Request) (k : Key) (v : Value) : Request :=
  (k, v) :: r.filter fun e => e.1 ≠ k

def get? (r : Request) (k : Key) : Option Value := r.lookup k

/-- `sourcekitd_request_dictionary_set_string`. -/
def setString (r : Request) (k : Key) (s : Str) : Request := r.set k (.string (cstr s))

def uid? (r : Request) : Option RequestUID :=
  match r.get? .request with
  | some (.uid u) => some u
  | _ => none

/-- A string key, an absent one counting as the empty string. -/
def stringD (r : Request) (k : Key) : Str :=
  match r.get? k with
  | some (.string s) => s
  | _ => []

/-- An integer key, an absent one counting as 0. -/
def int64D (r : Request) (k : Key) : Int :=
  match r.get? k with
  | some (.int64 n) => n
  | _ => 0

end Request

/-- The compiler argument array: the file name and then the arguments. -/
def argumentArray (name : Str) (compilerArgs : List Str) : Value :=
  .array (cstr name :: compilerArgs.map cstr)

def createBaseRequest (requestUID : RequestUID) (name : Str) (offset : UInt32) : Request :=
  let request := Request.set [] .request (.uid requestUID)
  let request := request.set .offset (.int64 offset.toNat)
  request.setString .name name

/-- The dictionary `CodeCompleteRequest` sends. -/
def codeCompleteRequest (requestUID : RequestUID) (name : Str) (offset : UInt32)
    (sourceText : Str) (compilerArgs : List Str) (filterText : Option Str) : Request :=
  let request := createBaseRequest requestUID name offset
  let request := request.setString .sourceFile name
  let request := request.setString .sourceText sourceText
  let opts := match filterText with
    | some text => [(Key.filterText, cstr text)]
    | none => []
  let request := request.set .codeCompleteOptions (.dictionary opts)
  request.set .compilerArgs (argumentArray name compilerArgs)

/-- The dictionary `BasicRequest` sends.  It sets neither `key.offset` nor
`key.length`. -/
def basicRequest (requestUID : RequestUID) (name sourceText : Str) (compilerArgs : List Str) :
    Request :=
  let request := Request.set [] .request (.uid requestUID)
  let request := request.setString .name name
  let request := request.setString .sourceText sourceText
  let request := request.set .enableSubStructure (.int64 1)
  let request := request.set .syntacticOnly (.int64 0)
  request.set .compilerArgs (argumentArray name compilerArgs)

/-- The dictionary `NotificationReceiver` sends: an edit of the document with no
text, offset or length. -/
def semaRequest (semaName : Str) : Request :=
  let edReq := Request.set [] .request (.uid .editorReplaceText)
  let edReq := edReq.setString .name semaName
  edReq.setString .sourceText []

section
variable (u : RequestUID) (name text : Str) (args : List Str) (offset : UInt32)
  (filterText : Option Str)

@[simp] theorem codeCompleteRequest_offset :
    (codeCompleteRequest u name offset text args filterText).int64D .offset =
      offset.toNat := rfl

@[simp] theorem codeCompleteRequest_sourceText :
    (codeCompleteRequest u name offset text args filterText).stringD .sourceText =
      cstr text := rfl

@[simp] theorem codeCompleteRequest_compilerArgs :
    (codeCompleteRequest u name offset text args filterText).get? .compilerArgs =
      some (argumentArray name args) := rfl

@[simp] theorem basicRequest_sourceText :
    (basicRequest u name text args).stringD .sourceText = cstr text := rfl

@[simp] theorem basicRequest_compilerArgs :
    (basicRequest u name text args).get? .compilerArgs = some (argumentArray name args) := rfl

@[simp] theorem semaRequest_name : (semaRequest name).stringD .name = cstr name := rfl

end

end SourceKit
end SSVim
