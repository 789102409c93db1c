/-
The diagnostics protocol: calls of `DiagnosticsForFile`, runs of
`NotificationReceiver`, and sourcekitd between them.

A call edits the document twice, registers a promise under its file name and
blocks on it.  sourcekitd sends notifications when it has worked on a document.
Each notification starts a run of `NotificationReceiver`, which asks sourcekitd
for the semantic response and sets it on every promise of that name.  Calls and
receivers run on threads of their own, so one action below is one step of one of
them and a run is any sequence of enabled actions.

An action carries what sourcekitd does in it: the reply to a request, and the
notifications an edit causes.  `clock` counts actions.  It dates the return of
`EditorReplaceText` in a call and the sending of the query in a receiver, and no
action reads it.
-/
import Mathlib.Logic.Function.Basic
import SSVim.Transition.Machine
import SSVim.Completer.Service
import SSVim.Sema.Channel

namespace SSVim
namespace Sema

open Transition Completer SourceKit

abbrev CallId := Nat
abbrev HandlerId := Nat

/-- The payload of a notification, a null variant or a dictionary that may have
`key.name`. -/
inductive Payload where
  | null
  | dictionary (name : Option Str)
  deriving DecidableEq, Repr

/-- The name a receiver goes on with.  Any other payload is discarded. -/
def Payload.semaName? : Payload → Option Str
  | .null => none
  | .dictionary none => none
  | .dictionary (some name) => if (cstr name).length = 0 then none else some (cstr name)

/-- A response to the query of a receiver, with the query it answers. -/
structure Reply where
  handler : HandlerId
  request : Request
  sentAt : Nat
  text : Str
  deriving DecidableEq

inductive CallPhase where
  | entered
  /-- `EditorOpen` returned, with the shared `response`. -/
  | opened (response : Option Str)
  /-- sourcekitd has performed the request of `EditorReplaceText`. -/
  | replaced (response : Option Str)
  /-- `EditorReplaceText` returned and `response` is not NULL. -/
  | edited
  | waiting (promise : Nat)
  | returned (result : Str)
  | answered (reply : Reply)
  deriving DecidableEq

/-- A call of `DiagnosticsForFile`. -/
structure Call where
  filename : Str
  contents : Str
  flags : List Str
  editedAt : Nat
  phase : CallPhase

/-- The dictionary of `EditorOpen` or `EditorReplaceText` in the call. -/
def Call.request (call : Call) (requestUID : RequestUID) : Request :=
  basicRequest requestUID call.filename call.contents
    (diagnosticsContext call.filename
      [{ contents := call.contents, fileName := call.filename }] call.flags).compilerArgs

inductive HandlerPhase where
  | delivered
  | named (semaName : Str)
  | querying (semaName : Str) (sentAt : Nat)
  | queried (semaName : Str) (reply : Reply)
  /-- Returned, with the reply it set, if it set one. -/
  | finished (reply : Option Reply)
  deriving DecidableEq

/-- A run of `NotificationReceiver`. -/
structure Handler where
  payload : Payload
  phase : HandlerPhase

structure State where
  clock : Nat
  calls : CallId → Option Call
  handlers : HandlerId → Option Handler
  /-- Notifications caused and not yet handed to a receiver. -/
  undelivered : List Payload
  /-- `SemaFutureChannel`. -/
  channel : FutureChannel Str Reply
  /-- The text of each document that sourcekitd keeps. -/
  documents : Str → Str

def State.init (documents : Str → Str) : State :=
  { clock := 0, calls := fun _ => none, handlers := fun _ => none, undelivered := [],
    channel := FutureChannel.empty, documents := documents }

/-! ## sourcekitd's documents -/

/-- The bytes `[offset, offset + length)` of a text replaced. -/
def replaceRange (document : Str) (offset length : Nat) (text : Str) : Str :=
  document.take offset ++ text ++ document.drop (offset + length)

/-- An edit request performed. -/
def process (request : Request) (documents : Str → Str) : Str → Str :=
  let name := request.stringD .name
  match request.uid? with
  | some .editorOpen => Function.update documents name (request.stringD .sourceText)
  | some .editorReplaceText =>
    Function.update documents name (replaceRange (documents name)
      (request.int64D .offset).toNat (request.int64D .length).toNat (request.stringD .sourceText))
  | _ => documents

/-! ## Steps -/

inductive CallAction where
  | editorOpen (reply : Option Str) (caused : List Payload)
  | editorReplaceText (reply : Option Str) (caused : List Payload)
  | editorReturned
  | future
  | get

inductive HandlerAction where
  | readName
  | query
  | respond (success : Bool) (text : Str)
  | set

inductive Action where
  | enter (c : CallId) (filename contents : Str) (flags : List Str)
  | call (c : CallId) (a : CallAction)
  /-- sourcekitd sends a notification that no edit of the run accounts for. -/
  | notify (payload : Payload)
  | deliver (h : HandlerId) (payload : Payload)
  | handler (h : HandlerId) (a : HandlerAction)

namespace State

/-- The file name and the answer of a call that has one. -/
def answer? (s : State) (c : CallId) : Option (Str × Reply) :=
  (s.calls c).bind fun call =>
    match call.phase with
    | .answered reply => some (call.filename, reply)
    | _ => none

def setCall (s : State) (c : CallId) (call : Call) : State :=
  { s with clock := s.clock + 1, calls := Function.update s.calls c (some call) }

def setHandler (s : State) (h : HandlerId) (handler : Handler) : State :=
  { s with clock := s.clock + 1, handlers := Function.update s.handlers h (some handler) }

/-- sourcekitd performs an edit request, unless it answers with an error, and
owes the notifications it causes. -/
def edit (s : State) (request : Request) (success : Bool) (caused : List Payload) : State :=
  { s with
    documents := if success then process request s.documents else s.documents
    undelivered := s.undelivered ++ caused }

end State

def stepCall (s : State) (c : CallId) (call : Call) : CallAction → Option State
  | .editorOpen reply caused =>
    match call.phase with
    | .entered =>
      some ((s.edit (call.request .editorOpen) reply.isSome caused).setCall c
        { call with phase := .opened (handleResponse reply none).2 })
    | _ => none
  | .editorReplaceText reply caused =>
    match call.phase with
    | .opened response =>
      some ((s.edit (call.request .editorReplaceText) reply.isSome caused).setCall c
        { call with phase := .replaced (handleResponse reply response).2 })
    | _ => none
  | .editorReturned =>
    match call.phase with
    | .replaced none =>
      some (s.setCall c { call with editedAt := s.clock, phase := .returned emptyDiagnostics })
    | .replaced (some _) => some (s.setCall c { call with editedAt := s.clock, phase := .edited })
    | _ => none
  | .future =>
    match call.phase with
    | .edited =>
      some ({ s with channel := s.channel.future call.filename }.setCall c
        { call with phase := .waiting s.channel.allocated })
    | _ => none
  | .get =>
    match call.phase with
    | .waiting promise =>
      match s.channel.value? promise with
      | some reply => some (s.setCall c { call with phase := .answered reply })
      | none => none
    | _ => none

def stepHandler (s : State) (h : HandlerId) (handler : Handler) : HandlerAction → Option State
  | .readName =>
    match handler.phase with
    | .delivered =>
      match handler.payload.semaName? with
      | none => some (s.setHandler h { handler with phase := .finished none })
      | some semaName => some (s.setHandler h { handler with phase := .named semaName })
    | _ => none
  | .query =>
    match handler.phase with
    | .named semaName => some (s.setHandler h { handler with phase := .querying semaName s.clock })
    | _ => none
  | .respond success text =>
    match handler.phase with
    | .querying semaName sentAt =>
      some ((s.edit (semaRequest semaName) success []).setHandler h
        { handler with
          phase := .queried semaName
            { handler := h, request := semaRequest semaName, sentAt := sentAt, text := text } })
    | _ => none
  | .set =>
    match handler.phase with
    | .queried semaName reply =>
      some ({ s with channel := s.channel.set semaName reply }.setHandler h
        { handler with phase := .finished (some reply) })
    | _ => none

def step : Machine State Action
  | s, .enter c filename contents flags =>
    match s.calls c with
    | none =>
      some (s.setCall c
        { filename := filename, contents := contents, flags := flags, editedAt := 0,
          phase := .entered })
    | some _ => none
  | s, .call c a => (s.calls c).bind fun call => stepCall s c call a
  | s, .notify payload =>
    some { s with clock := s.clock + 1, undelivered := s.undelivered ++ [payload] }
  | s, .deliver h payload =>
    match s.handlers h with
    | none =>
      if payload ∈ s.undelivered then
        some ({ s with undelivered := s.undelivered.erase payload }.setHandler h
          { payload := payload, phase := .delivered })
      else none
    | some _ => none
  | s, .handler h a => (s.handlers h).bind fun handler => stepHandler s h handler a

/-! ## What one step can do -/

/-- The enabled steps, one constructor each. -/
inductive Stepped (s : State) : Action → State → Prop where
  | enter {c filename contents flags} (hc : s.calls c = none) :
      Stepped s (.enter c filename contents flags)
        (s.setCall c
          { filename := filename, contents := contents, flags := flags, editedAt := 0,
            phase := .entered })
  | editorOpen {c call reply caused} (hc : s.calls c = some call) (hp : call.phase = .entered) :
      Stepped s (.call c (.editorOpen reply caused))
        ((s.edit (call.request .editorOpen) reply.isSome caused).setCall c
          { call with phase := .opened (handleResponse reply none).2 })
  | editorReplaceText {c call reply caused response} (hc : s.calls c = some call)
      (hp : call.phase = .opened response) :
      Stepped s (.call c (.editorReplaceText reply caused))
        ((s.edit (call.request .editorReplaceText) reply.isSome caused).setCall c
          { call with phase := .replaced (handleResponse reply response).2 })
  | returnedEmpty {c call} (hc : s.calls c = some call) (hp : call.phase = .replaced none) :
      Stepped s (.call c .editorReturned)
        (s.setCall c { call with editedAt := s.clock, phase := .returned emptyDiagnostics })
  | returnedEdited {c call response} (hc : s.calls c = some call)
      (hp : call.phase = .replaced (some response)) :
      Stepped s (.call c .editorReturned)
        (s.setCall c { call with editedAt := s.clock, phase := .edited })
  | future {c call} (hc : s.calls c = some call) (hp : call.phase = .edited) :
      Stepped s (.call c .future)
        ({ s with channel := s.channel.future call.filename }.setCall c
          { call with phase := .waiting s.channel.allocated })
  | get {c call promise reply} (hc : s.calls c = some call) (hp : call.phase = .waiting promise)
      (hv : s.channel.value? promise = some reply) :
      Stepped s (.call c .get) (s.setCall c { call with phase := .answered reply })
  | notify {payload} :
      Stepped s (.notify payload)
        { s with clock := s.clock + 1, undelivered := s.undelivered ++ [payload] }
  | deliver {h payload} (hh : s.handlers h = none) (hm : payload ∈ s.undelivered) :
      Stepped s (.deliver h payload)
        ({ s with undelivered := s.undelivered.erase payload }.setHandler h
          { payload := payload, phase := .delivered })
  | discard {h handler} (hh : s.handlers h = some handler) (hp : handler.phase = .delivered)
      (hn : handler.payload.semaName? = none) :
      Stepped s (.handler h .readName) (s.setHandler h { handler with phase := .finished none })
  | readName {h handler semaName} (hh : s.handlers h = some handler)
      (hp : handler.phase = .delivered) (hn : handler.payload.semaName? = some semaName) :
      Stepped s (.handler h .readName) (s.setHandler h { handler with phase := .named semaName })
  | query {h handler semaName} (hh : s.handlers h = some handler)
      (hp : handler.phase = .named semaName) :
      Stepped s (.handler h .query)
        (s.setHandler h { handler with phase := .querying semaName s.clock })
  | respond {h handler semaName sentAt success text} (hh : s.handlers h = some handler)
      (hp : handler.phase = .querying semaName sentAt) :
      Stepped s (.handler h (.respond success text))
        ((s.edit (semaRequest semaName) success []).setHandler h
          { handler with
            phase := .queried semaName
              { handler := h, request := semaRequest semaName, sentAt := sentAt, text := text } })
  | set {h handler semaName reply} (hh : s.handlers h = some handler)
      (hp : handler.phase = .queried semaName reply) :
      Stepped s (.handler h .set)
        ({ s with channel := s.channel.set semaName reply }.setHandler h
          { handler with phase := .finished (some reply) })

theorem stepped_of_stepCall {s s' : State} {c : CallId} {call : Call} {a : CallAction}
    (hc : s.calls c = some call) (h : stepCall s c call a = some s') :
    Stepped s (.call c a) s' := by
  cases a with
  | editorOpen reply caused =>
    simp only [stepCall] at h
    split at h
    next hp =>
      cases h
      exact .editorOpen hc hp
    · cases h
  | editorReplaceText reply caused =>
    simp only [stepCall] at h
    split at h
    next response hp =>
      cases h
      exact .editorReplaceText hc hp
    · cases h
  | editorReturned =>
    simp only [stepCall] at h
    split at h
    next hp =>
      cases h
      exact .returnedEmpty hc hp
    next response hp =>
      cases h
      exact .returnedEdited hc hp
    · cases h
  | future =>
    simp only [stepCall] at h
    split at h
    next hp =>
      cases h
      exact .future hc hp
    · cases h
  | get =>
    simp only [stepCall] at h
    split at h
    next promise hp =>
      split at h
      next reply hv =>
        cases h
        exact .get hc hp hv
      · cases h
    · cases h

theorem stepped_of_stepHandler {s s' : State} {h : HandlerId} {handler : Handler}
    {a : HandlerAction} (hh : s.handlers h = some handler)
    (hs : stepHandler s h handler a = some s') : Stepped s (.handler h a) s' := by
  cases a with
  | readName =>
    simp only [stepHandler] at hs
    split at hs
    next hp =>
      split at hs
      next hn =>
        cases hs
        exact .discard hh hp hn
      next semaName hn =>
        cases hs
        exact .readName hh hp hn
    · cases hs
  | query =>
    simp only [stepHandler] at hs
    split at hs
    next semaName hp =>
      cases hs
      exact .query hh hp
    · cases hs
  | respond success text =>
    simp only [stepHandler] at hs
    split at hs
    next semaName sentAt hp =>
      cases hs
      exact .respond hh hp
    · cases hs
  | set =>
    simp only [stepHandler] at hs
    split at hs
    next semaName reply hp =>
      cases hs
      exact .set hh hp
    · cases hs

theorem stepped_of_step {s s' : State} {a : Action} (h : step s a = some s') :
    Stepped s a s' := by
  cases a with
  | enter c filename contents flags =>
    simp only [step] at h
    split at h
    next hc =>
      cases h
      exact .enter hc
    · cases h
  | call c a =>
    obtain ⟨call, hc, hs⟩ := Option.bind_eq_some_iff.mp h
    exact stepped_of_stepCall hc hs
  | notify payload =>
    cases h
    exact .notify
  | deliver h' payload =>
    simp only [step] at h
    split at h
    next hh =>
      split at h
      next hm =>
        cases h
        exact .deliver hh hm
      · cases h
    · cases h
  | handler h' a =>
    obtain ⟨handler, hh, hs⟩ := Option.bind_eq_some_iff.mp h
    exact stepped_of_stepHandler hh hs

/-! ## Reading a state after a step -/

theorem answer?_eq_some {s : State} {c : CallId} {filename : Str} {reply : Reply}
    (h : s.answer? c = some (filename, reply)) :
    ∃ call, s.calls c = some call ∧ call.filename = filename ∧ call.phase = .answered reply := by
  obtain ⟨call, hc, hm⟩ := Option.bind_eq_some_iff.mp h
  split at hm
  next hp =>
    cases hm
    exact ⟨call, hc, rfl, hp⟩
  · cases hm

section
variable (s : State)

@[simp] theorem setCall_calls (c c' : CallId) (call : Call) :
    (s.setCall c call).calls c' = if c' = c then some call else s.calls c' :=
  Function.update_apply _ _ _ _

@[simp] theorem setHandler_handlers (h h' : HandlerId) (handler : Handler) :
    (s.setHandler h handler).handlers h' = if h' = h then some handler else s.handlers h' :=
  Function.update_apply _ _ _ _

theorem setCall_self (c : CallId) (call : Call) : (s.setCall c call).calls c = some call :=
  Function.update_self _ _ _

theorem setHandler_self (h : HandlerId) (handler : Handler) :
    (s.setHandler h handler).handlers h = some handler := Function.update_self _ _ _

@[simp] theorem setCall_channel (c : CallId) (call : Call) :
    (s.setCall c call).channel = s.channel := rfl

@[simp] theorem setHandler_channel (h : HandlerId) (handler : Handler) :
    (s.setHandler h handler).channel = s.channel := rfl

variable (request : Request) (success : Bool) (caused : List Payload)

@[simp] theorem edit_calls : (s.edit request success caused).calls = s.calls := rfl

@[simp] theorem edit_handlers : (s.edit request success caused).handlers = s.handlers := rfl

end

end Sema
end SSVim
