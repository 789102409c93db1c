/-
A session: one connection, with its reads, its endpoint blocks and its writes.

What runs for a session is an outstanding `async_read`, a block that libdispatch
has queued or is running, or an outstanding `async_write`.  The model has a number
or a list of each of them, so that there is never more than one is a theorem.  A block
calls `session->request()` at its start for the body and again for the version
when it builds its response.

A read takes what is buffered in `_streambuf` before it touches the socket.  The
buffer is the requests in it, and `shut` says that the socket delivers no more.
`readLog`, `issued` and `delivered` are the requests read, the responses passed to
`async_write` and those written without an error.  No step reads them.
-/
import SSVim.Server.Acceptor
import SSVim.Server.Endpoint

namespace SSVim
namespace Server

open Transition Completer

/-- A `DiagnosticsForFile` call, by the number the protocol has for it. -/
abbrev CallId := Nat

/-- A block dispatched by `handleRequest` or by an endpoint, by where it is. -/
inductive Block where
  | queued (endpoint : Endpoint)
  | decoded (fields : CompletionFields)
  /-- `CompletionOpen` returned, with the shared `response`. -/
  | opened (fields : CompletionFields) (response : Option Str)
  | diagnosing (fields : DiagnosticsFields)
  /-- It is in `DiagnosticsForFile`. -/
  | inCall (fields : DiagnosticsFields) (call : CallId)
  /-- The block that `dispatch_after` runs later. -/
  | delayed
  /-- It has the body of its response. -/
  | result (body : Str)
  | responding (res : Response)
  deriving DecidableEq

/-- What a stretch of a block does outside its session. -/
inductive Effect where
  | none
  /-- `exit(0)` runs on the main queue later. -/
  | scheduleExit
  /-- An exception leaves the block or an assertion fails in it. -/
  | terminate (fault : Fault)
  | enterCall (call : CallId) (fields : DiagnosticsFields)
  | leaveCall (call : CallId) (result : Str)
  deriving DecidableEq

inductive BlockAction where
  /-- The block runs up to its first call into the completer or its response. -/
  | start
  | completionOpen (reply : Option Str)
  | completionUpdate (reply : Option Str)
  | enterCall (call : CallId)
  | leaveCall (result : Str)
  /-- The delay of a block is over. -/
  | fire
  /-- The response is built. -/
  | build

/-- One stretch of a block, with what `session->request()` returns.  `/shutdown`
schedules the exit once its response is built. -/
def Block.run (request : Req) : Block → BlockAction → Option (Except Fault (Block × Effect))
  | .queued .status, .start => some (.ok (.responding (okResponse request []), .none))
  | .queued .shutdown, .start => some (.ok (.responding (okResponse request []), .scheduleExit))
  | .queued .completions, .start =>
    some ((completionFields request.body).map fun fields => (.decoded fields, .none))
  | .queued .diagnostics, .start =>
    some ((diagnosticsFields request.body).map fun fields => (.diagnosing fields, .none))
  | .queued .slowTest, .start => some (.ok (.delayed, .none))
  | .decoded fields, .completionOpen reply =>
    some ((completionRequest .codeCompleteOpen fields.context).map fun _ =>
      (.opened fields (handleResponse reply none).2, .none))
  | .opened fields response, .completionUpdate reply =>
    some ((completionRequest .codeCompleteUpdate fields.context).map fun _ =>
      (.result ((handleResponse reply response).2.getD emptyCompletions), .none))
  | .diagnosing fields, .enterCall call =>
    some (.ok (.inCall fields call, .enterCall call fields))
  | .inCall _ call, .leaveCall value => some (.ok (.result value, .leaveCall call value))
  | .delayed, .fire => some (.ok (.result (lit "Hello World"), .none))
  | .result body, .build => some (.ok (.responding (okResponse request body), .none))
  | _, _ => none

/-! ## Sessions -/

structure Session where
  socket : Socket
  request : Req
  streambuf : List Req
  shut : Bool
  reads : Nat
  blocks : List Block
  writes : List Response
  readLog : List Req
  issued : List Response
  delivered : List Response
  deriving DecidableEq

namespace Session

inductive Action where
  | readBuffered
  | readSocket (request : Req) (rest : List Req)
  | readFails
  | shut
  | run (k : Nat) (a : BlockAction)
  | write (k : Nat)
  | writeDone (k : Nat) (success : Bool)

def doRead (session : Session) : Session := { session with reads := session.reads + 1 }

/-- A session on a socket, after `start`. -/
def init (socket : Socket) : Session :=
  doRead
    { socket := socket, request := Req.empty, streambuf := [], shut := false, reads := 0,
      blocks := [], writes := [], readLog := [], issued := [], delivered := [] }

def write (session : Session) (res : Response) : Session :=
  { session with writes := session.writes ++ [res], issued := session.issued ++ [res] }

def handleRequest (session : Session) (endpoint : Endpoint) : Session :=
  { session with blocks := session.blocks ++ [.queued endpoint] }

/-- `onRead` without an error. -/
def onRead (session : Session) : Session :=
  match findEndpoint session.request.url with
  | some endpoint => session.handleRequest endpoint
  | none => session.write (notFoundResponse session.request)

/-- `async_read` assigns `_request` and completes, which leaves `rest` buffered. -/
def readDone (session : Session) (request : Req) (rest : List Req) : Session :=
  onRead { session with
    reads := session.reads - 1, request := request, streambuf := rest,
    readLog := session.readLog ++ [request] }

/-- `onWrite`: an error is logged, and the next read starts either way. -/
def onWrite (session : Session) : Session := session.doRead

def writeDone (session : Session) (res : Response) (rest : List Response) (success : Bool) :
    Session :=
  onWrite { session with
    writes := rest
    delivered := if success then session.delivered ++ [res] else session.delivered }

def setBlocks (session : Session) (blocks : List Block) : Session :=
  { session with blocks := blocks }

def step (session : Session) : Action → Option (Session × Effect)
  | .readBuffered =>
    match session.streambuf with
    | request :: rest =>
      if 0 < session.reads then some (session.readDone request rest, .none) else none
    | [] => none
  | .readSocket request rest =>
    if 0 < session.reads ∧ session.streambuf = [] ∧ session.shut = false then
      some (session.readDone request rest, .none)
    else none
  | .readFails =>
    if 0 < session.reads then some ({ session with reads := session.reads - 1 }, .none) else none
  | .shut => some ({ session with shut := true }, .none)
  | .run k a =>
    match pick session.blocks k with
    | none => none
    | some (block, rest) =>
      match block.run session.request a with
      | none => none
      | some (.ok (block', effect)) => some (session.setBlocks (rest ++ [block']), effect)
      | some (.error fault) => some (session, .terminate fault)
  | .write k =>
    match pick session.blocks k with
    | some (.responding res, rest) => some ((session.setBlocks rest).write res, .none)
    | _ => none
  | .writeDone k success =>
    match pick session.writes k with
    | some (res, rest) => some (session.writeDone res rest success, .none)
    | none => none

/-! ## What one step can do -/

/-- The enabled steps by what they do to the session. -/
inductive Stepped (session : Session) : Action → Session → Effect → Prop where
  | readBuffered {request rest} (hr : 0 < session.reads)
      (hs : session.streambuf = request :: rest) :
      Stepped session .readBuffered (session.readDone request rest) .none
  | readSocket {request rest} (hr : 0 < session.reads) (hs : session.streambuf = [])
      (hshut : session.shut = false) :
      Stepped session (.readSocket request rest) (session.readDone request rest) .none
  | readFails (hr : 0 < session.reads) :
      Stepped session .readFails { session with reads := session.reads - 1 } .none
  | shut : Stepped session .shut { session with shut := true } .none
  | run {k a block rest block' effect} (hb : pick session.blocks k = some (block, rest))
      (hrun : block.run session.request a = some (.ok (block', effect))) :
      Stepped session (.run k a) (session.setBlocks (rest ++ [block'])) effect
  | fault {k a block rest fault} (hb : pick session.blocks k = some (block, rest))
      (hrun : block.run session.request a = some (.error fault)) :
      Stepped session (.run k a) session (.terminate fault)
  | write {k res rest} (hb : pick session.blocks k = some (.responding res, rest)) :
      Stepped session (.write k) ((session.setBlocks rest).write res) .none
  | writeDone {k success res rest} (hw : pick session.writes k = some (res, rest)) :
      Stepped session (.writeDone k success) (session.writeDone res rest success) .none

theorem stepped_of_step {session session' : Session} {a : Action} {effect : Effect}
    (h : session.step a = some (session', effect)) : Stepped session a session' effect := by
  cases a with
  | readBuffered =>
    simp only [step] at h
    split at h
    next request rest hs =>
      split at h
      next hr =>
        cases h
        exact .readBuffered hr hs
      · cases h
    · cases h
  | readSocket request rest =>
    simp only [step] at h
    split at h
    next hc =>
      cases h
      exact .readSocket hc.1 hc.2.1 hc.2.2
    · cases h
  | readFails =>
    simp only [step] at h
    split at h
    next hr =>
      cases h
      exact .readFails hr
    · cases h
  | shut =>
    cases h
    exact .shut
  | run k a =>
    simp only [step] at h
    split at h
    · cases h
    next block rest hb =>
      split at h
      · cases h
      next block' effect' hrun =>
        cases h
        exact .run hb hrun
      next fault hrun =>
        cases h
        exact .fault hb hrun
  | write k =>
    simp only [step] at h
    split at h
    next res rest hb =>
      cases h
      exact .write hb
    · cases h
  | writeDone k success =>
    simp only [step] at h
    split at h
    next res rest hw =>
      cases h
      exact .writeDone hw
    · cases h

/-- `onRead` dispatches the endpoint of the request or writes the not found
response. -/
theorem readDone_cases (session : Session) (request : Req) (rest : List Req) :
    (∃ endpoint, findEndpoint request.url = some endpoint ∧
      session.readDone request rest =
        { session with
          reads := session.reads - 1, request := request, streambuf := rest,
          readLog := session.readLog ++ [request],
          blocks := session.blocks ++ [.queued endpoint] }) ∨
    (findEndpoint request.url = none ∧
      session.readDone request rest =
        { session with
          reads := session.reads - 1, request := request, streambuf := rest,
          readLog := session.readLog ++ [request],
          writes := session.writes ++ [notFoundResponse request],
          issued := session.issued ++ [notFoundResponse request] }) := by
  rw [readDone, onRead]
  cases hf : findEndpoint request.url with
  | none => exact Or.inr ⟨rfl, rfl⟩
  | some endpoint => exact Or.inl ⟨endpoint, rfl, rfl⟩

@[simp] theorem readDone_readLog (session : Session) (request : Req) (rest : List Req) :
    (session.readDone request rest).readLog = session.readLog ++ [request] := by
  rcases session.readDone_cases request rest with ⟨endpoint, -, heq⟩ | ⟨-, heq⟩ <;> rw [heq]

end Session

end Server
end SSVim
