/-
Completions inside the server.

All sessions send their completion requests to one sourcekitd, two for each call and in any
order among the calls.  It keeps a completion session for each file name and offset, and it
fails requests for reasons of its own.  The two requests of a call act as one: the server
answers completions from a table that is written once, or with the fallback.
-/
import SSVim.Server.Handled
import SSVim.Server.Shared
import SSVim.SourceKit.CompletionSession
import SSVim.Transition.Memo

namespace SSVim
namespace Server

open Transition Completer
open SourceKit (SessionKey sessionKey CompletionCall CompletionSessions)

/-! ## Completion requests -/

/-- The call of `CandidatesForLocationInFile` that the fields are for. -/
def CompletionFields.call (fields : CompletionFields) : CompletionCall :=
  { filename := fields.fileName, line := fields.line, column := fields.column,
    unsavedFiles := unsavedFiles fields.fileName fields.contents, flags := fields.flags }

/-- The request that opens a completion session for the body. -/
def openingRequest (body : Str) : Except Fault SourceKit.Request := do
  let fields ← completionFields body
  fields.call.opening

/-- What a request asks sourcekitd to complete, if it asks for completions. -/
def Req.opening? (request : Req) : Option SourceKit.Request :=
  if findEndpoint request.url = some .completions then (openingRequest request.body).toOption
  else none

/-- The request that a stretch of a block sends, with the reply that it goes on with. -/
def Block.sends? : Block → BlockAction → Option (SourceKit.Request × Option Str)
  | .decoded fields, .completionOpen reply =>
    (completionRequest .codeCompleteOpen fields.context).toOption.map fun request =>
      (request, reply)
  | .opened fields _, .completionUpdate reply =>
    (completionRequest .codeCompleteUpdate fields.context).toOption.map fun request =>
      (request, reply)
  | _, _ => none

def Process.sends? (p : Process) : Process.Action → Option (SourceKit.Request × Option Str)
  | .session i (.run k b) =>
    p.sessions[i]?.bind fun session =>
      (pick session.blocks k).bind fun picked => picked.1.sends? b
  | _ => none

/-! ## The server with its sourcekitd -/

structure Service where
  process : Process
  completions : AList fun _ : SessionKey => Str

namespace Service

def init (documents : Str → Str) : Service :=
  { process := Process.init documents, completions := ∅ }

/-- The reply to a request, and the completion sessions after it. -/
def reply (results : SourceKit.Request → Str) (request : SourceKit.Request) (fails : Bool)
    (completions : AList fun _ : SessionKey => Str) :
    Option Str × AList fun _ : SessionKey => Str :=
  let next := CompletionSessions.send results request
    { sessions := completions, outages := [fails] }
  (next.1, next.2.sessions)

/-- A step of the process.  Where it sends a completion request the reply is that of
sourcekitd, which fails the request if `fails`. -/
def step (results : SourceKit.Request → Str) : Machine Service (Process.Action × Bool)
  | s, (a, fails) =>
    match s.process.sends? a with
    | none => (Process.step s.process a).map fun process => { s with process := process }
    | some (request, received) =>
      let next := reply results request fails s.completions
      if received = next.1 then
        (Process.step s.process a).map fun process =>
          { process := process, completions := next.2 }
      else none

variable {results : SourceKit.Request → Str}

theorem reply_open {request : SourceKit.Request} {fails : Bool}
    {completions : AList fun _ : SessionKey => Str}
    (hu : request.uid? = some .codeCompleteOpen) :
    reply results request fails completions = (none, completions) ∨
      (completions.lookup (sessionKey request) = none ∧
        reply results request fails completions =
          (some (results request),
            completions.insert (sessionKey request) (results request))) := by
  cases fails with
  | true => exact Or.inl rfl
  | false =>
    simp only [reply, CompletionSessions.send, CompletionSessions.answer, hu]
    cases hkey : completions.lookup (sessionKey request) with
    | some stored => exact Or.inl rfl
    | none => exact Or.inr ⟨rfl, rfl⟩

theorem reply_update {request : SourceKit.Request} {fails : Bool}
    {completions : AList fun _ : SessionKey => Str}
    (hu : request.uid? = some .codeCompleteUpdate) :
    (reply results request fails completions).2 = completions ∧
      ((reply results request fails completions).1 = none ∨
        (reply results request fails completions).1 =
          completions.lookup (sessionKey request)) := by
  cases fails with
  | true => exact ⟨rfl, Or.inl rfl⟩
  | false =>
    simp only [reply, CompletionSessions.send, CompletionSessions.answer, hu]
    exact ⟨rfl, Or.inr rfl⟩

theorem step_cases {s s' : Service} {a : Process.Action} {fails : Bool}
    (h : step results s (a, fails) = some s') :
    Process.step s.process a = some s'.process ∧
      ((s.process.sends? a = none ∧ s'.completions = s.completions) ∨
        ∃ request received, s.process.sends? a = some (request, received) ∧
          received = (reply results request fails s.completions).1 ∧
          s'.completions = (reply results request fails s.completions).2) := by
  simp only [step] at h
  split at h
  next hsends =>
    obtain ⟨process, hp, rfl⟩ := Option.map_eq_some_iff.mp h
    exact ⟨hp, Or.inl ⟨hsends, rfl⟩⟩
  next request received hsends =>
    split at h
    next hreceived =>
      obtain ⟨process, hp, rfl⟩ := Option.map_eq_some_iff.mp h
      exact ⟨hp, Or.inr ⟨request, received, hsends, hreceived, rfl⟩⟩
    · cases h

/-- A run of the server with its sourcekitd is a run of the server. -/
theorem process_reaches {ok : Service → Process.Action × Bool → Prop} {s s' : Service}
    (h : (step results).Reaches ok s s') :
    Process.step.Reaches Machine.free s.process s'.process :=
  h.project fun _ _ _ _ ha => Or.inr ⟨_, trivial, (step_cases ha).1⟩

end Service

/-! ## Requests as askers -/

/-- The body of its response, as far as the block has it. -/
def Block.body? : Block → Option Str
  | .opened _ response => response
  | .result body => some body
  | .responding res => some res.body
  | _ => none

section
variable (results : SourceKit.Request → Str)

def Req.asker? (request : Req) (body : Option Str) : Option (Memo.Asker SessionKey Str) :=
  request.opening?.map fun opening =>
    { key := sessionKey opening, own := results opening, answer := body }

namespace Session

/-- The bodies of the responses that the session has issued, and that of its block. -/
def bodies (session : Session) : List Str :=
  session.issued.map Response.body ++ session.blocks.filterMap Block.body?

def asker? (session : Session) (n : Nat) : Option (Memo.Asker SessionKey Str) :=
  session.readLog[n]?.bind fun request => request.asker? results session.bodies[n]?

end Session

/-- The completion requests that the sessions have read, by session and position. -/
def Service.desk (s : Service) : Memo.Desk (Nat × Nat) SessionKey Str where
  table key := s.completions.lookup key
  askers id := s.process.sessions[id.1]?.bind fun session => session.asker? results id.2

/-! ## Steps that show -/

def Req.asks? (id : Nat × Nat) (request : Req) : Option (Memo.Action (Nat × Nat) SessionKey Str) :=
  request.opening?.map fun opening => .ask id (sessionKey opening) (results opening)

/-- A call has its response once a request of its two has succeeded, and else after the second
one. -/
def Block.serves? (id : Nat × Nat) :
    Block → BlockAction → Option (Memo.Action (Nat × Nat) SessionKey Str)
  | .decoded fields, .completionOpen (some _) =>
    (completionRequest .codeCompleteOpen fields.context).toOption.map fun _ => .serve id
  | .opened _ none, .completionUpdate (some _) => some (.serve id)
  | .opened _ none, .completionUpdate none => some (.refuse id)
  | _, _ => none

def Session.memo? (i : Nat) (session : Session) :
    Session.Action → Option (Memo.Action (Nat × Nat) SessionKey Str)
  | .readBuffered => session.streambuf.head?.bind (Req.asks? results (i, session.readLog.length))
  | .readSocket request _ => request.asks? results (i, session.readLog.length)
  | .run k b =>
    (pick session.blocks k).bind fun picked => picked.1.serves? (i, session.issued.length) b
  | _ => none

/-- The step of the table that a step of the server is. -/
def Service.memo? (s : Service) :
    Process.Action × Bool → Option (Memo.Action (Nat × Nat) SessionKey Str)
  | (.session i b, _) => s.process.sessions[i]?.bind fun session => session.memo? results i b
  | _ => none

end

section
variable {results : SourceKit.Request → Str} {session : Session} {n : Nat}

theorem Req.asker?_none {request : Req} {body : Option Str} (h : request.opening? = none) :
    request.asker? results body = none := by
  rw [asker?, h, Option.map_none]

theorem Req.opening?_of_url {request : Req} {endpoint : Endpoint}
    (h : findEndpoint request.url = some endpoint) (hne : endpoint ≠ .completions) :
    request.opening? = none := by
  rw [opening?, if_neg]
  rw [h, Option.some.injEq]
  exact hne

namespace Session

theorem bodies_working {block : Block} (hblocks : session.blocks = [block]) :
    session.bodies[session.issued.length]? = block.body? := by
  rw [bodies, List.getElem?_append_right (by simp), hblocks, List.length_map, Nat.sub_self]
  cases hbody : block.body? with
  | none => simp [hbody]
  | some body => simp [hbody]

theorem bodies_other {block : Block} (hblocks : session.blocks = [block])
    (hn : n ≠ session.issued.length) :
    session.bodies[n]? = (session.issued.map Response.body)[n]? := by
  rcases Nat.lt_or_gt_of_ne hn with hlt | hgt
  · exact List.getElem?_append_left (by rwa [List.length_map])
  · have hlength : (session.blocks.filterMap Block.body?).length ≤ 1 := by
      rw [hblocks]
      exact List.length_filterMap_le _ _
    rw [List.getElem?_eq_none, List.getElem?_eq_none]
    · rw [List.length_map]
      omega
    · rw [bodies, List.length_append, List.length_map]
      omega

/-- While a block works, it is for the request that has no response yet. -/
theorem asker?_working (hs : Serial session) {block : Block} (hblocks : session.blocks = [block]) :
    session.asker? results session.issued.length =
      session.request.asker? results block.body? := by
  have hmem : block ∈ session.blocks := by
    rw [hblocks]
    exact List.mem_singleton_self _
  rw [asker?, hs.current_index hmem, bodies_working hblocks]
  rfl

theorem asker?_run (hs : Serial session) {block : Block} (hblocks : session.blocks = [block])
    (block' : Block) (n : Nat) :
    (session.setBlocks [block']).asker? results n =
      if n = session.issued.length then session.request.asker? results block'.body?
      else session.asker? results n := by
  have hmem : block ∈ session.blocks := by
    rw [hblocks]
    exact List.mem_singleton_self _
  have hblocks' : (session.setBlocks [block']).blocks = [block'] := rfl
  split
  next hn =>
    subst hn
    have hbody := bodies_working hblocks'
    show session.readLog[session.issued.length]?.bind _ = _
    rw [hs.current_index hmem]
    show session.request.asker? results
      (session.setBlocks [block']).bodies[(session.setBlocks [block']).issued.length]? = _
    rw [hbody]
  next hn =>
    have hbody : (session.setBlocks [block']).bodies[n]? = session.bodies[n]? := by
      rw [bodies_other hblocks' hn, bodies_other hblocks hn]
      rfl
    show session.readLog[n]?.bind _ = _
    rw [hbody]
    rfl

theorem getElem?_concat {α : Type} (l : List α) (x : α) (n : Nat) :
    (l ++ [x])[n]? = if n = l.length then some x else l[n]? := by
  split
  next hn =>
    subst hn
    exact List.getElem?_concat_length
  next hn =>
    rcases Nat.lt_or_gt_of_ne hn with hlt | hgt
    · exact List.getElem?_append_left hlt
    · rw [List.getElem?_eq_none, List.getElem?_eq_none]
      · omega
      · rw [List.length_append, List.length_singleton]
        omega

/-- A request joins the askers when it is read, if it is for completions. -/
theorem asker?_read (hs : Serial session) (hr : 0 < session.reads) (request : Req)
    (rest : List Req) (n : Nat) :
    (session.readDone request rest).asker? results n =
      if n = session.readLog.length then request.asker? results none
      else session.asker? results n := by
  have hbusy := hs.busy
  have hblocks : session.blocks = [] := List.length_eq_zero_iff.mp (by omega)
  have hcounts : session.readLog.length = (session.issued.map Response.body).length := by
    rw [List.length_map, hs.counts, hblocks, List.length_nil, Nat.add_zero]
  have hbodies : session.bodies = session.issued.map Response.body := by
    rw [bodies, hblocks, List.filterMap_nil, List.append_nil]
  rw [asker?, readDone_readLog, getElem?_concat]
  rcases session.readDone_cases request rest with ⟨endpoint, -, heq⟩ | ⟨hurl, heq⟩
  · -- The block that is queued has no body yet.
    have hsame : (session.readDone request rest).bodies = session.bodies := by
      rw [heq, bodies, bodies, hblocks]
      rfl
    rw [hsame]
    split
    next hn =>
      rw [hn, hbodies, hcounts, List.getElem?_eq_none (le_refl _)]
      rfl
    · rfl
  · have hurl' : request.opening? = none := by
      rw [Req.opening?, hurl, if_neg nofun]
    split
    next hn =>
      rw [Req.asker?_none hurl']
      exact Req.asker?_none hurl'
    next hn =>
      have hother : (session.readDone request rest).bodies[n]? = session.bodies[n]? := by
        rw [heq, bodies, hbodies, hblocks, List.map_append, List.filterMap_nil, List.append_nil]
        show (_ ++ [_])[n]? = _
        rw [getElem?_concat, ← hcounts, if_neg hn]
      rw [hother]
      rfl

/-- Whoever has the response, it is the same. -/
theorem asker?_write {res : Response} (hblocks : session.blocks = [.responding res]) (n : Nat) :
    ((session.setBlocks []).write res).asker? results n = session.asker? results n := by
  have hbodies : ((session.setBlocks []).write res).bodies = session.bodies := by
    rw [bodies, bodies, hblocks]
    show (session.issued ++ [res]).map Response.body ++ [] = _
    rw [List.map_append, List.append_nil]
    rfl
  rw [asker?, asker?, hbodies]
  rfl

theorem memo?_run {i k : Nat} {block : Block} {rest : List Block} {b : BlockAction}
    (hb : pick session.blocks k = some (block, rest)) :
    session.memo? results i (.run k b) = block.serves? (i, session.issued.length) b := by
  rw [memo?, hb, Option.bind_some]

end Session

/-- The block that is picked is the only one. -/
theorem Serial.working {k : Nat} {block : Block} {rest : List Block} (hs : Serial session)
    (h : pick session.blocks k = some (block, rest)) : session.blocks = [block] ∧ rest = [] := by
  have hbusy := hs.busy
  have hlength := pick_length h
  obtain rfl : rest = [] := List.length_eq_zero_iff.mp (by omega)
  exact ⟨List.perm_singleton.mp (pick_perm h), rfl⟩

end

end Server
end SSVim
