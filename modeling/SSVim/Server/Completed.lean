/-
The table that completions are answered from.

A completion session is stored by the first request that opens it and never changed after
that.  So a call whose first request fails is answered by its second one, a call whose first
request succeeds is answered by that one already, and either way it is as if the two had been
sent at once.
-/
import SSVim.Server.Completing
import SSVim.Server.Labelled

namespace SSVim
namespace Server

open Transition Completer
open SourceKit (SessionKey sessionKey CompletionCall CompletionSessions)

namespace Service

variable {results : SourceKit.Request → Str} {s s' : Service}

/-! ## What is stored -/

theorem completionRequest_uid {u : SourceKit.RequestUID} {ctx : CompletionContext}
    {request : SourceKit.Request} (h : completionRequest u ctx = .ok request) :
    request.uid? = some u := by
  obtain ⟨offset, cleanFile, -, rfl⟩ := SourceKit.completionRequest_cases h
  rfl

theorem toOption_eq_some {ε α : Type} {x : Except ε α} {a : α} (h : x.toOption = some a) :
    x = .ok a := by
  cases x with
  | ok b => exact congrArg Except.ok (Option.some.inj h)
  | error e => cases h

theorem sends?_uid {p : Process} {a : Process.Action} {request : SourceKit.Request}
    {received : Option Str} (h : p.sends? a = some (request, received)) :
    request.uid? = some .codeCompleteOpen ∨ request.uid? = some .codeCompleteUpdate := by
  unfold Process.sends? at h
  split at h
  next i k b =>
    obtain ⟨session, -, hsession⟩ := Option.bind_eq_some_iff.mp h
    obtain ⟨⟨block, rest⟩, -, hblock⟩ := Option.bind_eq_some_iff.mp hsession
    simp only [Block.sends?] at hblock
    split at hblock
    · obtain ⟨request', hrequest, heq⟩ := Option.map_eq_some_iff.mp hblock
      cases heq
      exact Or.inl (completionRequest_uid (toOption_eq_some hrequest))
    · obtain ⟨request', hrequest, heq⟩ := Option.map_eq_some_iff.mp hblock
      cases heq
      exact Or.inr (completionRequest_uid (toOption_eq_some hrequest))
    · cases hblock
  · cases h

theorem quiet_step {a : Process.Action} {fails : Bool}
    (h : step results s (a, fails) = some s') (hnone : s.process.sends? a = none) :
    s'.completions = s.completions := by
  obtain ⟨-, ⟨-, hsame⟩ | ⟨request, received, hsends, -⟩⟩ := step_cases h
  · exact hsame
  · rw [hnone] at hsends
    cases hsends

/-- No step takes away or changes what sourcekitd has stored. -/
theorem completions_step {a : Process.Action} {fails : Bool}
    (h : step results s (a, fails) = some s') {key : SessionKey} {stored : Str}
    (hkey : s.completions.lookup key = some stored) :
    s'.completions.lookup key = some stored := by
  obtain ⟨-, ⟨-, hsame⟩ | ⟨request, received, hsends, -, hnext⟩⟩ := step_cases h
  · rw [hsame, hkey]
  · rcases sends?_uid hsends with hu | hu
    · rcases reply_open hu with hnone | ⟨hfree, hfirst⟩
      · rw [hnext, hnone, hkey]
      · rw [hnext, hfirst, AList.lookup_insert_ne, hkey]
        rintro rfl
        rw [hkey] at hfree
        cases hfree
    · rw [hnext, (reply_update hu).1, hkey]

/-! ## The two requests of a call -/

theorem sends?_run {p : Process} {i k : Nat} {session : Session} {block : Block}
    {rest : List Block} (hi : p.sessions[i]? = some session)
    (hb : pick session.blocks k = some (block, rest)) (b : BlockAction) :
    p.sends? (.session i (.run k b)) = block.sends? b := by
  rw [Process.sends?, hi, Option.bind_some, hb, Option.bind_some]

section
variable {i k : Nat} {session : Session} {block : Block} {rest : List Block}
  {fields : CompletionFields} {request : SourceKit.Request} {received response : Option Str}
  {fails : Bool}

theorem other_step {b : BlockAction}
    (h : step results s (.session i (.run k b), fails) = some s')
    (hi : s.process.sessions[i]? = some session)
    (hb : pick session.blocks k = some (block, rest)) (hother : block.sends? b = none) :
    s'.completions = s.completions := by
  refine quiet_step h ?_
  rw [sends?_run hi hb, hother]

/-- The first request of a call has no results unless it stores them. -/
theorem open_step
    (h : step results s (.session i (.run k (.completionOpen received)), fails) = some s')
    (hi : s.process.sessions[i]? = some session)
    (hb : pick session.blocks k = some (.decoded fields, rest))
    (hrequest : completionRequest .codeCompleteOpen fields.context = .ok request) :
    (received = none ∧ s'.completions = s.completions) ∨
      (s.completions.lookup (sessionKey request) = none ∧ received = some (results request) ∧
        s'.completions = s.completions.insert (sessionKey request) (results request)) := by
  have hsends : s.process.sends? (.session i (.run k (.completionOpen received))) =
      some (request, received) := by
    rw [sends?_run hi hb, Block.sends?, hrequest]
    rfl
  obtain ⟨-, ⟨hnone, -⟩ | ⟨request', received', hsome, hreceived, hnext⟩⟩ := step_cases h
  · rw [hsends] at hnone
    cases hnone
  · rw [hsends, Option.some.injEq, Prod.mk.injEq] at hsome
    obtain ⟨rfl, rfl⟩ := hsome
    rcases reply_open (completionRequest_uid hrequest) with hfailed | ⟨hfree, hfirst⟩
    · rw [hfailed] at hreceived hnext
      exact Or.inl ⟨hreceived, hnext⟩
    · rw [hfirst] at hreceived hnext
      exact Or.inr ⟨hfree, hreceived, hnext⟩

/-- The second one has what is stored for the first. -/
theorem update_step
    (h : step results s (.session i (.run k (.completionUpdate received)), fails) = some s')
    (hi : s.process.sessions[i]? = some session)
    (hb : pick session.blocks k = some (.opened fields response, rest))
    (hrequest : completionRequest .codeCompleteOpen fields.context = .ok request) :
    s'.completions = s.completions ∧
      (received = none ∨ received = s.completions.lookup (sessionKey request)) := by
  obtain ⟨updating, hupdating, -, huid, hkey⟩ :=
    SourceKit.opening_updating (show fields.call.opening = .ok request from hrequest)
  have hupdating' : completionRequest .codeCompleteUpdate fields.context = .ok updating := hupdating
  have hsends : s.process.sends? (.session i (.run k (.completionUpdate received))) =
      some (updating, received) := by
    rw [sends?_run hi hb, Block.sends?, hupdating']
    rfl
  obtain ⟨-, ⟨hnone, -⟩ | ⟨request', received', hsome, hreceived, hnext⟩⟩ := step_cases h
  · rw [hsends] at hnone
    cases hnone
  · rw [hsends, Option.some.injEq, Prod.mk.injEq] at hsome
    obtain ⟨rfl, rfl⟩ := hsome
    obtain ⟨hsame, hreply⟩ := reply_update huid
    rw [← hkey]
    exact ⟨hnext.trans hsame, hreply.imp hreceived.trans hreceived.trans⟩

end

/-- A call that has the results of its first request has them stored. -/
def Held (s : Service) : Prop :=
  ∀ (i : Nat) session, s.process.sessions[i]? = some session →
    ∀ fields response request, Block.opened fields (some response) ∈ session.blocks →
      completionRequest .codeCompleteOpen fields.context = .ok request →
      s.completions.lookup (sessionKey request) = some response

theorem held_step {a : Process.Action} {fails : Bool} (hh : s.Held)
    (h : step results s (a, fails) = some s') : s'.Held := by
  intro j session' hj fields response request hmem hrequest
  have hp := (step_cases h).1
  rcases Process.session_prev hj hp with ⟨session, hj₀⟩ | ⟨socket, rfl⟩
  · obtain ⟨session₁, hj₁, hnext⟩ := Process.session_next hj₀ hp
    rw [hj, Option.some.injEq] at hj₁
    subst hj₁
    have hold : Block.opened fields (some response) ∈ session.blocks →
        s'.completions.lookup (sessionKey request) = some response := fun hmem =>
      completions_step h (hh j session hj₀ fields response request hmem hrequest)
    rcases hnext with rfl | ⟨b, effect, rfl, hs⟩
    · exact hold hmem
    · cases Session.stepped_of_step hs with
      | readFails | shut | fault | writeDone => exact hold hmem
      | write hb => exact hold (pick_subset hb hmem)
      | @readBuffered request rest | @readSocket request rest =>
        rcases session.readDone_cases request rest with ⟨endpoint, -, heq⟩ | ⟨-, heq⟩
        · rw [heq] at hmem
          rcases List.mem_append.mp hmem with hmem | hlast
          · exact hold hmem
          · cases List.mem_singleton.mp hlast
        · rw [heq] at hmem
          exact hold hmem
      | run hb hrun =>
        rcases List.mem_append.mp hmem with hmem | hlast
        · exact hold (pick_subset hb hmem)
        · have heq := List.mem_singleton.mp hlast
          cases Block.ran_of_run hrun with
          | completionOpen hopening =>
            -- The results of the first request are what it stores.
            injection heq with hfields hresponse
            subst hfields
            rw [handleResponse_snd, Option.or_none] at hresponse
            subst hresponse
            rcases open_step h hj₀ hb hrequest with ⟨hnone, -⟩ | ⟨-, hresults, hinsert⟩
            · cases hnone
            · rw [hinsert, AList.lookup_insert, hresults]
          | status | shutdown | completions | diagnostics | slowTest | completionUpdate | enterCall
          | leaveCall | fire | build => cases heq
  · cases hmem

/-! ## Sessions on the desk -/

section
variable {i m : Nat} {session session' : Session}

theorem desk_askers (hi : s.process.sessions[i]? = some session)
    (hset : s'.process.sessions = s.process.sessions.set i session') (j n : Nat) :
    (s'.desk results).askers (j, n) =
      if j = i then session'.asker? results n else (s.desk results).askers (j, n) := by
  show (s'.process.sessions[j]?.bind fun session => session.asker? results n) = _
  rw [hset]
  split
  next hj =>
    rw [hj, Process.set_sessions hi]
    rfl
  next hj =>
    rw [List.getElem?_set_ne (Ne.symm hj)]
    rfl

theorem askers_of_session (hi : s.process.sessions[i]? = some session) (n : Nat) :
    (s.desk results).askers (i, n) = session.asker? results n := by
  show s.process.sessions[i]?.bind _ = _
  rw [hi]
  rfl

theorem desk_ext {desk desk' : Memo.Desk (Nat × Nat) SessionKey Str}
    (htable : ∀ key, desk.table key = desk'.table key)
    (haskers : ∀ j n, desk.askers (j, n) = desk'.askers (j, n)) : desk = desk' := by
  obtain ⟨table, askers⟩ := desk
  obtain ⟨table', askers'⟩ := desk'
  obtain rfl : table = table' := funext htable
  obtain rfl : askers = askers' := funext fun id => haskers id.1 id.2
  rfl

theorem desk_same (hi : s.process.sessions[i]? = some session)
    (hset : s'.process.sessions = s.process.sessions.set i session')
    (hcompletions : s'.completions = s.completions)
    (hasker : ∀ n, session'.asker? results n = session.asker? results n) :
    s'.desk results = s.desk results := by
  refine desk_ext (fun key => congrArg (AList.lookup key) hcompletions) fun j n => ?_
  rw [desk_askers hi hset]
  split
  next hj => rw [hasker, hj, askers_of_session hi]
  · rfl

/-- A step that changes one asker of a session, and perhaps the table. -/
theorem desk_set {desk : Memo.Desk (Nat × Nat) SessionKey Str}
    {asker : Memo.Asker SessionKey Str} (hi : s.process.sessions[i]? = some session)
    (hset : s'.process.sessions = s.process.sessions.set i session')
    (htable : ∀ key, s'.completions.lookup key = desk.table key)
    (haskers : desk.askers = (s.desk results).askers)
    (hasker : ∀ n, session'.asker? results n =
      if n = m then some asker else session.asker? results n) :
    s'.desk results = desk.set (i, m) asker := by
  refine desk_ext htable fun j n => ?_
  rw [desk_askers hi hset]
  by_cases hj : j = i
  · subst hj
    rw [if_pos rfl, hasker]
    split
    next hn =>
      rw [hn]
      exact Memo.set_self.symm
    next hn =>
      rw [Memo.set_ne (by simpa using hn), haskers, askers_of_session hi]
  · rw [if_neg hj, Memo.set_ne (by simp [hj]), haskers]

end

/-! ## What a step does to the desk -/

/-- The step from `s` to `s'` is the labelled one on the desk. -/
inductive Shows (results : SourceKit.Request → Str) (s s' : Service) :
    Option (Memo.Action (Nat × Nat) SessionKey Str) → Prop where
  | quiet (h : s'.desk results = s.desk results) : Shows results s s' none
  | served {c : Memo.Action (Nat × Nat) SessionKey Str}
      (h : Memo.step emptyCompletions (s.desk results) c = some (s'.desk results)) :
      Shows results s s' (some c)

theorem opening?_of_fields {request : Req} {fields : CompletionFields}
    {asked : SourceKit.Request} (hurl : findEndpoint request.url = some .completions)
    (hfields : completionFields request.body = .ok fields)
    (hasked : completionRequest .codeCompleteOpen fields.context = .ok asked) :
    request.opening? = some asked := by
  rw [Req.opening?, if_pos hurl, openingRequest, hfields]
  show (completionRequest .codeCompleteOpen fields.context).toOption = some asked
  rw [hasked]
  rfl

section
variable {i k : Nat} {session session' : Session} {block block' : Block} {rest : List Block}
  {asked : SourceKit.Request} {b : BlockAction} {fails : Bool}

/-- A block that faults is not served. -/
theorem serves?_fault {request : Req} {fault : Fault} (hfor : block.For request)
    (hrun : block.run request b = some (.error fault)) (id : Nat × Nat) :
    block.sends? b = none ∧ block.serves? id b = none := by
  unfold Block.run at hrun
  split at hrun
  case h_6 fields reply =>
    have hrequest := map_eq_error (Option.some.inj hrun)
    refine ⟨by rw [Block.sends?, hrequest]; rfl, ?_⟩
    cases reply with
    | none => rfl
    | some reply =>
      rw [Block.serves?, hrequest]
      rfl
  case h_7 fields response reply =>
    -- The second request faults only where the first one would have.
    obtain ⟨-, -, opening, hopening⟩ := hfor
    have hempty := completionRequest_error (map_eq_error (Option.some.inj hrun))
    rw [completionRequest_empty hempty] at hopening
    cases hopening
  all_goals first
    | cases hrun
    | exact ⟨rfl, rfl⟩

/-- A stretch that does not change what the client is going to have. -/
theorem desk_run_same (hs : Serial session) (hi : s.process.sessions[i]? = some session)
    (hblocks : session.blocks = [block])
    (hset : s'.process.sessions = s.process.sessions.set i (session.setBlocks [block']))
    (hcompletions : s'.completions = s.completions)
    (hbody : session.request.asker? results block'.body? =
      session.request.asker? results block.body?) :
    s'.desk results = s.desk results := by
  refine desk_same hi hset hcompletions fun n => ?_
  rw [Session.asker?_run hs hblocks]
  split
  next hn => rw [hn, hbody, Session.asker?_working hs hblocks]
  · rfl

/-- A stretch after which it is known what the client is going to have. -/
theorem desk_run_set (hs : Serial session) (hi : s.process.sessions[i]? = some session)
    (hblocks : session.blocks = [block])
    (hset : s'.process.sessions = s.process.sessions.set i (session.setBlocks [block']))
    {desk : Memo.Desk (Nat × Nat) SessionKey Str}
    (htable : ∀ key, s'.completions.lookup key = desk.table key)
    (haskers : desk.askers = (s.desk results).askers)
    (hasked : session.request.opening? = some asked) {body : Str}
    (hbody : block'.body? = some body) :
    s'.desk results =
      desk.set (i, session.issued.length) ⟨sessionKey asked, results asked, some body⟩ := by
  refine desk_set hi hset htable haskers fun n => ?_
  rw [Session.asker?_run hs hblocks, hbody, Req.asker?, hasked]
  rfl

theorem askers_working (hs : Serial session) (hi : s.process.sessions[i]? = some session)
    (hblocks : session.blocks = [block]) (hasked : session.request.opening? = some asked)
    (hbody : block.body? = none) :
    (s.desk results).askers (i, session.issued.length) =
      some ⟨sessionKey asked, results asked, none⟩ := by
  rw [askers_of_session hi, Session.asker?_working hs hblocks, Req.asker?, hasked, hbody]
  rfl

theorem desk_open (hs : Serial session) {fields : CompletionFields} {received : Option Str}
    (h : step results s (.session i (.run k (.completionOpen received)), fails) = some s')
    (hi : s.process.sessions[i]? = some session)
    (hb : pick session.blocks k = some (.decoded fields, rest))
    (hset : s'.process.sessions = s.process.sessions.set i
      (session.setBlocks [.opened fields (handleResponse received none).2]))
    (hrequest : completionRequest .codeCompleteOpen fields.context = .ok asked) :
    Shows results s s' (Block.serves? (i, session.issued.length) (.decoded fields)
      (.completionOpen received)) := by
  obtain ⟨hblocks, rfl⟩ := hs.working hb
  obtain ⟨hurl, hfields⟩ := hs.current _ (pick_mem hb)
  have hasked := opening?_of_fields hurl hfields hrequest
  rcases open_step h hi hb hrequest with ⟨rfl, hsame⟩ | ⟨hfree, rfl, hinsert⟩
  · exact .quiet (desk_run_same hs hi hblocks hset hsame rfl)
  · -- The call is the first one with its key.
    rw [Block.serves?, hrequest]
    refine .served ?_
    have hasker : (s.desk results).askers (i, session.issued.length) =
        some ⟨sessionKey asked, results asked, none⟩ :=
      askers_working hs hi hblocks hasked rfl
    have hvalue : ((s.desk results).table (sessionKey asked)).getD (results asked) =
        results asked := by
      show (s.completions.lookup (sessionKey asked)).getD _ = _
      rw [hfree]
      rfl
    rw [Memo.step_serve hasker hvalue]
    have htable : ∀ key, s'.completions.lookup key =
        ((s.desk results).store (sessionKey asked) (results asked)).table key := by
      intro key
      rw [hinsert]
      by_cases hkey : key = sessionKey asked
      · rw [hkey, AList.lookup_insert, Memo.store_self]
      · rw [AList.lookup_insert_ne hkey, Memo.store_ne hkey]
        rfl
    exact congrArg some (desk_run_set hs hi hblocks hset htable rfl hasked rfl).symm

theorem desk_update (hs : Serial session) (hh : s.Held) {fields : CompletionFields}
    {received response : Option Str}
    (h : step results s (.session i (.run k (.completionUpdate received)), fails) = some s')
    (hi : s.process.sessions[i]? = some session)
    (hb : pick session.blocks k = some (.opened fields response, rest))
    (hset : s'.process.sessions = s.process.sessions.set i
      (session.setBlocks [.result ((handleResponse received response).2.getD emptyCompletions)])) :
    Shows results s s' (Block.serves? (i, session.issued.length) (.opened fields response)
      (.completionUpdate received)) := by
  obtain ⟨hblocks, rfl⟩ := hs.working hb
  obtain ⟨hurl, hfields, asked, hrequest⟩ := hs.current _ (pick_mem hb)
  have hasked := opening?_of_fields hurl hfields hrequest
  obtain ⟨hsame, hreceived⟩ := update_step h hi hb hrequest
  have htable : ∀ key, s'.completions.lookup key = (s.desk results).table key :=
    fun key => congrArg (AList.lookup key) hsame
  cases response with
  | some response =>
    -- Both requests have what is stored under the key.
    have hstored := hh i session hi fields response asked (pick_mem hb) hrequest
    refine .quiet (desk_run_same hs hi hblocks hset hsame ?_)
    rcases hreceived with rfl | rfl
    · rfl
    · rw [hstored]
      rfl
  | none =>
    have hasker : (s.desk results).askers (i, session.issued.length) =
        some ⟨sessionKey asked, results asked, none⟩ :=
      askers_working hs hi hblocks hasked rfl
    cases received with
    | none =>
      refine .served ?_
      rw [Memo.step_refuse hasker]
      exact congrArg some (desk_run_set hs hi hblocks hset htable rfl hasked rfl).symm
    | some body =>
      have hstored : (s.desk results).table (sessionKey asked) = some body := by
        rcases hreceived with hnone | hlookup
        · cases hnone
        · exact hlookup.symm
      refine .served ?_
      rw [Memo.step_serve hasker (by rw [hstored, Option.getD_some]), Memo.store_stored hstored]
      exact congrArg some (desk_run_set hs hi hblocks hset htable rfl hasked rfl).symm

theorem desk_run (hs : Serial session) (hh : s.Held) {effect : Effect}
    (h : step results s (.session i (.run k b), fails) = some s')
    (hi : s.process.sessions[i]? = some session)
    (hb : pick session.blocks k = some (block, rest))
    (hrun : block.run session.request b = some (.ok (block', effect)))
    (hset : s'.process.sessions = s.process.sessions.set i (session.setBlocks (rest ++ [block']))) :
    Shows results s s' (block.serves? (i, session.issued.length) b) := by
  obtain ⟨hblocks, rfl⟩ := hs.working hb
  have hfor := hs.current _ (pick_mem hb)
  have hother : ∀ {endpoint : Endpoint}, findEndpoint session.request.url = some endpoint →
      endpoint ≠ .completions → block.sends? b = none → s'.desk results = s.desk results := by
    intro endpoint hurl hne hsends
    have hnone := Req.opening?_of_url hurl hne
    refine desk_run_same hs hi hblocks hset (other_step h hi hb hsends) ?_
    rw [Req.asker?_none hnone, Req.asker?_none hnone]
  cases Block.ran_of_run hrun with
  | completionOpen hopening => exact desk_open hs h hi hb hset hopening
  | completionUpdate => exact desk_update hs hh h hi hb hset
  | completions =>
    exact .quiet (desk_run_same hs hi hblocks hset (other_step h hi hb rfl) rfl)
  | @build body =>
    refine .quiet (desk_run_same hs hi hblocks hset (other_step h hi hb rfl) ?_)
    show session.request.asker? results (some (okResponse session.request body).body) = _
    rw [okResponse_body]
    rfl
  | status | shutdown | diagnostics | slowTest | fire => exact .quiet (hother hfor nofun rfl)
  | enterCall | leaveCall => exact .quiet (hother hfor.1 nofun rfl)

theorem desk_read (hs : Serial session) (hr : 0 < session.reads) (request : Req) (rest : List Req)
    (hi : s.process.sessions[i]? = some session)
    (hset : s'.process.sessions = s.process.sessions.set i (session.readDone request rest))
    (hcompletions : s'.completions = s.completions) :
    Shows results s s' (request.asks? results (i, session.readLog.length)) := by
  have hnew : session.asker? results session.readLog.length = none := by
    rw [Session.asker?, List.getElem?_eq_none (le_refl _)]
    rfl
  have hread : ∀ n, (session.readDone request rest).asker? results n = _ :=
    Session.asker?_read hs hr request rest
  rw [Req.asks?]
  cases hasked : request.opening? with
  | none =>
    refine .quiet (desk_same hi hset hcompletions fun n => ?_)
    rw [hread]
    split
    next hn => rw [Req.asker?_none hasked, hn, hnew]
    · rfl
  | some asked =>
    refine .served ?_
    rw [Memo.step_ask (by rw [askers_of_session hi, hnew])]
    refine congrArg some (desk_set hi hset (fun key => ?_) rfl fun n => ?_).symm
    · exact congrArg (AList.lookup key) hcompletions
    · rw [hread, Req.asker?, hasked]
      rfl

end

/-! ## One table -/

theorem desk_session_step {i : Nat} {b : Session.Action} {fails : Bool} (hh : s.Held)
    (hserial : ∀ (i : Nat) session, s.process.sessions[i]? = some session → Serial session)
    (h : step results s (.session i b, fails) = some s') :
    Shows results s s' (s.memo? results (.session i b, fails)) := by
  obtain ⟨session, session', effect, hi, hstep, hset, -, -⟩ :=
    Process.session_step (step_cases h).1
  have hs := hserial i session hi
  have hmemo : s.memo? results (.session i b, fails) = session.memo? results i b := by
    rw [memo?, hi, Option.bind_some]
  rw [hmemo]
  cases Session.stepped_of_step hstep with
  | @readBuffered request rest hr hbuffered =>
    have hlabel : session.memo? results i .readBuffered =
        request.asks? results (i, session.readLog.length) := by
      rw [Session.memo?, hbuffered]
      rfl
    rw [hlabel]
    exact desk_read hs hr request rest hi hset (quiet_step h rfl)
  | @readSocket request rest hr => exact desk_read hs hr request rest hi hset (quiet_step h rfl)
  | readFails | shut | writeDone =>
    exact .quiet (desk_same hi hset (quiet_step h rfl) fun _ => rfl)
  | @run k a block rest block' effect hb hrun =>
    rw [Session.memo?_run hb]
    exact desk_run hs hh h hi hb hrun hset
  | @fault k a block rest fault hb hrun =>
    obtain ⟨hsends, hserves⟩ :=
      serves?_fault (hs.current _ (pick_mem hb)) hrun (i, session.issued.length)
    rw [Session.memo?_run hb, hserves]
    exact .quiet (desk_same hi hset (other_step h hi hb hsends) fun _ => rfl)
  | @write k res rest hb =>
    obtain ⟨hblocks, rfl⟩ := hs.working hb
    exact .quiet (desk_same hi hset (quiet_step h rfl) (Session.asker?_write hblocks))

theorem desk_step {a : Process.Action} {fails : Bool} (hh : s.Held)
    (hserial : ∀ (i : Nat) session, s.process.sessions[i]? = some session → Serial session)
    (h : step results s (a, fails) = some s') :
    Shows results s s' (s.memo? results (a, fails)) := by
  have hsame : s'.completions = s.completions → s'.process.sessions = s.process.sessions →
      s'.desk results = s.desk results := by
    intro hcompletions hsessions
    refine desk_ext (fun key => congrArg (AList.lookup key) hcompletions) fun j n => ?_
    show s'.process.sessions[j]?.bind _ = _
    rw [hsessions]
    rfl
  cases a with
  | session i b => exact desk_session_step hh hserial h
  | sema b => exact .quiet (hsame (quiet_step h rfl) (Process.sema_step (step_cases h).1).1)
  | exit => exact .quiet (hsame (quiet_step h rfl) (Process.exit_step (step_cases h).1).1)
  | acceptor b =>
    -- A session that starts has read nothing.
    refine .quiet (desk_ext (fun key => congrArg (AList.lookup key) (quiet_step h rfl)) ?_)
    intro j n
    show s'.process.sessions[j]?.bind _ = s.process.sessions[j]?.bind _
    have hp := (step_cases h).1
    cases hj : s.process.sessions[j]? with
    | some session =>
      obtain ⟨session', hj', hnext⟩ := Process.session_next hj hp
      rw [hj']
      rcases hnext with rfl | ⟨b, effect, heq, -⟩
      · rfl
      · cases heq
    | none =>
      cases hj' : s'.process.sessions[j]? with
      | none => rfl
      | some session' =>
        rcases Process.session_prev hj' hp with ⟨session, hold⟩ | ⟨socket, rfl⟩
        · rw [hj] at hold
          cases hold
        · rfl

/-- The server answers completions from a table that is written once, or with the fallback:
of its steps, the reading of a request for completions and one of the two requests of each
call are the steps of the table, and no other step shows. -/
theorem serves_by_table (results : SourceKit.Request → Str) (documents : Str → Str) :
    Machine.Refines (step results) Machine.free (init documents) (Memo.step emptyCompletions)
      Memo.empty (fun s => s.desk results) (fun s => s.memo? results) := by
  have hinit : (init documents).desk results = Memo.empty :=
    desk_ext (fun _ => rfl) fun _ _ => rfl
  have hheld : ∀ {s : Service}, (step results).Reaches Machine.free (init documents) s → s.Held :=
    fun h => h.invariant (fun s a s' hs _ ha => held_step hs ha) fun i session hi => by cases hi
  have hserial : ∀ {s : Service}, (step results).Reaches Machine.free (init documents) s →
      ∀ (i : Nat) session, s.process.sessions[i]? = some session → Serial session :=
    fun h i session hi => sessions_serial (process_reaches h) hi
  have hshows : ∀ {s s' : Service} {a : Process.Action × Bool},
      (step results).Reaches Machine.free (init documents) s → step results s a = some s' →
      Shows results s s' (s.memo? results a) :=
    fun hs ha => desk_step (hheld hs) (hserial hs) ha
  constructor
  · exact hinit
  · intro s a s' hs _ ha hnone
    have hshow := hshows hs ha
    rw [hnone] at hshow
    cases hshow with
    | quiet h => exact h
  · intro s a s' c hs _ ha hc
    have hshow := hshows hs ha
    rw [hc] at hshow
    cases hshow with
    | served h => exact h

/-! ## What reaches the clients -/

/-- A session has read a request that asks sourcekitd for these completions. -/
def Asked (s : Service) (asked : SourceKit.Request) : Prop :=
  ∃ (i : Nat) (session : Session), s.process.sessions[i]? = some session ∧
    ∃ request ∈ session.readLog, request.opening? = some asked

/-- The session has issued `body` for the request in this place of its log. -/
def Completed (s : Service) (i k : Nat) (asked : SourceKit.Request) (body : Str) : Prop :=
  ∃ session request, s.process.sessions[i]? = some session ∧
    session.readLog[k]? = some request ∧ request.opening? = some asked ∧
    session.issued[k]? = some (okResponse request body)

theorem answers_opening {request : Req} {res : Response} (h : Answers request res)
    (hurl : findEndpoint request.url = some .completions) :
    ∃ asked body, request.opening? = some asked ∧ res = okResponse request body := by
  obtain ⟨outcome, hres⟩ := h
  rw [response, hurl] at hres
  obtain ⟨next, hendpoint, heq⟩ := bind_eq_ok hres
  cases heq
  obtain ⟨fields, hfields, hrest⟩ := bind_eq_ok hendpoint
  obtain ⟨⟨body, replies⟩, hcandidates, heq⟩ := bind_eq_ok hrest
  cases heq
  cases hasked : fields.call.opening with
  | ok asked => exact ⟨asked, body, opening?_of_fields hurl hfields hasked, rfl⟩
  | error fault =>
    have hfault : ∃ fault', fields.candidates replay [outcome.opened, outcome.updated] =
        .error fault' := SourceKit.candidates_fault hasked
    obtain ⟨fault', hfault⟩ := hfault
    rw [hfault] at hcandidates
    cases hcandidates

theorem Completed.asker {i k : Nat} {asked : SourceKit.Request} {body : Str}
    (h : s.Completed i k asked body) :
    (s.desk results).askers (i, k) = some ⟨sessionKey asked, results asked, some body⟩ := by
  obtain ⟨session, request, hi, hr, hasked, hk⟩ := h
  have hbody : session.bodies[k]? = some body := by
    rw [Session.bodies, List.getElem?_append_left, List.getElem?_map, hk, Option.map_some,
      okResponse_body]
    rw [List.length_map]
    exact (List.getElem?_eq_some_iff.mp hk).choose
  rw [askers_of_session hi, Session.asker?, hr, hbody]
  show request.asker? results (some body) = _
  rw [Req.asker?, hasked]
  rfl

theorem asked_of_asker {id : Nat × Nat} {asker : Memo.Asker SessionKey Str}
    (h : (s.desk results).askers id = some asker) :
    ∃ asked, s.Asked asked ∧ asker.key = sessionKey asked ∧ asker.own = results asked := by
  obtain ⟨session, hi, hasker⟩ := Option.bind_eq_some_iff.mp h
  obtain ⟨request, hr, hrequest⟩ := Option.bind_eq_some_iff.mp hasker
  obtain ⟨asked, hasked, rfl⟩ := Option.map_eq_some_iff.mp hrequest
  exact ⟨asked, ⟨id.1, session, hi, request, List.mem_of_getElem? hr, hasked⟩, rfl, rfl⟩

/-- In every run of the server, a response to a request for completions has the fallback, or
what sourcekitd computes for a request for the same file and offset that some session has
read, and all responses for one file and offset that do not have the fallback are alike. -/
theorem completions_delivered (results : SourceKit.Request → Str) (documents : Str → Str)
    {s : Service} (h : (step results).Reaches Machine.free (init documents) s) :
    (∀ (i k : Nat) session request res, s.process.sessions[i]? = some session →
      session.readLog[k]? = some request → session.issued[k]? = some res →
      findEndpoint request.url = some .completions →
      ∃ asked body, s.Completed i k asked body ∧ res = okResponse request body ∧
        (body = emptyCompletions ∨ ∃ asked', s.Asked asked' ∧
          sessionKey asked' = sessionKey asked ∧ body = results asked')) ∧
    (∀ (i k j l : Nat) asked asked' body body', s.Completed i k asked body →
      s.Completed j l asked' body' → sessionKey asked = sessionKey asked' →
      body = emptyCompletions ∨ body' = emptyCompletions ∨ body = body') := by
  have hconsistent : Memo.Consistent emptyCompletions (s.desk results) :=
    Memo.consistent_reaches ((serves_by_table results documents).reaches_init h)
      (Memo.consistent_empty _)
  constructor
  · intro i k session request res hi hr hk hurl
    have hserial : Serial session := sessions_serial (process_reaches h) hi
    obtain ⟨request', hr', hanswers⟩ := hserial.paired k res hk
    rw [hr, Option.some.injEq] at hr'
    subst hr'
    obtain ⟨asked, body, hasked, rfl⟩ := answers_opening hanswers hurl
    have hcompleted : s.Completed i k asked body := ⟨session, request, hi, hr, hasked, hk⟩
    refine ⟨asked, body, hcompleted, rfl, ?_⟩
    refine (hconsistent.answered _ _ _ hcompleted.asker rfl).imp_right fun hstored => ?_
    obtain ⟨id, asker, hid, hkey, hown⟩ := hconsistent.stored _ _ hstored
    obtain ⟨asked', hasked', hkey', hown'⟩ := asked_of_asker hid
    exact ⟨asked', hasked', hkey'.symm.trans hkey, hown.symm.trans hown'⟩
  · intro i k j l asked asked' body body' hcompleted hcompleted' hkey
    exact hconsistent.agree hcompleted.asker hcompleted'.asker hkey rfl rfl

def completionsRequest (contents : String) : Req :=
  { url := lit "/completions", version := 11
    body := lit "\x7b\"file_name\":\"a\",\"line\":1,\"column\":1,\"contents\":\"" ++ lit contents ++
      lit "\",\"flags\":[]\x7d" }

/-- Two clients complete at one place of one file with different buffers, and the second one
is answered first. -/
def twoBuffers : List Process.Action :=
  Process.accepting ++ Process.accepting ++
    [.session 0 (.readSocket (completionsRequest "a.") []),
     .session 1 (.readSocket (completionsRequest "b.") []),
     .session 0 (.run 0 .start), .session 1 (.run 0 .start),
     .session 0 (.run 0 (.completionOpen (some (lit "a.")))),
     .session 1 (.run 0 (.completionOpen none)),
     .session 1 (.run 0 (.completionUpdate (some (lit "a.")))),
     .session 1 (.run 0 .build), .session 1 (.write 0)]

theorem twoBuffers_delivered :
    ∃ s asked asked', (step fun request => request.stringD .sourceText).runIf Machine.free
        (init fun _ => []) (twoBuffers.map fun a => (a, false)) = some s ∧
      s.Completed 1 0 asked (lit "a.") ∧ asked.stringD .sourceText = lit "b." ∧
      s.Asked asked' ∧ sessionKey asked' = sessionKey asked ∧
      lit "a." = asked'.stringD .sourceText := by
  have hrun : ((step fun request => request.stringD .sourceText).runIf Machine.free
      (init fun _ => []) (twoBuffers.map fun a => (a, false))).bind
      (fun s => s.process.sessions[1]?.map fun session => (session.readLog, session.issued)) =
      some ([completionsRequest "b."], [okResponse (completionsRequest "b.") (lit "a.")]) := by
    decide +kernel
  have htext : (completionsRequest "b.").opening?.map (fun asked => asked.stringD .sourceText) =
      some (lit "b.") := by
    decide +kernel
  obtain ⟨s, hs, hobs⟩ := Option.bind_eq_some_iff.mp hrun
  obtain ⟨session, hi, hlogs⟩ := Option.map_eq_some_iff.mp hobs
  obtain ⟨hread, hissued⟩ := Prod.mk.injEq .. ▸ hlogs
  obtain ⟨asked, body, hcompleted, hres, hbody⟩ :=
    (completions_delivered _ _ (Machine.reaches_of_runIf hs)).1 1 0 session
      (completionsRequest "b.") _ hi (by rw [hread]; rfl) (by rw [hissued]; rfl) (by decide)
  obtain rfl : lit "a." = body := by
    have heq := congrArg Response.body hres
    rwa [okResponse_body, okResponse_body] at heq
  obtain ⟨asked', hasked', hkey, hbody⟩ := hbody.resolve_left (by decide)
  obtain ⟨session', request, hi', hr, hasked, -⟩ := id hcompleted
  rw [hi, Option.some.injEq] at hi'
  rw [← hi', hread, List.getElem?_cons_zero, Option.some.injEq] at hr
  rw [hr, hasked] at htext
  exact ⟨s, asked, asked', hs, hcompleted, Option.some.inj htext, hasked', hkey, hbody⟩

end Service

end Server
end SSVim
