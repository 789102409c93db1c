/-
What reaches the client of `/diagnostics`.

The protocol hands replies to calls, and a session hands the result of its call to the
client.  Followed from the query of a receiver to the body of a response, the diagnostics
of a file go to requests for that file only.
-/
import SSVim.Sema.Document
import SSVim.Server.Handled
import SSVim.Server.Shared

namespace SSVim
namespace Server

open Transition Completer

/-- The body is the fallback, or a reply for the file of the request. -/
def Diagnosed (sema : Sema.State) (request : Req) (body : Str) : Prop :=
  ∃ fields, diagnosticsFields request.body = .ok fields ∧
    (body = emptyDiagnostics ∨
      ∃ reply, Sema.RepliesFor sema fields.fileName reply ∧ body = reply.text)

/-- A response to a request for diagnostics has such a body. -/
def DiagnosedResponse (sema : Sema.State) (request : Req) (res : Response) : Prop :=
  findEndpoint request.url = some .diagnostics →
    ∃ body, Diagnosed sema request body ∧ res = okResponse request body

/-- A call that gives up returns the fallback. -/
def FallsBack (sema : Sema.State) : Prop :=
  ∀ call c result, sema.calls call = some c → c.phase = .returned result →
    result = emptyDiagnostics

/-- What a block holds of the diagnostics of its request. -/
def Block.Diagnosing (sema : Sema.State) (request : Req) : Block → Prop
  | .inCall fields call => ∃ c, sema.calls call = some c ∧ c.filename = fields.fileName
  | .result body => findEndpoint request.url = some .diagnostics → Diagnosed sema request body
  | .responding res => DiagnosedResponse sema request res
  | _ => True

/-- What is known of a session for diagnostics. -/
def Delivered (sema : Sema.State) : Session → Prop :=
  Handled (fun request block => block.Diagnosing sema request) (DiagnosedResponse sema)

section
variable {sema sema' : Sema.State} {request : Req}

theorem fallsBack_init (documents : Str → Str) : FallsBack (Sema.State.init documents) :=
  fun _ _ _ hc => by cases hc

theorem fallsBack_step {a : Sema.Action} (hs : FallsBack sema) (h : Sema.Stepped sema a sema') :
    FallsBack sema' := by
  intro call c result hc hp
  cases h with
  | enter | returnedEdited | future | get =>
    rw [Sema.setCall_calls] at hc
    rcases Sema.update_cases hc with ⟨rfl, rfl⟩ | ⟨-, hc⟩
    · cases hp
    · exact hs call c result hc hp
  | editorOpen | editorReplaceText =>
    rw [Sema.setCall_calls, Sema.edit_calls] at hc
    rcases Sema.update_cases hc with ⟨rfl, rfl⟩ | ⟨-, hc⟩
    · cases hp
    · exact hs call c result hc hp
  | returnedEmpty =>
    rw [Sema.setCall_calls] at hc
    rcases Sema.update_cases hc with ⟨rfl, rfl⟩ | ⟨-, hc⟩
    · cases hp
      rfl
    · exact hs call c result hc hp
  | notify | deliver | discard | readName | query | respond | set => exact hs call c result hc hp

theorem fallsBack_reaches {ok : Sema.State → Sema.Action → Prop}
    (h : Sema.step.Reaches ok sema sema') (hs : FallsBack sema) : FallsBack sema' :=
  h.invariant (fun _ _ _ ht _ ha => fallsBack_step ht (Sema.stepped_of_step ha)) hs

/-! ## Later states of the protocol -/

/-- The calls go on as themselves, and the replies that there are stay. -/
structure Later (sema sema' : Sema.State) : Prop where
  replies : ∀ filename reply, Sema.RepliesFor sema filename reply →
    Sema.RepliesFor sema' filename reply
  calls : ∀ call c, sema.calls call = some c →
    ∃ c', sema'.calls call = some c' ∧ c'.filename = c.filename

theorem later_step {a : Sema.Action} (h : Sema.Stepped sema a sema') : Later sema sema' where
  replies _ _ hr := hr.step h
  calls call c hc := by
    obtain ⟨c', hc', hf, -⟩ := h.arguments hc
    exact ⟨c', hc', hf⟩

theorem later_refl (sema : Sema.State) : Later sema sema where
  replies _ _ hr := hr
  calls _ c hc := ⟨c, hc, rfl⟩

theorem Diagnosed.later (hl : Later sema sema') {body : Str} (h : Diagnosed sema request body) :
    Diagnosed sema' request body := by
  obtain ⟨fields, hfields, hbody⟩ := h
  refine ⟨fields, hfields, hbody.imp_right fun h => ?_⟩
  obtain ⟨reply, hr, heq⟩ := h
  exact ⟨reply, hl.replies _ _ hr, heq⟩

theorem DiagnosedResponse.later (hl : Later sema sema') {res : Response}
    (h : DiagnosedResponse sema request res) : DiagnosedResponse sema' request res := by
  intro hurl
  obtain ⟨body, hbody, heq⟩ := h hurl
  exact ⟨body, hbody.later hl, heq⟩

theorem Block.Diagnosing.later (hl : Later sema sema') {block : Block}
    (h : block.Diagnosing sema request) : block.Diagnosing sema' request := by
  cases block with
  | queued | decoded | opened | diagnosing | delayed => trivial
  | inCall fields call =>
    obtain ⟨c, hc, hf⟩ := h
    obtain ⟨c', hc', hf'⟩ := hl.calls call c hc
    exact ⟨c', hc', hf'.trans hf⟩
  | result body => exact fun hurl => (h hurl).later hl
  | responding res => exact DiagnosedResponse.later hl h

theorem later_of_happens {effect : Effect} (h : effect.Happens sema sema') : Later sema sema' := by
  rcases Process.happens_sema h with ⟨-, rfl⟩ | ⟨b, -, hs⟩
  · exact later_refl _
  · exact later_step (Sema.stepped_of_step hs)

/-! ## One stretch of a block -/

theorem diagnosed_of_url {endpoint : Endpoint} {P : Prop}
    (h : findEndpoint request.url = some endpoint) (hne : endpoint ≠ .diagnostics) :
    findEndpoint request.url = some .diagnostics → P := by
  intro hurl
  rw [h, Option.some.injEq] at hurl
  exact absurd hurl hne

theorem Block.Diagnosing.run {block block' : Block} {a : BlockAction} {effect : Effect}
    (hlinked : Sema.Linked sema) (hfalls : FallsBack sema) (hfor : block.For request)
    (h : block.Diagnosing sema request) (hrun : block.run request a = some (.ok (block', effect)))
    (heffect : effect.Happens sema sema') : block'.Diagnosing sema' request := by
  cases ran_of_run hrun with
  | status | shutdown | fire => exact diagnosed_of_url hfor nofun
  | completions | diagnostics | slowTest | completionOpen => trivial
  | completionUpdate => exact diagnosed_of_url hfor.1 nofun
  | enterCall =>
    -- The call starts under the file name of the request.
    cases Sema.stepped_of_step heffect with
    | enter => exact ⟨_, Sema.setCall_self _ _ _, rfl⟩
  | @leaveCall fields call value =>
    -- What the call returns is the fallback or its answer.
    obtain ⟨rfl, c, hc, hresult⟩ := heffect
    obtain ⟨c', hc', hf⟩ := h
    rw [hc, Option.some.injEq] at hc'
    subst hc'
    intro _
    refine ⟨fields, hfor.2, ?_⟩
    rcases hresult with hreturned | ⟨reply, hanswered, heq⟩
    · exact Or.inl (hfalls call c _ hc hreturned)
    · exact Or.inr ⟨reply, hf ▸ hlinked.answered call c reply hc hanswered, heq⟩
  | build =>
    obtain rfl : sema' = sema := heffect
    exact fun hurl => ⟨_, h hurl, rfl⟩

end

/-! ## Sessions -/

theorem carries_diagnosing (sema : Sema.State) :
    Carries (fun request block => block.Diagnosing sema request) (DiagnosedResponse sema) where
  queued _ _ := trivial
  responding _ _ h := h
  notFound request hurl hdiagnostics := by
    rw [hurl] at hdiagnostics
    cases hdiagnostics

theorem Delivered.later {sema sema' : Sema.State} {session : Session}
    (h : Delivered sema session) (hl : Later sema sema') : Delivered sema' session :=
  h.mono (fun _ _ hb => hb.later hl) fun _ _ hr => hr.later hl

theorem sessions_delivered {documents : Str → Str} {p : Process}
    (h : Process.step.Reaches Machine.free (Process.init documents) p) {i : Nat}
    {session : Session} (hi : p.sessions[i]? = some session) : Delivered p.sema session := by
  refine Process.shared_invariant (I := fun q session => Delivered q.sema session)
    (fun q socket => handled_init socket) (fun q a q' session _ hd ha => ?_)
    (fun q q' session b session' effect sessions hreach hs hd hstep heffect => ?_) h hi
  · rcases Process.semaAction?_cases ha with ⟨-, hsame⟩ | ⟨b, -, hb⟩
    · rw [hsame]
      exact hd
    · exact hd.later (later_step (Sema.stepped_of_step hb))
  · have hsemas := Process.sema_reaches hreach
    have hlinked := Sema.linked_reaches hsemas (Sema.linked_init documents)
    have hfalls := fallsBack_reaches hsemas (fallsBack_init documents)
    have hhappens := Process.applyEffect_happens heffect
    have hlater := later_of_happens hhappens
    exact handled_step (carries_diagnosing _) hs hd (fun _ _ hb => hb.later hlater)
      (fun _ _ hr => hr.later hlater) hstep
      fun block b block' hfor hb hrun => hb.run hlinked hfalls hfor hrun hhappens

/-- In every run of the server, the response to a request for diagnostics is the fallback, or
the text that sourcekitd returned to the query of a receiver for a notification that names
the file of this request. -/
theorem diagnostics_delivered (documents : Str → Str) {p : Process}
    (h : Process.step.Reaches Machine.free (Process.init documents) p) :
    ∀ (i k : Nat) session request res, p.sessions[i]? = some session →
      session.readLog[k]? = some request → session.issued[k]? = some res →
      findEndpoint request.url = some .diagnostics →
      ∃ fields, diagnosticsFields request.body = .ok fields ∧
        (res = okResponse request emptyDiagnostics ∨
          ∃ reply, Sema.RepliesFor p.sema fields.fileName reply ∧
            res = okResponse request reply.text) := by
  intro i k session request res hi hr hk hurl
  obtain ⟨request', hr', hdiagnosed⟩ := (sessions_delivered h hi).issued k res hk
  rw [hr, Option.some.injEq] at hr'
  subst hr'
  obtain ⟨body, ⟨fields, hfields, hbody⟩, rfl⟩ := hdiagnosed hurl
  refine ⟨fields, hfields, ?_⟩
  rcases hbody with rfl | ⟨reply, hreply, rfl⟩
  · exact Or.inl rfl
  · exact Or.inr ⟨reply, hreply, rfl⟩

/-- Both clients have their reply. -/
def twoClients : List Process.Action := Process.twoWaiting ++ Process.oneNotification

def twoAnswers : List Process.Action :=
  [.sema (.call 0 .get), .session 0 (.run 0 (.leaveCall (lit "[]"))),
   .session 0 (.run 0 .build), .session 0 (.write 0)]

theorem twoClients_delivered :
    ∃ p session res fields, Process.step.runIf Machine.free (Process.init fun _ => [])
        (twoClients ++ twoAnswers) = some p ∧
      p.sessions[0]? = some session ∧ session.issued = [res] ∧
      diagnosticsFields Process.diagnosticsRequest.body = .ok fields ∧
      res ≠ okResponse Process.diagnosticsRequest emptyDiagnostics ∧
      ∃ reply, Sema.RepliesFor p.sema fields.fileName reply ∧
        res = okResponse Process.diagnosticsRequest reply.text := by
  have hrun : (Process.step.runIf Machine.free (Process.init fun _ => [])
      (twoClients ++ twoAnswers)).bind
      (fun p => p.sessions[0]?.map fun session => (session.readLog, session.issued)) =
      some ([Process.diagnosticsRequest], [okResponse Process.diagnosticsRequest (lit "[]")]) := by
    decide +kernel
  obtain ⟨p, hp, hobs⟩ := Option.bind_eq_some_iff.mp hrun
  obtain ⟨session, hi, hlogs⟩ := Option.map_eq_some_iff.mp hobs
  obtain ⟨hread, hissued⟩ := Prod.mk.injEq .. ▸ hlogs
  have hne : okResponse Process.diagnosticsRequest (lit "[]") ≠
      okResponse Process.diagnosticsRequest emptyDiagnostics := by
    decide +kernel
  obtain ⟨fields, hfields, hres⟩ :=
    diagnostics_delivered _ (Machine.reaches_of_runIf hp) 0 0 session Process.diagnosticsRequest _
      hi (by rw [hread]; rfl) (by rw [hissued]; rfl) (by decide)
  exact ⟨p, session, _, fields, hp, hi, hissued, hfields, hne, hres.resolve_left hne⟩

end Server
end SSVim
