/-
Where the text of a document comes from.

A call of the protocol is entered for a request that a session has read, with the fields of
its body.  So the text that sourcekitd is given for a file was sent for this file, and all of
it stands in front of what is left of the document from before the server.
-/
import SSVim.Sema.History
import SSVim.Server.Ending

namespace SSVim
namespace Server

open Transition

namespace Process

/-- A session has read a request for diagnostics with these fields. -/
def Requested (p : Process) (fields : DiagnosticsFields) : Prop :=
  ∃ (i : Nat) (session : Session), p.sessions[i]? = some session ∧
    ∃ request ∈ session.readLog, findEndpoint request.url = some .diagnostics ∧
      diagnosticsFields request.body = .ok fields

/-- A client has sent the text for a file of this name. -/
def Sent (p : Process) (name text : Str) : Prop :=
  ∃ fields, p.Requested fields ∧ cstr fields.fileName = name ∧ cstr fields.contents = text

/-- Every call has the arguments of such a request. -/
def Called (p : Process) : Prop :=
  ∀ c call, p.sema.calls c = some call →
    ∃ fields, p.Requested fields ∧ call.filename = fields.fileName ∧
      call.contents = fields.contents

section
variable {p p' : Process} {a : Action}

theorem Requested.step {fields : DiagnosticsFields} (h : p.Requested fields)
    (hs : step p a = some p') : p'.Requested fields := by
  obtain ⟨i, session, hi, request, hmem, hfields⟩ := h
  obtain ⟨session', hi', hnext⟩ := session_next hi hs
  refine ⟨i, session', hi', request, ?_, hfields⟩
  rcases hnext with rfl | ⟨b, effect, -, hstep⟩
  · exact hmem
  · exact Session.readLog_step (Session.stepped_of_step hstep) hmem

theorem enters_iff {effect : Effect} {b : Sema.Action} (h : effect.enters = some b) :
    ∃ call fields, effect = .enterCall call fields ∧
      b = .enter call fields.fileName fields.contents fields.flags := by
  cases effect with
  | enterCall call fields =>
    cases h
    exact ⟨call, fields, rfl, rfl⟩
  | none | scheduleExit | terminate | leaveCall => cases h

/-- The fields a session enters a call with are those of the request it works on. -/
theorem requested_of_enters
    (hserial : ∀ (i : Nat) session, p.sessions[i]? = some session → Serial session) {i : Nat}
    {b : Session.Action} {c : CallId} {filename contents : Str} {flags : List Str}
    (h : step p (.session i b) = some p')
    (henter : p.semaAction? (.session i b) = some (.enter c filename contents flags)) :
    ∃ fields, p.Requested fields ∧ filename = fields.fileName ∧ contents = fields.contents := by
  obtain ⟨session, session', effect, hi, hs, -, -, -⟩ := session_step h
  rw [semaAction?_session hi hs] at henter
  obtain ⟨call, fields, rfl, heq⟩ := enters_iff henter
  cases heq
  refine ⟨fields, ⟨i, session, hi, session.request, ?_⟩, rfl, rfl⟩
  cases Session.stepped_of_step hs with
  | run hb hrun =>
    have hmem := pick_mem hb
    have hcurrent := (hserial i session hi).current_index hmem
    have hfor := (hserial i session hi).current _ hmem
    cases Block.ran_of_run hrun with
    | enterCall => exact ⟨List.mem_of_getElem? hcurrent, hfor⟩

theorem called_step
    (hserial : ∀ (i : Nat) session, p.sessions[i]? = some session → Serial session)
    (hp : p.Called) (h : step p a = some p') : p'.Called := by
  have hlater : ∀ c call, p.sema.calls c = some call →
      ∃ fields, p'.Requested fields ∧ call.filename = fields.fileName ∧
        call.contents = fields.contents := by
    intro c call hc
    obtain ⟨fields, hrequested, hargs⟩ := hp c call hc
    exact ⟨fields, hrequested.step h, hargs⟩
  rcases semaAction?_cases h with ⟨-, hsame⟩ | ⟨b, hlabel, hb⟩
  · intro c call hc
    rw [hsame] at hc
    exact hlater c call hc
  · intro c call hc
    cases hprev : p.sema.calls c with
    | some call₀ =>
      -- A call that was there keeps its arguments.
      obtain ⟨fields, hrequested, hf, ht⟩ := hlater c call₀ hprev
      obtain ⟨call₁, hc₁, hf₁, ht₁⟩ := (Sema.stepped_of_step hb).arguments hprev
      rw [hc, Option.some.injEq] at hc₁
      subst hc₁
      exact ⟨fields, hrequested, hf₁.trans hf, ht₁.trans ht⟩
    | none =>
      obtain ⟨flags, rfl⟩ :=
        Sema.entered_of_new (Sema.stepped_of_step hb) hprev hc
      cases a with
      | session i b =>
        obtain ⟨fields, hrequested, hf, ht⟩ := requested_of_enters hserial h hlabel
        exact ⟨fields, hrequested.step h, hf, ht⟩
      | sema b =>
        obtain ⟨-, hrun⟩ := running_of_step h
        cases hlabel
        cases hrun
      | acceptor b => cases hlabel
      | exit => cases hlabel

end

theorem called_reaches {documents : Str → Str} {p : Process}
    (h : step.Reaches Machine.free (init documents) p) : p.Called := by
  induction h with
  | refl => exact fun c call hc => by cases hc
  | tail hreach hlast ih =>
    obtain ⟨a, -, ha⟩ := hlast
    exact called_step (fun i session hi => sessions_serial hreach hi) ih ha

/-- In every run of the server, the document that sourcekitd keeps for a file consists of
whole buffers that clients have sent for diagnostics of this very file, or of such buffers, if
any, in front of the document it started with, as `EditorReplaceText` leaves it after an
`EditorOpen` that failed. -/
theorem document_from_requests (documents : Str → Str) {p : Process}
    (h : step.Reaches Machine.free (init documents) p) (name : Str) :
    Sema.Edited (p.Sent name) (documents name) (p.sema.documents name) := by
  refine (Sema.document_edited (sema_reaches h) name).mono fun text hwritten => ?_
  obtain ⟨c, call, hc, hname, htext⟩ := hwritten
  obtain ⟨fields, hrequested, hf, ht⟩ := called_reaches h c call hc
  exact ⟨fields, hrequested, by rw [← hf, hname], by rw [← ht, htext]⟩

theorem twoClients_document :
    ∃ p, step.runIf Machine.free (init fun _ => []) twoClients = some p ∧
      p.sema.documents (lit "a") = lit "xxx" ∧
      Sema.Edited (p.Sent (lit "a")) [] (lit "xxx") := by
  have hrun : (step.runIf Machine.free (init fun _ => []) twoClients).map
      (fun p => p.sema.documents (lit "a")) = some (lit "xxx") := by
    decide +kernel
  obtain ⟨p, hp, hdoc⟩ := Option.map_eq_some_iff.mp hrun
  have hedited := document_from_requests _ (Machine.reaches_of_runIf hp) (lit "a")
  exact ⟨p, hp, hdoc, hdoc ▸ hedited⟩

end Process

end Server
end SSVim
