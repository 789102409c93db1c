/-
The document that sourcekitd keeps for a file, through the edits of a call.

The dictionary of `EditorReplaceText` sets neither `key.offset` nor `key.length`,
so the replacement is an insertion at the front.  The query of a receiver inserts
the empty text, which changes nothing.  The edit of a call puts the buffer before
what the document held, and that is the buffer which `EditorOpen` of the same
call has just put there.
-/
import SSVim.Sema.Steps

namespace SSVim
namespace Sema

open Transition SourceKit

/-- No call succeeds in editing the document of `name` in the step. -/
def spares (name : Str) (s : State) : Action → Prop
  | .call c (.editorOpen (some _) _) => ∀ call ∈ s.calls c, cstr call.filename ≠ name
  | .call c (.editorReplaceText (some _) _) => ∀ call ∈ s.calls c, cstr call.filename ≠ name
  | _ => True

/-! ## One edit -/

theorem replaceRange_zero (document text : Str) :
    replaceRange document 0 0 text = text ++ document := by
  rw [replaceRange, List.take_zero, List.nil_append, Nat.zero_add, List.drop_zero]

theorem process_editorOpen (call : Call) (documents : Str → Str) :
    process (call.request .editorOpen) documents =
      Function.update documents (cstr call.filename) (cstr call.contents) := rfl

theorem process_editorReplaceText (call : Call) (documents : Str → Str) :
    process (call.request .editorReplaceText) documents =
      Function.update documents (cstr call.filename)
        (cstr call.contents ++ documents (cstr call.filename)) := by
  rw [← replaceRange_zero]
  rfl

theorem process_semaRequest (semaName : Str) (documents : Str → Str) :
    process (semaRequest semaName) documents = documents := by
  have hsame : replaceRange (documents (cstr semaName)) 0 0 [] = documents (cstr semaName) := by
    rw [replaceRange_zero, List.nil_append]
  show Function.update documents (cstr semaName)
    (replaceRange (documents (cstr semaName)) 0 0 []) = documents
  rw [hsame, Function.update_eq_self]

/-! ## Steps and runs -/

section
variable {s s' : State} {a : Action} {c : CallId} {call : Call}

theorem editorOpen_document {json : Str} {caused : List Payload} (hc : s.calls c = some call)
    (h : Stepped s (.call c (.editorOpen (some json) caused)) s') :
    s'.documents (cstr call.filename) = cstr call.contents := by
  cases h with
  | editorOpen hc' =>
    rw [hc, Option.some.injEq] at hc'
    subst hc'
    show process (call.request .editorOpen) s.documents (cstr call.filename) = _
    rw [process_editorOpen, Function.update_self]

theorem editorReplaceText_document {json : Str} {caused : List Payload}
    (hc : s.calls c = some call)
    (h : Stepped s (.call c (.editorReplaceText (some json) caused)) s') :
    s'.documents (cstr call.filename) =
      cstr call.contents ++ s.documents (cstr call.filename) := by
  cases h with
  | editorReplaceText hc' =>
    rw [hc, Option.some.injEq] at hc'
    subst hc'
    show process (call.request .editorReplaceText) s.documents (cstr call.filename) = _
    rw [process_editorReplaceText, Function.update_self]

theorem handler_documents {i : HandlerId} {a : HandlerAction}
    (h : Stepped s (.handler i a) s') : s'.documents = s.documents := by
  cases h with
  | discard | readName | query | set => rfl
  | @respond _ _ semaName _ success =>
    show (if success then process (semaRequest semaName) s.documents else s.documents) = _
    rw [process_semaRequest, ite_self]

theorem spares_document {name : Str} (hok : spares name s a) (h : Stepped s a s') :
    s'.documents name = s.documents name := by
  cases h with
  | enter | returnedEmpty | returnedEdited | future | get | notify | deliver => rfl
  | discard | readName | query | set => rfl
  | @respond _ _ semaName _ success =>
    show (if success then process (semaRequest semaName) s.documents else s.documents) name = _
    rw [process_semaRequest, ite_self]
  | @editorOpen _ call reply _ hc =>
    cases reply with
    | none => rfl
    | some json =>
      have hne : name ≠ cstr call.filename := (hok call hc).symm
      show process (call.request .editorOpen) s.documents name = _
      rw [process_editorOpen, Function.update_of_ne hne]
  | @editorReplaceText _ call reply _ _ hc =>
    cases reply with
    | none => rfl
    | some json =>
      have hne : name ≠ cstr call.filename := (hok call hc).symm
      show process (call.request .editorReplaceText) s.documents name = _
      rw [process_editorReplaceText, Function.update_of_ne hne]

theorem reaches_document {name : Str} (h : step.Reaches (spares name) s s') :
    s'.documents name = s.documents name :=
  h.frame (f := fun s => s.documents name)
    (fun _ _ _ hok ha => spares_document hok (stepped_of_step ha))

theorem Stepped.arguments (h : Stepped s a s') (hc : s.calls c = some call) :
    ∃ call', s'.calls c = some call' ∧ call'.filename = call.filename ∧
      call'.contents = call.contents := by
  cases h with
  | enter hc' =>
    refine ⟨call, ?_, rfl, rfl⟩
    rw [setCall_calls]
    exact update_of_none hc' hc
  | editorOpen hc' | editorReplaceText hc' | returnedEmpty hc' | returnedEdited hc'
  | future hc' | get hc' =>
    rw [setCall_calls]
    rcases update_of_some hc' hc with ⟨rfl, rfl⟩ | hsame
    · exact ⟨_, if_pos rfl, rfl, rfl⟩
    · exact ⟨call, hsame _, rfl, rfl⟩
  | notify | deliver | discard | readName | query | respond | set => exact ⟨call, hc, rfl, rfl⟩

theorem reaches_arguments {ok : State → Action → Prop} (h : step.Reaches ok s s')
    (hc : s.calls c = some call) :
    ∃ call', s'.calls c = some call' ∧ call'.filename = call.filename ∧
      call'.contents = call.contents := by
  refine h.invariant (I := fun t => ∃ call', t.calls c = some call' ∧
    call'.filename = call.filename ∧ call'.contents = call.contents)
    (fun t a t' ht _ ha => ?_) ⟨call, hc, rfl, rfl⟩
  obtain ⟨call₁, hc₁, hf₁, ht₁⟩ := ht
  obtain ⟨call₂, hc₂, hf₂, ht₂⟩ := (stepped_of_step ha).arguments hc₁
  exact ⟨call₂, hc₂, hf₂.trans hf₁, ht₂.trans ht₁⟩

end

/-- A call whose two edits succeed: `before` is the state its `EditorReplaceText`
finds, and from that edit to `s` no call edits the document.  The guard `between`
is for the steps from the first edit to the second. -/
def EditsSucceed (documents : Str → Str) (between : State → Action → Prop) (call : Call)
    (before s : State) : Prop :=
  ∃ c opening opened replaced json json' caused caused',
    step.Reaches Machine.free (State.init documents) opening ∧
    opening.calls c = some call ∧
    step opening (.call c (.editorOpen (some json) caused)) = some opened ∧
    step.Reaches between opened before ∧
    step before (.call c (.editorReplaceText (some json') caused')) = some replaced ∧
    step.Reaches (spares (cstr call.filename)) replaced s

theorem document_of_editsSucceed {documents : Str → Str} {between : State → Action → Prop}
    {call : Call} {before s : State} (h : EditsSucceed documents between call before s) :
    s.documents (cstr call.filename) =
      cstr call.contents ++ before.documents (cstr call.filename) := by
  obtain ⟨c, opening, opened, replaced, _, _, _, _, -, hc, hopen, hrun, hreplace, hrest⟩ := h
  obtain ⟨call₁, hc₁, hf₁, ht₁⟩ := (stepped_of_step hopen).arguments hc
  obtain ⟨call₂, hc₂, hf₂, ht₂⟩ := reaches_arguments hrun hc₁
  have hdoc := editorReplaceText_document hc₂ (stepped_of_step hreplace)
  rw [hf₂, hf₁, ht₂, ht₁] at hdoc
  rw [reaches_document hrest, hdoc]

/-- When no other call edits the document between the two, the buffer is there
twice. -/
theorem document_of_editsSucceed_alone {documents : Str → Str} {call : Call} {before s : State}
    (h : EditsSucceed documents (spares (cstr call.filename)) call before s) :
    s.documents (cstr call.filename) = cstr call.contents ++ cstr call.contents := by
  rw [document_of_editsSucceed h]
  obtain ⟨c, opening, opened, replaced, _, _, _, _, -, hc, hopen, hrun, -, -⟩ := h
  rw [reaches_document hrun, editorOpen_document hc (stepped_of_step hopen)]

theorem EditsSucceed.mono {documents : Str → Str} {ok ok' : State → Action → Prop}
    (hle : ∀ s a, ok s a → ok' s a) {call : Call} {before s : State}
    (h : EditsSucceed documents ok call before s) : EditsSucceed documents ok' call before s := by
  obtain ⟨c, opening, opened, replaced, r, r', n, n', hopening, hc, hopen, hrun, hrest⟩ := h
  exact ⟨c, opening, opened, replaced, r, r', n, n', hopening, hc, hopen, hrun.mono hle, hrest⟩

theorem editsSucceed_alone (documents : Str → Str) (filename contents : Str) :
    ∃ call before s, call.filename = filename ∧ call.contents = contents ∧
      EditsSucceed documents (spares (cstr call.filename)) call before s := by
  let call : Call :=
    { filename := filename, contents := contents, flags := [], editedAt := 0, phase := .entered }
  have henter : step (State.init documents) (.enter 0 filename contents []) =
      some ((State.init documents).setCall 0 call) := rfl
  exact ⟨call, _, _, rfl, rfl, 0, _, _, _, [], [], [], [], .single trivial henter, rfl, rfl,
    .refl _, rfl, .refl _⟩

/-- The document diagnosed is the buffer exactly when it was empty before
`EditorReplaceText`, which for a call that edits alone is when the buffer is empty.
The query of a receiver changes no document. -/
theorem document_eq_contents_iff (documents : Str → Str) {call : Call} (before s : State)
    (hnul : NulFree call.contents) :
    (EditsSucceed documents Machine.free call before s →
      (s.documents (cstr call.filename) = call.contents ↔
        before.documents (cstr call.filename) = [])) ∧
    (EditsSucceed documents (spares (cstr call.filename)) call before s →
      (s.documents (cstr call.filename) = call.contents ↔ call.contents = [])) ∧
    (∀ i a s', step s (.handler i a) = some s' → s'.documents = s.documents) := by
  have hcontents : cstr call.contents = call.contents := cstr_of_nulFree hnul
  refine ⟨fun h => ?_, fun h => ?_, fun i a s' ha => handler_documents (stepped_of_step ha)⟩
  · rw [document_of_editsSucceed h, hcontents]
    exact List.append_right_eq_self
  · rw [document_of_editsSucceed_alone h, hcontents]
    exact List.append_right_eq_self

theorem emptyBuffer_document :
    ∃ call before s, call.contents = [] ∧
      EditsSucceed (fun _ => []) (spares (cstr call.filename)) call before s ∧
      s.documents (cstr call.filename) = call.contents := by
  obtain ⟨call, before, s, -, hcontents, h⟩ := editsSucceed_alone (fun _ => []) (lit "a") []
  have hnul : NulFree call.contents := by
    rw [hcontents]
    decide
  have hiff := (document_eq_contents_iff (fun _ => []) before s hnul).2.1 h
  exact ⟨call, before, s, hcontents, h, hiff.mpr hcontents⟩

/-- The buffer `x` of a call that edits alone is diagnosed as `xx`. -/
theorem buffer_twice :
    ¬ ∀ call before s, NulFree call.contents →
      EditsSucceed (fun _ => []) Machine.free call before s →
      s.documents (cstr call.filename) = call.contents := by
  intro hall
  obtain ⟨call, before, s, -, hcontents, h⟩ := editsSucceed_alone (fun _ => []) (lit "a") (lit "x")
  have hdoc := hall call before s (by rw [hcontents]; decide) (h.mono fun _ _ _ => trivial)
  rw [document_of_editsSucceed_alone h, hcontents] at hdoc
  exact absurd hdoc (by decide)

end Sema
end SSVim
