/-
What a document of sourcekitd is made of.

`EditorOpen` sets the document of its file and `EditorReplaceText` puts its buffer in front,
in whatever order the calls do so.  So a document is a sequence of whole buffers from calls for
this file, in front of the document there was at first if no `EditorOpen` has replaced it.
-/
import SSVim.Sema.Document

namespace SSVim
namespace Sema

open Transition

/-- A document that was `initial` and has been edited with buffers that satisfy `W`. -/
inductive Edited (W : Str → Prop) (initial : Str) : Str → Prop where
  | initial : Edited W initial initial
  | opened {text : Str} (h : W text) : Edited W initial text
  | replaced {text document : Str} (h : W text) (hd : Edited W initial document) :
      Edited W initial (text ++ document)

theorem Edited.mono {W W' : Str → Prop} {initial document : Str} (hle : ∀ text, W text → W' text)
    (h : Edited W initial document) : Edited W' initial document := by
  induction h with
  | initial => exact .initial
  | opened h => exact .opened (hle _ h)
  | replaced h _ ih => exact .replaced (hle _ h) ih

/-- A call for a file of this name has this buffer. -/
def Written (s : State) (name text : Str) : Prop :=
  ∃ c call, s.calls c = some call ∧ cstr call.filename = name ∧ cstr call.contents = text

section
variable {s s' : State} {a : Action} {name : Str}

theorem Written.step {text : Str} (h : Written s name text) (hs : Stepped s a s') :
    Written s' name text := by
  obtain ⟨c, call, hc, hname, htext⟩ := h
  obtain ⟨call', hc', hf, ht⟩ := hs.arguments hc
  exact ⟨c, call', hc', by rw [hf, hname], by rw [ht, htext]⟩

/-- A call that was not there before a step is entered by it. -/
theorem entered_of_new {c : CallId} {call : Call} (h : Stepped s a s') (hprev : s.calls c = none)
    (hc : s'.calls c = some call) :
    ∃ flags, a = .enter c call.filename call.contents flags := by
  cases h with
  | enter hc' =>
    rw [setCall_calls] at hc
    split at hc
    next heq =>
      subst heq
      cases hc
      exact ⟨_, rfl⟩
    · cases hprev.symm.trans hc
  | editorOpen hc' | editorReplaceText hc' | returnedEmpty hc' | returnedEdited hc'
  | future hc' | get hc' =>
    rw [setCall_calls] at hc
    split at hc
    next heq =>
      rw [heq, hc'] at hprev
      cases hprev
    · cases hprev.symm.trans hc
  | notify | deliver | discard | readName | query | respond | set =>
    cases hprev.symm.trans hc

/-- A step edits the document of one file at most, with the buffer of a call for it. -/
theorem document_step (name : Str) (h : Stepped s a s') :
    s'.documents name = s.documents name ∨
      ∃ text, Written s name text ∧
        (s'.documents name = text ∨ s'.documents name = text ++ s.documents name) := by
  by_cases hspares : spares name s a
  · exact Or.inl (spares_document hspares h)
  refine Or.inr ?_
  cases h with
  | enter | returnedEmpty | returnedEdited | future | get | notify | deliver =>
    exact absurd trivial hspares
  | discard | readName | query | respond | set => exact absurd trivial hspares
  | @editorOpen c call reply caused hc hp =>
    cases reply with
    | none => exact absurd trivial hspares
    | some json =>
      have hname : cstr call.filename = name := by
        by_contra hne
        refine hspares fun call' hc' => ?_
        rw [Option.mem_def, hc, Option.some.injEq] at hc'
        exact hc' ▸ hne
      subst hname
      exact ⟨cstr call.contents, ⟨c, call, hc, rfl, rfl⟩,
        Or.inl (editorOpen_document hc (.editorOpen hc hp))⟩
  | @editorReplaceText c call reply caused response hc hp =>
    cases reply with
    | none => exact absurd trivial hspares
    | some json =>
      have hname : cstr call.filename = name := by
        by_contra hne
        refine hspares fun call' hc' => ?_
        rw [Option.mem_def, hc, Option.some.injEq] at hc'
        exact hc' ▸ hne
      subst hname
      exact ⟨cstr call.contents, ⟨c, call, hc, rfl, rfl⟩,
        Or.inr (editorReplaceText_document hc (.editorReplaceText hc hp))⟩

theorem edited_step {initial : Str} (hs : Edited (Written s name) initial (s.documents name))
    (h : Stepped s a s') : Edited (Written s' name) initial (s'.documents name) := by
  have hlater := hs.mono fun text (ht : Written s name text) => ht.step h
  rcases document_step name h with hsame | ⟨text, hwritten, hset | hput⟩
  · rw [hsame]
    exact hlater
  · rw [hset]
    exact .opened (hwritten.step h)
  · rw [hput]
    exact .replaced (hwritten.step h) hlater

end

theorem document_edited {documents : Str → Str} {s : State}
    (h : step.Reaches Machine.free (State.init documents) s) (name : Str) :
    Edited (Written s name) (documents name) (s.documents name) :=
  h.invariant (I := fun t => Edited (Written t name) (documents name) (t.documents name))
    (fun _ _ _ ht _ ha => edited_step ht (stepped_of_step ha)) .initial

end Sema
end SSVim
