/-
What is assumed of the notifications that sourcekitd sends.

A notification names the document that an edit of a call changed.  An edit that
sourcekitd refuses causes none, and neither does a replacement by an empty text,
so the query of a receiver causes none.  `mayNotify` leaves it to sourcekitd
whether an edit causes any.  `owes` adds that each edit is followed by at least
one, which one that is still to be delivered also is.
-/
import SSVim.Sema.Steps

namespace SSVim
namespace Sema

open Transition

def Call.notification (call : Call) : Payload := .dictionary (some (cstr call.filename))

/-- The edit of a call takes effect and has a text. -/
def Call.effective (call : Call) : CallAction → Bool
  | .editorOpen reply _ => reply.isSome
  | .editorReplaceText reply _ => reply.isSome && decide (cstr call.contents ≠ [])
  | _ => false

def CallAction.caused : CallAction → List Payload
  | .editorOpen _ caused => caused
  | .editorReplaceText _ caused => caused
  | _ => []

def mayNotify (s : State) : Action → Prop
  | .call c a => ∀ call ∈ s.calls c, ∀ payload ∈ a.caused,
      call.effective a = true ∧ payload = call.notification
  | .notify _ => False
  | _ => True

/-- Some notification for the file is still to be delivered after the edit. -/
def announces (s : State) : Action → Prop
  | .call c a => ∀ call ∈ s.calls c,
      call.effective a = true → call.notification ∈ s.undelivered ++ a.caused
  | _ => True

def owes (s : State) (a : Action) : Prop := mayNotify s a ∧ announces s a

instance : DecidableRel mayNotify := fun s a =>
  match a with
  | .call c a => inferInstanceAs (Decidable (∀ call ∈ s.calls c, ∀ payload ∈ a.caused,
      call.effective a = true ∧ payload = call.notification))
  | .notify _ => .isFalse id
  | .enter .. => .isTrue trivial
  | .deliver .. => .isTrue trivial
  | .handler .. => .isTrue trivial

instance : DecidableRel announces := fun s a =>
  match a with
  | .call c a => inferInstanceAs (Decidable (∀ call ∈ s.calls c,
      call.effective a = true → call.notification ∈ s.undelivered ++ a.caused))
  | .notify _ => .isTrue trivial
  | .enter .. => .isTrue trivial
  | .deliver .. => .isTrue trivial
  | .handler .. => .isTrue trivial

instance : DecidableRel owes := fun s a => inferInstanceAs (Decidable (mayNotify s a ∧ _))

/-! ## Receivers that a run starts -/

/-- The receiver that an action starts. -/
def Action.starts? : Action → Option HandlerId
  | .deliver h _ => some h
  | _ => none

theorem Stepped.not_started {s s' : State} {a : Action} (h : Stepped s a s') {i : HandlerId}
    (hi : s.handlers i = none) (ha : a.starts? ≠ some i) : s'.handlers i = none := by
  have hne : ∀ {j handler}, s.handlers j = some handler → i ≠ j := by
    rintro j handler hj rfl
    rw [hi] at hj
    cases hj
  cases h with
  | enter | editorOpen | editorReplaceText | returnedEmpty | returnedEdited | future | get
  | notify => exact hi
  | deliver =>
    rw [setHandler_handlers, if_neg, hi]
    rintro rfl
    exact ha rfl
  | discard hj | readName hj | query hj | respond hj | set hj =>
    rw [setHandler_handlers, if_neg (hne hj)]
    exact hi

theorem not_started_of_runIf {ok : State → Action → Prop} [∀ s a, Decidable (ok s a)]
    {s s' : State} {as : List Action} (h : step.runIf ok s as = some s') {i : HandlerId}
    (hi : s.handlers i = none) (has : i ∉ as.filterMap Action.starts?) :
    s'.handlers i = none := by
  induction as generalizing s with
  | nil =>
    rw [Machine.runIf_nil, Option.some.injEq] at h
    exact h ▸ hi
  | cons a as ih =>
    obtain ⟨-, s₁, hs₁, hrest⟩ := Machine.runIf_cons.mp h
    have ha : a.starts? ≠ some i := by
      intro ha
      apply has
      rw [List.filterMap_cons_some ha]
      exact List.mem_cons_self
    have has' : i ∉ as.filterMap Action.starts? := by
      intro hmem
      apply has
      cases hb : a.starts? with
      | none =>
        rw [List.filterMap_cons_none hb]
        exact hmem
      | some j =>
        rw [List.filterMap_cons_some hb]
        exact List.mem_cons_of_mem j hmem
    exact ih hrest ((stepped_of_step hs₁).not_started hi ha) has'

end Sema
end SSVim
