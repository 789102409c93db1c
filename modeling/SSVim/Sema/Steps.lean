/-
What a step of the protocol can do to each part of the state.

Invariants are about one call, one receiver or the channel.  Each lemma here
reads the step relation once for one of these, so that an invariant is proved
from the few steps that touch what it is about.
-/
import SSVim.Sema.Protocol

namespace SSVim
namespace Sema

open SourceKit

theorem update_cases {α : Type} {f : Nat → Option α} {i j : Nat} {x y : α}
    (h : (if j = i then some x else f j) = some y) : (j = i ∧ y = x) ∨ (j ≠ i ∧ f j = some y) := by
  by_cases hj : j = i
  · rw [if_pos hj] at h
    exact Or.inl ⟨hj, (Option.some.inj h).symm⟩
  · rw [if_neg hj] at h
    exact Or.inr ⟨hj, h⟩

theorem update_of_none {α : Type} {f : Nat → Option α} {i j : Nat} {x y : α}
    (hi : f i = none) (hj : f j = some y) : (if j = i then some x else f j) = some y := by
  have hne : j ≠ i := by
    intro heq
    rw [← heq, hj] at hi
    cases hi
  rw [if_neg hne, hj]

theorem update_of_some {α : Type} {f : Nat → Option α} {i j : Nat} {x y : α}
    (hi : f i = some x) (hj : f j = some y) :
    (i = j ∧ x = y) ∨ ∀ x', (if j = i then some x' else f j) = some y := by
  by_cases hne : j = i
  · subst hne
    rw [hi, Option.some.injEq] at hj
    exact Or.inl ⟨rfl, hj⟩
  · apply Or.inr
    intro x'
    rw [if_neg hne, hj]

namespace Stepped

variable {s s' : State} {a : Action}

theorem clock (h : Stepped s a s') : s'.clock = s.clock + 1 := by
  cases h <;> rfl

/-! ## Calls -/

/-- A call that waits after a step waited before it, or registered in it. -/
theorem waiting_cases (h : Stepped s a s') {c : CallId} {call : Call} {p : Nat}
    (hc : s'.calls c = some call) (hp : call.phase = .waiting p) :
    s.calls c = some call ∨
      ∃ call₀, s.calls c = some call₀ ∧ call₀.phase = .edited ∧ a = .call c .future ∧
        s'.channel = s.channel.future call₀.filename ∧ p = s.channel.allocated ∧
        call.filename = call₀.filename ∧ call.editedAt = call₀.editedAt := by
  cases h with
  | enter | returnedEmpty | returnedEdited | get =>
    rw [setCall_calls] at hc
    rcases update_cases hc with ⟨rfl, rfl⟩ | ⟨-, hc⟩
    · cases hp
    · exact Or.inl hc
  | editorOpen | editorReplaceText =>
    rw [setCall_calls, edit_calls] at hc
    rcases update_cases hc with ⟨rfl, rfl⟩ | ⟨-, hc⟩
    · cases hp
    · exact Or.inl hc
  | future hc₀ hp₀ =>
    rw [setCall_calls] at hc
    rcases update_cases hc with ⟨rfl, rfl⟩ | ⟨-, hc⟩
    · cases hp
      exact Or.inr ⟨_, hc₀, hp₀, rfl, rfl, rfl, rfl, rfl⟩
    · exact Or.inl hc
  | notify | deliver | discard | readName | query | respond | set => exact Or.inl hc

theorem answered_cases (h : Stepped s a s') {c : CallId} {call : Call} {reply : Reply}
    (hc : s'.calls c = some call) (hp : call.phase = .answered reply) :
    s.calls c = some call ∨
      ∃ call₀ p, s.calls c = some call₀ ∧ call₀.phase = .waiting p ∧
        s.channel.value? p = some reply ∧ call.filename = call₀.filename ∧
        call.editedAt = call₀.editedAt := by
  cases h with
  | enter | returnedEmpty | returnedEdited | future =>
    rw [setCall_calls] at hc
    rcases update_cases hc with ⟨rfl, rfl⟩ | ⟨-, hc⟩
    · cases hp
    · exact Or.inl hc
  | editorOpen | editorReplaceText =>
    rw [setCall_calls, edit_calls] at hc
    rcases update_cases hc with ⟨rfl, rfl⟩ | ⟨-, hc⟩
    · cases hp
    · exact Or.inl hc
  | get hc₀ hp₀ hv =>
    rw [setCall_calls] at hc
    rcases update_cases hc with ⟨rfl, rfl⟩ | ⟨-, hc⟩
    · cases hp
      exact Or.inr ⟨_, _, hc₀, hp₀, hv, rfl, rfl⟩
    · exact Or.inl hc
  | notify | deliver | discard | readName | query | respond | set => exact Or.inl hc

theorem waiting_next (h : Stepped s a s') {c : CallId} {call : Call} {p : Nat}
    (hc : s.calls c = some call) (hp : call.phase = .waiting p) :
    s'.calls c = some call ∨
      ∃ reply, s.channel.value? p = some reply ∧
        s'.calls c = some { call with phase := .answered reply } := by
  cases h with
  | enter hc' =>
    rw [setCall_calls]
    exact Or.inl (update_of_none hc' hc)
  | editorOpen hc' hp' | editorReplaceText hc' hp' =>
    rw [setCall_calls, edit_calls]
    rcases update_of_some hc' hc with ⟨rfl, rfl⟩ | hsame
    · rw [hp] at hp'
      cases hp'
    · exact Or.inl (hsame _)
  | returnedEmpty hc' hp' | returnedEdited hc' hp' | future hc' hp' =>
    rw [setCall_calls]
    rcases update_of_some hc' hc with ⟨rfl, rfl⟩ | hsame
    · rw [hp] at hp'
      cases hp'
    · exact Or.inl (hsame _)
  | get hc' hp' hv =>
    rw [setCall_calls]
    rcases update_of_some hc' hc with ⟨rfl, rfl⟩ | hsame
    · rw [hp, CallPhase.waiting.injEq] at hp'
      subst hp'
      exact Or.inr ⟨_, hv, if_pos rfl⟩
    · exact Or.inl (hsame _)
  | notify | deliver | discard | readName | query | respond | set => exact Or.inl hc

theorem answered_next (h : Stepped s a s') {c : CallId} {call : Call} {reply : Reply}
    (hc : s.calls c = some call) (hp : call.phase = .answered reply) :
    s'.calls c = some call := by
  cases h with
  | enter hc' =>
    rw [setCall_calls]
    exact update_of_none hc' hc
  | editorOpen hc' hp' | editorReplaceText hc' hp' =>
    rw [setCall_calls, edit_calls]
    rcases update_of_some hc' hc with ⟨rfl, rfl⟩ | hsame
    · rw [hp] at hp'
      cases hp'
    · exact hsame _
  | returnedEmpty hc' hp' | returnedEdited hc' hp' | future hc' hp' | get hc' hp' =>
    rw [setCall_calls]
    rcases update_of_some hc' hc with ⟨rfl, rfl⟩ | hsame
    · rw [hp] at hp'
      cases hp'
    · exact hsame _
  | notify | deliver | discard | readName | query | respond | set => exact hc

/-! ## Receivers -/

/-- An update of a receiver that has not returned, seen from any receiver. -/
theorem handler_update {handlers : HandlerId → Option Handler} {i j : HandlerId}
    {updated updated' handler : Handler} (hj : handlers j = some updated)
    (hh : handlers i = some handler) (hpayload : updated'.payload = updated.payload)
    (hreturned : ∀ r, updated.phase ≠ .finished r) :
    ∃ handler', (if i = j then some updated' else handlers i) = some handler' ∧
      handler'.payload = handler.payload ∧ ∀ r, handler.phase = .finished r → handler' = handler := by
  rcases update_of_some hj hh with ⟨rfl, rfl⟩ | hsame
  · exact ⟨updated', if_pos rfl, hpayload, fun r hr => absurd hr (hreturned r)⟩
  · exact ⟨handler, hsame _, rfl, fun _ _ => rfl⟩

/-- A receiver keeps its payload, and once it has returned it does nothing. -/
theorem handler_next (h : Stepped s a s') {i : HandlerId} {handler : Handler}
    (hh : s.handlers i = some handler) :
    ∃ handler', s'.handlers i = some handler' ∧ handler'.payload = handler.payload ∧
      ∀ r, handler.phase = .finished r → handler' = handler := by
  cases h with
  | enter | editorOpen | editorReplaceText | returnedEmpty | returnedEdited | future | get
  | notify => exact ⟨handler, hh, rfl, fun _ _ => rfl⟩
  | deliver hn =>
    refine ⟨handler, ?_, rfl, fun _ _ => rfl⟩
    rw [setHandler_handlers]
    exact update_of_none hn hh
  | discard hj hp | readName hj hp | query hj hp | set hj hp =>
    rw [setHandler_handlers]
    exact handler_update hj hh rfl fun r => by simp [hp]
  | respond hj hp =>
    rw [setHandler_handlers, edit_handlers]
    exact handler_update hj hh rfl fun r => by simp [hp]

/-! ## The channel -/

theorem channel_cases (h : Stepped s a s') :
    s'.channel = s.channel ∨
      (∃ c call, s.calls c = some call ∧ call.phase = .edited ∧ a = .call c .future ∧
        s'.channel = s.channel.future call.filename) ∨
      ∃ i handler semaName reply, s.handlers i = some handler ∧
        handler.phase = .queried semaName reply ∧
        s'.handlers i = some { handler with phase := .finished (some reply) } ∧
        s'.channel = s.channel.set semaName reply := by
  cases h with
  | enter | editorOpen | editorReplaceText | returnedEmpty | returnedEdited | get | notify
  | deliver | discard | readName | query | respond => exact Or.inl rfl
  | future hc hp => exact Or.inr (Or.inl ⟨_, _, hc, hp, rfl, rfl⟩)
  | set hh hp =>
    refine Or.inr (Or.inr ⟨_, _, _, _, hh, hp, ?_, rfl⟩)
    exact setHandler_self _ _ _

end Stepped

end Sema
end SSVim
