/-
The diagnostics protocol is one-shot publish and subscribe.

A call is a subscriber to its file: registering its promise subscribes it, and the `set` of
a receiver is a publication for the name it holds.  All other steps are invisible from
there.  What a call has is the value of its promise, whether it got to read it or not.
-/
import SSVim.Sema.Waiters
import SSVim.Transition.Refinement
import SSVim.Transition.Subscription

namespace SSVim
namespace Sema

open Transition Subscription

def CallPhase.standing (channel : FutureChannel Str Reply) : CallPhase → Standing Reply
  | .waiting promise =>
    match channel.value? promise with
    | some reply => .answered reply
    | none => .waiting
  | .returned _ => .left
  | .answered reply => .answered reply
  | _ => .joined

theorem standing_waiting {channel : FutureChannel Str Reply} {p : Nat}
    (h : channel.value? p = none) : (CallPhase.waiting p).standing channel = .waiting := by
  rw [CallPhase.standing, h]

def Call.subscriber (channel : FutureChannel Str Reply) (call : Call) : Subscriber Str Reply :=
  ⟨call.filename, call.phase.standing channel⟩

namespace State

/-- The calls of the state as subscribers to their files. -/
def board (s : State) : Board CallId Str Reply :=
  fun c => (s.calls c).map (Call.subscriber s.channel)

/-- The step of publish and subscribe that a step of the protocol is. -/
def subscription? (s : State) : Action → Option (Subscription.Action CallId Str Reply)
  | .enter c filename _ _ => some (.join c filename)
  | .call c .future => some (.subscribe c)
  | .call c .editorReturned =>
    (s.calls c).bind fun call => if call.phase = .replaced none then some (.leave c) else none
  | .handler h .set =>
    (s.handlers h).bind fun handler =>
      match handler.phase with
      | .queried semaName reply => some (.publish semaName reply)
      | _ => none
  | _ => none

end State

section
variable {s s' : State} {a : Action}

theorem board_setCall (s : State) (c : CallId) (call : Call) :
    (s.setCall c call).board = Function.update s.board c (some (call.subscriber s.channel)) := by
  funext c'
  by_cases hc : c' = c
  · subst hc
    rw [Function.update_self, State.board, setCall_self]
    rfl
  · rw [Function.update_of_ne hc, State.board, setCall_calls, if_neg hc]
    rfl

theorem board_of_calls {c : CallId} {call : Call} (hc : s.calls c = some call) :
    s.board c = some (call.subscriber s.channel) := by
  rw [State.board, hc]
  rfl

/-- A change of a call that does not change what it has. -/
theorem board_setCall_same {c : CallId} {call call' : Call} (hc : s.calls c = some call)
    (h : call'.subscriber s.channel = call.subscriber s.channel) :
    (s.setCall c call').board = s.board := by
  rw [board_setCall, h, ← board_of_calls hc, Function.update_eq_self]

theorem board_edit (s : State) (request : SourceKit.Request) (success : Bool)
    (caused : List Payload) : (s.edit request success caused).board = s.board := rfl

/-- A promise that is not made yet has no value. -/
theorem value?_allocated (channel : FutureChannel Str Reply) :
    channel.value? channel.allocated = none := by
  refine List.lookup_eq_none_iff.mpr fun e he => ?_
  have hlt := channel.wf.setOld e he
  simpa using Nat.ne_of_gt hlt

theorem board_future (s : State) (key : Str) :
    ({ s with channel := s.channel.future key } : State).board = s.board := by
  funext c
  show (s.calls c).map (Call.subscriber (s.channel.future key)) = _
  congr 1

/-- `set` reaches the calls that wait for its key, and no others. -/
theorem board_set (hs : Linked s) (key : Str) (reply : Reply) :
    ({ s with channel := s.channel.set key reply } : State).board = publish s.board key reply := by
  funext c
  cases hc : s.calls c with
  | none =>
    show (s.calls c).map _ = ((s.calls c).map _).map _
    rw [hc]
    rfl
  | some call =>
    rw [publish_apply (board_of_calls hc)]
    show (s.calls c).map (Call.subscriber (s.channel.set key reply)) = _
    rw [hc, Option.map_some, Call.subscriber, Call.subscriber]
    cases hp : call.phase with
    | waiting p =>
      simp only [CallPhase.standing, FutureChannel.value?_set]
      rcases hs.waiting c call p hc hp with hmem | ⟨reply', hv, -⟩
      · rw [FutureChannel.value?_of_mem hmem]
        by_cases hkey : call.filename = key
        · rw [if_pos (hkey ▸ hmem), Subscriber.hear, if_pos hkey]
        · rw [if_neg, Subscriber.hear, if_neg hkey]
          exact fun hmem' => hkey (s.channel.wf.disjoint _ _ p hmem hmem')
      · rw [if_neg, hv]
        · rfl
        · intro hmem
          rw [FutureChannel.value?_of_mem hmem] at hv
          cases hv
    | entered | opened | replaced | edited | returned | answered => rfl

theorem subscription_stutter (h : Stepped s a s')
    (hlabel : s.subscription? a = none) : s'.board = s.board := by
  cases h with
  | enter | future => cases hlabel
  | editorOpen hc hp | editorReplaceText hc hp =>
    refine (board_setCall_same (s := s.edit _ _ _) hc ?_).trans (board_edit _ _ _ _)
    rw [Call.subscriber, Call.subscriber, hp]
    rfl
  | returnedEmpty hc hp =>
    rw [State.subscription?, hc, Option.bind_some, if_pos hp] at hlabel
    cases hlabel
  | returnedEdited hc hp =>
    refine board_setCall_same hc ?_
    rw [Call.subscriber, Call.subscriber, hp]
    rfl
  | get hc hp hv =>
    refine board_setCall_same hc ?_
    rw [Call.subscriber, Call.subscriber, hp, CallPhase.standing, CallPhase.standing, hv]
  | notify | deliver | discard | readName | query | respond => rfl
  | set hh hp =>
    rw [State.subscription?, hh, Option.bind_some, hp] at hlabel
    cases hlabel

theorem subscription_step (hs : Linked s) (h : Stepped s a s')
    {b : Subscription.Action CallId Str Reply} (hlabel : s.subscription? a = some b) :
    Subscription.step s.board b = some s'.board := by
  cases h with
  | @enter c filename contents flags hc =>
    cases hlabel
    have hnone : s.board c = none := by
      rw [State.board, hc]
      rfl
    rw [board_setCall, Subscription.step, hnone]
    rfl
  | @future c call hc hp =>
    cases hlabel
    have hjoined : s.board c = some ⟨call.filename, .joined⟩ := by
      rw [board_of_calls hc, Call.subscriber, hp]
      rfl
    have hwaiting : (CallPhase.waiting s.channel.allocated).standing
        (s.channel.future call.filename) = .waiting :=
      standing_waiting (value?_allocated s.channel)
    rw [Subscription.step, move_of_joined hjoined, board_setCall, board_future, Call.subscriber]
    exact congrArg
      (fun standing => some (Function.update s.board c (some ⟨call.filename, standing⟩)))
      hwaiting.symm
  | @returnedEmpty c call hc hp =>
    rw [State.subscription?, hc, Option.bind_some, if_pos hp] at hlabel
    cases hlabel
    have hjoined : s.board c = some ⟨call.filename, .joined⟩ := by
      rw [board_of_calls hc, Call.subscriber, hp]
      rfl
    rw [Subscription.step, move_of_joined hjoined, board_setCall]
    rfl
  | @returnedEdited c call response hc hp =>
    rw [State.subscription?, hc, Option.bind_some, if_neg] at hlabel
    · cases hlabel
    · rw [hp]
      intro hempty
      cases hempty
  | @set h handler semaName reply hh hp =>
    rw [State.subscription?, hh, Option.bind_some, hp] at hlabel
    cases hlabel
    exact congrArg some (board_set hs semaName reply).symm
  | editorOpen | editorReplaceText | get | notify | deliver | discard | readName | query
  | respond => cases hlabel

end

theorem refines_subscription (documents : Str → Str) :
    Machine.Refines step Machine.free (State.init documents) Subscription.step
      (Subscription.empty : Board CallId Str Reply) State.board State.subscription? :=
  .of_invariant rfl (linked_init documents)
    (fun _ _ _ hs _ ha => linked_step hs (stepped_of_step ha))
    (fun _ _ _ _ ha => subscription_stutter (stepped_of_step ha))
    (fun _ _ _ _ hs ha => subscription_step hs (stepped_of_step ha))

/-- What a call has is a reply for its file. -/
theorem repliesFor_of_board {documents : Str → Str} {s : State}
    (h : step.Reaches Machine.free (State.init documents) s) {c : CallId} {filename : Str}
    {reply : Reply} (hc : s.board c = some ⟨filename, .answered reply⟩) :
    RepliesFor s filename reply := by
  have hl := linked_reaches h (linked_init documents)
  obtain ⟨call, hcall, hsub⟩ := Option.map_eq_some_iff.mp hc
  rw [Call.subscriber, Subscriber.mk.injEq] at hsub
  obtain ⟨rfl, hstanding⟩ := hsub
  cases hp : call.phase with
  | entered | opened | replaced | edited | returned =>
    rw [hp] at hstanding
    cases hstanding
  | answered reply' =>
    rw [hp] at hstanding
    cases hstanding
    exact hl.answered c call reply hcall hp
  | waiting p =>
    rw [hp, CallPhase.standing] at hstanding
    rcases hl.waiting c call p hcall hp with hmem | ⟨reply', hv, hr⟩
    · rw [FutureChannel.value?_of_mem hmem] at hstanding
      cases hstanding
    · rw [hv] at hstanding
      cases hstanding
      exact hr

end Sema
end SSVim
