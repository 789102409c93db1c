/-
Stranded calls: a promise that no notification will fulfil.

A notification for a file is pending from the edit that causes it until its
receiver executes `set`.  Only a `set` on the file ends that, and the same `set`
empties the list of the file's promises, so the one way to strand a promise is to
register it when nothing is pending.  `registersPending` is that condition on the
registration, in the state before it.
-/
import SSVim.Sema.Delivery
import SSVim.Sema.Notifications

namespace SSVim
namespace Sema

open Transition SourceKit

/-- A notification for `key` is undelivered, or a receiver that has not executed
its `set` has it. -/
def Pending (s : State) (key : Str) : Prop :=
  (∃ payload ∈ s.undelivered, payload.semaName? = some key) ∨
    ∃ i handler, s.handlers i = some handler ∧ handler.payload.semaName? = some key ∧
      ∀ reply, handler.phase ≠ .finished reply

/-- Every promise that is registered and not fulfilled has a notification to
wait for. -/
def NoneStranded (s : State) : Prop :=
  ∀ key, s.channel.Registered key → Pending s key

/-- A call registers its promise while a notification for its file is pending. -/
def registersPending (s : State) : Action → Prop
  | .call c .future => ∀ call ∈ s.calls c, Pending s call.filename
  | _ => True

theorem noneStranded_init (documents : Str → Str) : NoneStranded (State.init documents) := by
  intro key h
  exact absurd rfl h

section
variable {s s' : State} {a : Action} {key : Str}

theorem pending_of_handler {i : HandlerId} {handler : Handler}
    (hh : s.handlers i = some handler) (hn : handler.payload.semaName? = some key)
    (hp : ∀ reply, handler.phase ≠ .finished reply) : Pending s key :=
  Or.inr ⟨i, handler, hh, hn, hp⟩

theorem pending_of_undelivered {payload : Payload} (hm : payload ∈ s.undelivered)
    (hn : payload.semaName? = some key) : Pending s key :=
  Or.inl ⟨payload, hm, hn⟩

theorem Stepped.undelivered_next (h : Stepped s a s') {payload : Payload}
    (hm : payload ∈ s.undelivered) (hn : payload.semaName? = some key) : Pending s' key := by
  cases h with
  | enter | returnedEmpty | returnedEdited | future | get | discard | readName | query | set =>
    exact pending_of_undelivered hm hn
  | editorOpen | editorReplaceText | respond =>
    exact pending_of_undelivered (List.mem_append_left _ hm) hn
  | notify => exact pending_of_undelivered (List.mem_append_left _ hm) hn
  | @deliver i payload' hh =>
    by_cases hp : payload = payload'
    · subst hp
      have hi : (({ s with undelivered := s.undelivered.erase payload }.setHandler i
          { payload := payload, phase := .delivered })).handlers i =
            some { payload := payload, phase := .delivered } := by
        exact setHandler_self _ _ _
      exact pending_of_handler hi hn fun reply => HandlerPhase.noConfusion
    · exact pending_of_undelivered ((List.mem_erase_of_ne hp).mpr hm) hn

/-- A receiver that has a notification for `key` goes on with it until it
executes `set`. -/
theorem Stepped.processing_next (hs : Linked s) (h : Stepped s a s') {i : HandlerId}
    {handler : Handler} (hh : s.handlers i = some handler)
    (hn : handler.payload.semaName? = some key)
    (hp : ∀ reply, handler.phase ≠ .finished reply) :
    Pending s' key ∨ ∃ reply, s'.channel = s.channel.set key reply := by
  cases h with
  | enter | editorOpen | editorReplaceText | returnedEmpty | returnedEdited | future | get
  | notify => exact Or.inl (pending_of_handler hh hn hp)
  | deliver hj =>
    refine Or.inl (pending_of_handler (i := i) ?_ hn hp)
    rw [setHandler_handlers]
    exact update_of_none hj hh
  | discard hj _ hd =>
    rcases update_of_some hj hh with ⟨rfl, rfl⟩ | hsame
    · rw [hn] at hd
      cases hd
    · refine Or.inl (pending_of_handler (i := i) ?_ hn hp)
      rw [setHandler_handlers]
      exact hsame _
  | readName hj | query hj | respond hj =>
    rcases update_of_some hj hh with ⟨rfl, rfl⟩ | hsame
    · exact Or.inl (Or.inr ⟨_, _, setHandler_self _ _ _, hn, fun _ => HandlerPhase.noConfusion⟩)
    · refine Or.inl (pending_of_handler (i := i) ?_ hn hp)
      rw [setHandler_handlers]
      exact hsame _
  | @set j handler₀ semaName reply hj hq =>
    rcases update_of_some hj hh with ⟨rfl, rfl⟩ | hsame
    · -- the receiver that executes `set` has the name of its notification
      have hc := hs.consistent j handler₀ hj
      rw [Handler.Consistent, hq] at hc
      rw [hc.1, Option.some.injEq] at hn
      exact Or.inr ⟨reply, hn ▸ rfl⟩
    · refine Or.inl (pending_of_handler (i := i) ?_ hn hp)
      rw [setHandler_handlers]
      exact hsame _

theorem Pending.step (hs : Linked s) (hp : Pending s key) (h : Stepped s a s') :
    Pending s' key ∨ ∃ reply, s'.channel = s.channel.set key reply := by
  rcases hp with ⟨payload, hm, hn⟩ | ⟨i, handler, hh, hn, hphase⟩
  · exact Or.inl (h.undelivered_next hm hn)
  · exact h.processing_next hs hh hn hphase

theorem noneStranded_step (hs : Linked s) (hnone : NoneStranded s) (hok : registersPending s a)
    (h : Stepped s a s') : NoneStranded s' := by
  intro key hreg
  have hpending : Pending s key := by
    rcases h.channel_cases with hch | ⟨c, call, hc, -, rfl, hch⟩ |
      ⟨i, handler, semaName, reply, -, -, -, hch⟩
    · exact hnone key (hch ▸ hreg)
    · by_cases hk : key = call.filename
      · rw [hk]
        exact hok call hc
      · rw [hch, FutureChannel.Registered, FutureChannel.entries_future, if_neg hk] at hreg
        exact hnone key hreg
    · by_cases hk : key = semaName
      · rw [hch, FutureChannel.Registered, FutureChannel.entries_set, if_pos hk] at hreg
        exact absurd rfl hreg
      · rw [hch, FutureChannel.Registered, FutureChannel.entries_set, if_neg hk] at hreg
        exact hnone key hreg
  rcases hpending.step hs h with hp | ⟨reply, hch⟩
  · exact hp
  · rw [hch, FutureChannel.Registered, FutureChannel.entries_set, if_pos rfl] at hreg
    exact absurd rfl hreg

theorem stranded_of_future {c : CallId} {call : Call} (hc : s.calls c = some call)
    (hp : ¬ Pending s call.filename) (h : Stepped s (.call c .future) s') :
    ¬ NoneStranded s' := by
  intro hnone
  cases h with
  | future hc' =>
    rw [hc, Option.some.injEq] at hc'
    subst hc'
    refine hp (hnone call.filename ?_)
    rw [setCall_channel, FutureChannel.Registered, FutureChannel.entries_future, if_pos rfl]
    exact List.concat_ne_nil _ _

end

/-- No run in which every call registers its promise while a notification for its
file is pending strands a promise, and a registration at any other time does. -/
theorem noneStranded_of_registersPending (documents : Str → Str) :
    (∀ s, step.Reaches (fun s a => owes s a ∧ registersPending s a) (State.init documents) s →
      NoneStranded s) ∧
    (∀ s a s', step.Reaches owes (State.init documents) s → owes s a → step s a = some s' →
      ¬ registersPending s a → ¬ NoneStranded s') := by
  constructor
  · intro s h
    exact h.invariant_of
      (fun _ _ _ hl _ ha => linked_step hl (stepped_of_step ha))
      (fun _ _ _ hn hl hok ha => noneStranded_step hl hn hok.2 (stepped_of_step ha))
      (noneStranded_init documents) (linked_init documents)
  · intro s a s' _ _ ha hok
    cases a with
    | call c a =>
      cases a with
      | future =>
        simp only [registersPending, not_forall] at hok
        obtain ⟨call, hc, hp⟩ := hok
        exact stranded_of_future hc hp (stepped_of_step ha)
      | editorOpen | editorReplaceText | editorReturned | get => exact absurd trivial hok
    | enter | notify | deliver | handler => exact absurd trivial hok

/-- Both notifications that a call's edits cause are handled before the call
registers its promise. -/
def handledEarly : List Action :=
  [.enter 0 (lit "a") (lit "x") [],
   .call 0 (.editorOpen (some []) [.dictionary (some (lit "a"))]),
   .deliver 0 (.dictionary (some (lit "a"))),
   .handler 0 .readName, .handler 0 .query, .handler 0 (.respond true []), .handler 0 .set,
   .call 0 (.editorReplaceText (some []) [.dictionary (some (lit "a"))]),
   .deliver 1 (.dictionary (some (lit "a"))),
   .handler 1 .readName, .handler 1 .query, .handler 1 (.respond true []), .handler 1 .set,
   .call 0 .editorReturned]

theorem handledEarly_strands :
    ¬ ∀ s, step.Reaches owes (State.init fun _ => []) s → NoneStranded s := by
  intro hall
  have hrun : (step.runIf owes (State.init fun _ => []) handledEarly).map
      (fun s => (s.undelivered, (s.calls 0).map fun call => (call.filename, call.phase),
        (s.handlers 0).map Handler.phase, (s.handlers 1).map Handler.phase)) =
      some ([], some (lit "a", .edited),
        some (.finished (some ⟨0, semaRequest (lit "a"), 4, []⟩)),
        some (.finished (some ⟨1, semaRequest (lit "a"), 10, []⟩))) := by
    decide
  obtain ⟨s, hs, hobs⟩ := Option.map_eq_some_iff.mp hrun
  simp only [Prod.mk.injEq, Option.map_eq_some_iff] at hobs
  obtain ⟨hundelivered, ⟨call, hc, hf, hp⟩, ⟨handler₀, hh₀, hp₀⟩, handler₁, hh₁, hp₁⟩ := hobs
  have hnot : ¬ Pending s call.filename := by
    rintro (⟨payload, hm, -⟩ | ⟨i, handler, hh, -, hphase⟩)
    · rw [hundelivered] at hm
      cases hm
    · by_cases h₀ : i = 0
      · rw [h₀, hh₀, Option.some.injEq] at hh
        exact hphase _ (hh ▸ hp₀)
      · by_cases h₁ : i = 1
        · rw [h₁, hh₁, Option.some.injEq] at hh
          exact hphase _ (hh ▸ hp₁)
        · have hstarts : handledEarly.filterMap Action.starts? = [0, 1] := by decide
          have hnone := not_started_of_runIf hs (i := i) rfl (by simp [hstarts, h₀, h₁])
          rw [hnone] at hh
          cases hh
  have hreach := Machine.reaches_of_runIf hs
  have hstep : step s (.call 0 .future) =
      some ({ s with channel := s.channel.future call.filename }.setCall 0
        { call with phase := .waiting s.channel.allocated }) := by
    simp only [step, hc, Option.bind_some, stepCall, hp]
  have howes : owes s (.call 0 .future) :=
    ⟨fun _ _ payload hm => absurd hm List.not_mem_nil, fun _ _ => Bool.noConfusion⟩
  exact stranded_of_future hc hnot (stepped_of_step hstep) (hall _ (hreach.snoc howes hstep))

end Sema
end SSVim
