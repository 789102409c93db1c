/-
Freshness: an answer is newer than the edit of the call that returns it.

The channel knows a result by its file name alone, so a promise takes the result
of whichever receiver for the name executes `set` next.  A query sent once the
promise is registered is newer than the edit of the call.  What decides is the
queries in flight at the registration, and `registersFresh` asks of these that
they were sent after the edit returned.
-/
import SSVim.Sema.Delivery
import SSVim.Sema.Notifications

namespace SSVim
namespace Sema

open Transition SourceKit

/-- The name and the time of a query that was sent and whose result is not set. -/
def HandlerPhase.query? : HandlerPhase → Option (Str × Nat)
  | .querying semaName sentAt => some (semaName, sentAt)
  | .queried semaName reply => some (semaName, reply.sentAt)
  | _ => none

/-- Each answer comes from a query sent after `EditorReplaceText` returned. -/
def Fresh (s : State) : Prop :=
  ∀ c call reply, s.calls c = some call → call.phase = .answered reply →
    call.editedAt < reply.sentAt

/-- Every query for `filename` that is in flight was sent after `time`. -/
def QueriesAfter (s : State) (filename : Str) (time : Nat) : Prop :=
  ∀ i handler sentAt, s.handlers i = some handler →
    handler.phase.query? = some (filename, sentAt) → time < sentAt

/-- A call registers its promise when no query for its file that precedes the
return of its edit is in flight. -/
def registersFresh (s : State) : Action → Prop
  | .call c .future => ∀ call ∈ s.calls c, QueriesAfter s call.filename call.editedAt
  | _ => True

/-- What the promise of a waiting call has or will get is newer than `time`. -/
def AwaitsAfter (s : State) (filename : Str) (time p : Nat) : Prop :=
  (p ∈ s.channel.entries filename ∧ QueriesAfter s filename time) ∨
    ∃ reply, s.channel.value? p = some reply ∧ time < reply.sentAt

structure Timely (s : State) : Prop where
  past : ∀ c call, s.calls c = some call → call.editedAt < s.clock
  waiting : ∀ c call p, s.calls c = some call → call.phase = .waiting p →
    AwaitsAfter s call.filename call.editedAt p
  answered : Fresh s

theorem timely_init (documents : Str → Str) : Timely (State.init documents) where
  past c call h := by cases h
  waiting c call p h := by cases h
  answered c call reply h := by cases h

section
variable {s s' : State} {a : Action}

theorem Stepped.query_cases (h : Stepped s a s') {i : HandlerId} {handler : Handler}
    {q : Str × Nat} (hh : s'.handlers i = some handler) (hq : handler.phase.query? = some q) :
    (∃ handler₀, s.handlers i = some handler₀ ∧ handler₀.phase.query? = some q) ∨
      q.2 = s.clock := by
  cases h with
  | enter | editorOpen | editorReplaceText | returnedEmpty | returnedEdited | future | get
  | notify => exact Or.inl ⟨handler, hh, hq⟩
  | deliver | discard | readName | set =>
    rw [setHandler_handlers] at hh
    rcases update_cases hh with ⟨rfl, rfl⟩ | ⟨-, hh⟩
    · cases hq
    · exact Or.inl ⟨handler, hh, hq⟩
  | query =>
    rw [setHandler_handlers] at hh
    rcases update_cases hh with ⟨rfl, rfl⟩ | ⟨-, hh⟩
    · cases hq
      exact Or.inr rfl
    · exact Or.inl ⟨handler, hh, hq⟩
  | respond hj hp =>
    rw [setHandler_handlers, edit_handlers] at hh
    rcases update_cases hh with ⟨rfl, rfl⟩ | ⟨-, hh⟩
    · refine Or.inl ⟨_, hj, ?_⟩
      rw [hp]
      exact hq
    · exact Or.inl ⟨handler, hh, hq⟩

theorem QueriesAfter.step {filename : Str} {time : Nat} (hq : QueriesAfter s filename time)
    (htime : time < s.clock) (h : Stepped s a s') : QueriesAfter s' filename time := by
  intro i handler sentAt hh hquery
  rcases h.query_cases hh hquery with ⟨handler₀, hh₀, hq₀⟩ | hnow
  · exact hq i handler₀ sentAt hh₀ hq₀
  · have hsent : sentAt = s.clock := hnow
    omega

/-- The promise of a waiting call gets its value from a query in flight for its
file. -/
theorem AwaitsAfter.step {filename : Str} {time p : Nat}
    (hw : AwaitsAfter s filename time p) (htime : time < s.clock) (h : Stepped s a s') :
    AwaitsAfter s' filename time p := by
  rcases hw with ⟨hmem, hq⟩ | ⟨reply, hv, hlt⟩
  · have hq' : QueriesAfter s' filename time := hq.step htime h
    rcases h.channel_cases with hch | ⟨c, call, -, -, -, hch⟩ |
      ⟨i, handler, semaName, reply, hh, hp, -, hch⟩
    · exact Or.inl ⟨hch ▸ hmem, hq'⟩
    · refine Or.inl ⟨?_, hq'⟩
      rw [hch]
      exact FutureChannel.mem_entries_future hmem
    · by_cases hf : filename = semaName
      · subst hf
        refine Or.inr ⟨reply, ?_, hq i handler reply.sentAt hh ?_⟩
        · rw [hch, FutureChannel.value?_set, if_pos hmem]
        · rw [hp]
          rfl
      · refine Or.inl ⟨?_, hq'⟩
        rw [hch, FutureChannel.entries_set, if_neg hf]
        exact hmem
  · exact Or.inr ⟨reply, value?_step h hv, hlt⟩

theorem Stepped.editedAt_cases (h : Stepped s a s') {c : CallId} {call : Call}
    (hc : s'.calls c = some call) :
    (∃ call₀, s.calls c = some call₀ ∧ call.editedAt = call₀.editedAt) ∨
      call.editedAt ≤ s.clock := by
  cases h with
  | enter =>
    rw [setCall_calls] at hc
    rcases update_cases hc with ⟨rfl, rfl⟩ | ⟨-, hc⟩
    · exact Or.inr (Nat.zero_le _)
    · exact Or.inl ⟨call, hc, rfl⟩
  | returnedEmpty | returnedEdited =>
    rw [setCall_calls] at hc
    rcases update_cases hc with ⟨rfl, rfl⟩ | ⟨-, hc⟩
    · exact Or.inr (le_refl _)
    · exact Or.inl ⟨call, hc, rfl⟩
  | editorOpen hc₀ | editorReplaceText hc₀ | future hc₀ | get hc₀ =>
    rw [setCall_calls] at hc
    rcases update_cases hc with ⟨rfl, rfl⟩ | ⟨-, hc⟩
    · exact Or.inl ⟨_, hc₀, rfl⟩
    · exact Or.inl ⟨call, hc, rfl⟩
  | notify | deliver | discard | readName | query | respond | set =>
    exact Or.inl ⟨call, hc, rfl⟩

theorem timely_step (ht : Timely s) (hok : registersFresh s a) (h : Stepped s a s') :
    Timely s' where
  past c call hc := by
    rw [h.clock]
    rcases h.editedAt_cases hc with ⟨call₀, hc₀, heq⟩ | hle
    · have hpast := ht.past c call₀ hc₀
      omega
    · omega
  waiting c call p hc hp := by
    rcases h.waiting_cases hc hp with hc | ⟨call₀, hc₀, -, rfl, hch, hpa, hf, he⟩
    · exact (ht.waiting c call p hc hp).step (ht.past c call hc) h
    · have hq : QueriesAfter s' call₀.filename call₀.editedAt :=
        (hok call₀ hc₀).step (ht.past c call₀ hc₀) h
      rw [hf, he]
      refine Or.inl ⟨?_, hq⟩
      rw [hch, hpa]
      exact FutureChannel.allocated_mem_future _ _
  answered c call reply hc hp := by
    rcases h.answered_cases hc hp with hc | ⟨call₀, p, hc₀, hp₀, hv, -, he⟩
    · exact ht.answered c call reply hc hp
    · rw [he]
      rcases ht.waiting c call₀ p hc₀ hp₀ with ⟨hmem, -⟩ | ⟨reply', hv', hlt⟩
      · rw [FutureChannel.value?_of_mem hmem] at hv
        cases hv
      · rw [hv, Option.some.injEq] at hv'
        exact hv' ▸ hlt

end

/-! ## A query in flight reaches the call -/

section
variable {s : State} {c : CallId} {call : Call} {p : Nat} {i : HandlerId} {handler : Handler}

theorem mayNotify_handler (s : State) (i : HandlerId) (a : HandlerAction) :
    mayNotify s (.handler i a) := trivial

theorem mayNotify_get (s : State) (c : CallId) : mayNotify s (.call c .get) :=
  fun _ _ _ hm => absurd hm List.not_mem_nil

theorem reaches_answered_of_queried {reply : Reply} (hc : s.calls c = some call)
    (hp : call.phase = .waiting p) (hmem : p ∈ s.channel.entries call.filename)
    (hh : s.handlers i = some handler) (hq : handler.phase = .queried call.filename reply) :
    ∃ s', step.Reaches mayNotify s s' ∧
      s'.calls c = some { call with phase := .answered reply } := by
  have hset : step s (.handler i .set) =
      some ({ s with channel := s.channel.set call.filename reply }.setHandler i
        { handler with phase := .finished (some reply) }) := by
    simp only [step, hh, Option.bind_some, stepHandler, hq]
  have hget : ∀ t : State, t.calls c = some call → t.channel.value? p = some reply →
      step t (.call c .get) = some (t.setCall c { call with phase := .answered reply }) := by
    intro t htc htv
    simp only [step, htc, Option.bind_some, stepCall, hp, htv]
  refine ⟨_, (Machine.Reaches.single (mayNotify_handler s i _) hset).snoc (mayNotify_get _ c)
    (hget _ hc ?_), ?_⟩
  · rw [setHandler_channel, FutureChannel.value?_set, if_pos hmem]
  · exact setCall_self _ _ _

theorem reaches_answered_of_query {sentAt : Nat} (hc : s.calls c = some call)
    (hp : call.phase = .waiting p) (hmem : p ∈ s.channel.entries call.filename)
    (hh : s.handlers i = some handler)
    (hq : handler.phase.query? = some (call.filename, sentAt)) :
    ∃ s' reply, step.Reaches mayNotify s s' ∧ reply.sentAt = sentAt ∧
      s'.calls c = some { call with phase := .answered reply } := by
  cases hphase : handler.phase with
  | queried semaName reply =>
    rw [hphase] at hq
    cases hq
    obtain ⟨s', hrun, hc'⟩ := reaches_answered_of_queried hc hp hmem hh hphase
    exact ⟨s', reply, hrun, rfl, hc'⟩
  | querying semaName time =>
    rw [hphase] at hq
    cases hq
    let reply : Reply :=
      { handler := i, request := semaRequest call.filename, sentAt := sentAt, text := [] }
    obtain ⟨t, hrespond, hcalls, hchannel, hhandler⟩ :
        ∃ t, step s (.handler i (.respond true [])) = some t ∧ t.calls = s.calls ∧
          t.channel = s.channel ∧
          t.handlers i = some { handler with phase := .queried call.filename reply } := by
      refine ⟨(s.edit (semaRequest call.filename) true []).setHandler i
        { handler with phase := .queried call.filename reply }, ?_, rfl, rfl, ?_⟩
      · simp only [step, hh, Option.bind_some, stepHandler, hphase, reply]
      · exact setHandler_self _ _ _
    obtain ⟨s', hrun, hc'⟩ :=
      reaches_answered_of_queried (hcalls ▸ hc) hp (hchannel ▸ hmem) hhandler rfl
    have hfirst := Machine.Reaches.single (mayNotify_handler s i _) hrespond
    exact ⟨s', reply, hfirst.trans hrun, rfl, hc'⟩
  | delivered | named | finished =>
    rw [hphase] at hq
    cases hq

/-- A registration that an older query in flight overlaps may end in a stale
answer. -/
theorem stale_of_future {s' : State} (hc : s.calls c = some call)
    (hq : ¬ QueriesAfter s call.filename call.editedAt) (h : Stepped s (.call c .future) s') :
    ∃ s'', step.Reaches mayNotify s' s'' ∧ ¬ Fresh s'' := by
  simp only [QueriesAfter, not_forall] at hq
  obtain ⟨i, handler, sentAt, hh, hquery, hlate⟩ := hq
  cases h with
  | future hc' =>
    rw [hc, Option.some.injEq] at hc'
    subst hc'
    have hwaiting : ({ s with channel := s.channel.future call.filename }.setCall c
        { call with phase := .waiting s.channel.allocated }).calls c =
          some { call with phase := .waiting s.channel.allocated } := by
      exact setCall_self _ _ _
    obtain ⟨s'', reply, hrun, hsent, hc''⟩ := reaches_answered_of_query hwaiting rfl
      (FutureChannel.allocated_mem_future _ _) hh hquery
    refine ⟨s'', hrun, fun hfresh => hlate ?_⟩
    have hlt := hfresh c _ reply hc'' rfl
    exact hsent ▸ hlt

end

/-- Answers are fresh in every run in which no call registers its promise while a
query for its file from before its edit is in flight, and a registration at such a
time has a continuation that returns a stale answer. -/
theorem fresh_of_registersFresh (documents : Str → Str) :
    (∀ s, step.Reaches (fun s a => mayNotify s a ∧ registersFresh s a) (State.init documents) s →
      Fresh s) ∧
    (∀ s a s', step.Reaches mayNotify (State.init documents) s → mayNotify s a →
      step s a = some s' → ¬ registersFresh s a →
      ∃ s'', step.Reaches mayNotify s' s'' ∧ ¬ Fresh s'') := by
  constructor
  · intro s h
    have ht : Timely s := h.invariant
      (fun _ _ _ ht hok ha => timely_step ht hok.2 (stepped_of_step ha)) (timely_init documents)
    exact ht.answered
  · intro s a s' _ _ ha hok
    cases a with
    | call c a =>
      cases a with
      | future =>
        simp only [registersFresh, not_forall] at hok
        obtain ⟨call, hc, hq⟩ := hok
        exact stale_of_future hc hq (stepped_of_step ha)
      | editorOpen | editorReplaceText | editorReturned | get => exact absurd trivial hok
    | enter | notify | deliver | handler => exact absurd trivial hok

/-- The receiver that `EditorOpen` causes queries before `EditorReplaceText` and
sets its result after the registration. -/
def queriedEarly : List Action :=
  [.enter 0 (lit "a") (lit "x") [],
   .call 0 (.editorOpen (some []) [.dictionary (some (lit "a"))]),
   .deliver 0 (.dictionary (some (lit "a"))),
   .handler 0 .readName, .handler 0 .query, .handler 0 (.respond true []),
   .call 0 (.editorReplaceText (some []) [.dictionary (some (lit "a"))]),
   .call 0 .editorReturned, .call 0 .future, .handler 0 .set, .call 0 .get]

theorem queriedEarly_stale :
    ¬ ∀ s, step.Reaches mayNotify (State.init fun _ => []) s → Fresh s := by
  intro hall
  have hrun : (step.runIf mayNotify (State.init fun _ => []) queriedEarly).bind
      (fun s => (s.calls 0).map fun call => (call.editedAt, call.phase)) =
      some (7, .answered ⟨0, semaRequest (lit "a"), 4, []⟩) := by
    decide
  obtain ⟨s, hs, hobs⟩ := Option.bind_eq_some_iff.mp hrun
  obtain ⟨call, hc, hcall⟩ := Option.map_eq_some_iff.mp hobs
  rw [Prod.mk.injEq] at hcall
  have hlt := hall s (Machine.reaches_of_runIf hs) 0 call _ hc hcall.2
  have hsent : call.editedAt < 4 := hlt
  omega

end Sema
end SSVim
