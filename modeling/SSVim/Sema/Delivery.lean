/-
Delivery of semantic responses: each goes to the calls of its own file.

The invariant ties three things that no single step relates.  A receiver that
holds a name holds the one of its notification.  A promise that has a value got
it from a receiver that returned after setting it, under the file name of the
call that waits on the promise.  A call that has an answer has one of that kind.
-/
import SSVim.Sema.Steps

namespace SSVim
namespace Sema

open Transition SourceKit

/-- What a receiver holds agrees with its notification and with its identity. -/
def Handler.Consistent (i : HandlerId) (handler : Handler) : Prop :=
  match handler.phase with
  | .delivered => True
  | .named semaName => handler.payload.semaName? = some semaName
  | .querying semaName _ => handler.payload.semaName? = some semaName
  | .queried semaName reply => handler.payload.semaName? = some semaName ∧
      reply.handler = i ∧ reply.request = semaRequest semaName
  | .finished none => True
  | .finished (some reply) => ∃ semaName, handler.payload.semaName? = some semaName ∧
      reply.handler = i ∧ reply.request = semaRequest semaName

/-- `reply` is the response to the query that its receiver sent, with `filename`
as the name, for a notification that names it. -/
def RepliesFor (s : State) (filename : Str) (reply : Reply) : Prop :=
  ∃ handler, s.handlers reply.handler = some handler ∧
    handler.phase = .finished (some reply) ∧ handler.payload.semaName? = some filename ∧
    reply.request = semaRequest filename

/-- The promise of a waiting call is registered under its file name, or it has a
reply for that name. -/
def Awaits (s : State) (filename : Str) (p : Nat) : Prop :=
  p ∈ s.channel.entries filename ∨
    ∃ reply, s.channel.value? p = some reply ∧ RepliesFor s filename reply

structure Linked (s : State) : Prop where
  consistent : ∀ i handler, s.handlers i = some handler → handler.Consistent i
  waiting : ∀ c call p, s.calls c = some call → call.phase = .waiting p →
    Awaits s call.filename p
  answered : ∀ c call reply, s.calls c = some call → call.phase = .answered reply →
    RepliesFor s call.filename reply

theorem linked_init (documents : Str → Str) : Linked (State.init documents) where
  consistent i handler h := by cases h
  waiting c call p h := by cases h
  answered c call reply h := by cases h

section
variable {s s' : State} {a : Action}

theorem consistent_step (hs : ∀ i handler, s.handlers i = some handler → handler.Consistent i)
    (h : Stepped s a s') (i : HandlerId) (handler : Handler)
    (hh : s'.handlers i = some handler) : handler.Consistent i := by
  cases h with
  | enter | editorOpen | editorReplaceText | returnedEmpty | returnedEdited | future | get
  | notify => exact hs i handler hh
  | deliver | discard =>
    rw [setHandler_handlers] at hh
    rcases update_cases hh with ⟨rfl, rfl⟩ | ⟨-, hh⟩
    · trivial
    · exact hs i handler hh
  | readName hj hp hn =>
    rw [setHandler_handlers] at hh
    rcases update_cases hh with ⟨rfl, rfl⟩ | ⟨-, hh⟩
    · exact hn
    · exact hs i handler hh
  | query hj hp =>
    rw [setHandler_handlers] at hh
    rcases update_cases hh with ⟨rfl, rfl⟩ | ⟨-, hh⟩
    · have hc := hs _ _ hj
      rw [Handler.Consistent, hp] at hc
      exact hc
    · exact hs i handler hh
  | respond hj hp =>
    rw [setHandler_handlers, edit_handlers] at hh
    rcases update_cases hh with ⟨rfl, rfl⟩ | ⟨-, hh⟩
    · have hc := hs _ _ hj
      rw [Handler.Consistent, hp] at hc
      exact ⟨hc, rfl, rfl⟩
    · exact hs i handler hh
  | set hj hp =>
    rw [setHandler_handlers] at hh
    rcases update_cases hh with ⟨rfl, rfl⟩ | ⟨-, hh⟩
    · have hc := hs _ _ hj
      rw [Handler.Consistent, hp] at hc
      exact ⟨_, hc⟩
    · exact hs i handler hh

theorem RepliesFor.step {filename : Str} {reply : Reply} (hr : RepliesFor s filename reply)
    (h : Stepped s a s') : RepliesFor s' filename reply := by
  obtain ⟨handler, hh, hp, hn, hreq⟩ := hr
  obtain ⟨handler', hh', -, hfin⟩ := h.handler_next hh
  rw [hfin _ hp] at hh'
  exact ⟨handler, hh', hp, hn, hreq⟩

theorem value?_step (h : Stepped s a s') {p : Nat} {reply : Reply}
    (hv : s.channel.value? p = some reply) : s'.channel.value? p = some reply := by
  rcases h.channel_cases with hch | ⟨c, call, -, -, -, hch⟩ |
    ⟨i, handler, semaName, reply', hh, hp, hh', hch⟩
  · rw [hch, hv]
  · rw [hch, FutureChannel.value?_future, hv]
  · rw [hch, FutureChannel.value?_set, if_neg, hv]
    intro hmem
    rw [FutureChannel.value?_of_mem hmem] at hv
    cases hv

/-- A promise of a name stays registered under it until a receiver for the name
sets it. -/
theorem Awaits.step (hs : Linked s) {filename : Str} {p : Nat} (hw : Awaits s filename p)
    (h : Stepped s a s') : Awaits s' filename p := by
  rcases hw with hmem | ⟨reply, hv, hr⟩
  · rcases h.channel_cases with hch | ⟨c, call, -, -, -, hch⟩ |
      ⟨i, handler, semaName, reply, hh, hp, hh', hch⟩
    · exact Or.inl (hch ▸ hmem)
    · refine Or.inl ?_
      rw [hch]
      exact FutureChannel.mem_entries_future hmem
    · by_cases hf : filename = semaName
      · subst hf
        have hc := hs.consistent i handler hh
        rw [Handler.Consistent, hp] at hc
        obtain ⟨hn, hi, hreq⟩ := hc
        have hr : RepliesFor s' filename reply :=
          ⟨{ handler with phase := .finished (some reply) }, by rw [hi, hh'], rfl, hn, hreq⟩
        refine Or.inr ⟨reply, ?_, hr⟩
        rw [hch, FutureChannel.value?_set, if_pos hmem]
      · refine Or.inl ?_
        rw [hch, FutureChannel.entries_set, if_neg hf]
        exact hmem
  · exact Or.inr ⟨reply, value?_step h hv, hr.step h⟩

theorem linked_step (hs : Linked s) (h : Stepped s a s') : Linked s' where
  consistent := consistent_step hs.consistent h
  waiting c call p hc hp := by
    rcases h.waiting_cases hc hp with hc | ⟨call₀, hc₀, hp₀, ha, hch, hpa, hf, -⟩
    · exact (hs.waiting c call p hc hp).step hs h
    · refine Or.inl ?_
      rw [hch, hpa, hf]
      exact FutureChannel.allocated_mem_future _ _
  answered c call reply hc hp := by
    rcases h.answered_cases hc hp with hc | ⟨call₀, p, hc₀, hp₀, hv, hf, -⟩
    · exact (hs.answered c call reply hc hp).step h
    · rcases hs.waiting c call₀ p hc₀ hp₀ with hmem | ⟨reply', hv', hr⟩
      · rw [FutureChannel.value?_of_mem hmem] at hv
        cases hv
      · rw [hv, Option.some.injEq] at hv'
        rw [hf, hv']
        exact hr.step h

end

theorem linked_reaches {ok : State → Action → Prop} {s s' : State} (h : step.Reaches ok s s')
    (hs : Linked s) : Linked s' :=
  h.invariant (fun _ _ _ ht _ ha => linked_step ht (stepped_of_step ha)) hs

/-! ## What a notification and a set do -/

theorem semaName?_eq_some {payload : Payload} {semaName : Str}
    (h : payload.semaName? = some semaName) : cstr semaName = semaName ∧ semaName ≠ [] := by
  cases payload with
  | null => cases h
  | dictionary name =>
    cases name with
    | none => cases h
    | some name =>
      simp only [Payload.semaName?] at h
      split at h
      · cases h
      next hlen =>
        cases h
        exact ⟨cstr_cstr name, fun h => hlen (by rw [h]; rfl)⟩

theorem unusable_phase {s : State} (hs : Linked s) {i : HandlerId} {handler : Handler}
    (hh : s.handlers i = some handler) (hn : handler.payload.semaName? = none) :
    handler.phase = .delivered ∨ handler.phase = .finished none := by
  have hc := hs.consistent i handler hh
  rw [Handler.Consistent] at hc
  split at hc
  next hp => exact Or.inl hp
  · rw [hn] at hc
    cases hc
  · rw [hn] at hc
    cases hc
  · rw [hn] at hc
    cases hc.1
  next hp => exact Or.inr hp
  · obtain ⟨semaName, hsem, -⟩ := hc
    rw [hn] at hsem
    cases hsem

theorem unusable_step {s s' : State} (hs : Linked s) {i : HandlerId} {handler : Handler}
    (hh : s.handlers i = some handler) (hn : handler.payload.semaName? = none)
    {a : HandlerAction} (h : step s (.handler i a) = some s') :
    s'.calls = s.calls ∧ s'.channel = s.channel ∧ s'.documents = s.documents ∧
      s'.undelivered = s.undelivered := by
  have hphase : ∀ {handler'}, s.handlers i = some handler' →
      handler'.phase = .delivered ∨ handler'.phase = .finished none := by
    intro handler' hh'
    rw [hh, Option.some.injEq] at hh'
    exact hh' ▸ unusable_phase hs hh hn
  cases stepped_of_step h with
  | discard | readName => exact ⟨rfl, rfl, rfl, rfl⟩
  | query hh' hp | respond hh' hp | set hh' hp =>
    rcases hphase hh' with hp' | hp' <;>
    · rw [hp] at hp'
      cases hp'

/-- A promise that has a value keeps it, and its call answers with it or goes on
waiting for it. -/
def Settled (s : State) (c : CallId) (call : Call) (p : Nat) (reply : Reply) : Prop :=
  s.channel.value? p = some reply ∧
    (s.calls c = some call ∨ s.calls c = some { call with phase := .answered reply })

theorem settled_step {s s' : State} {a : Action} (h : Stepped s a s') {c : CallId} {call : Call}
    {p : Nat} {reply : Reply} (hp : call.phase = .waiting p) (hs : Settled s c call p reply) :
    Settled s' c call p reply := by
  obtain ⟨hv, hc⟩ := hs
  refine ⟨value?_step h hv, ?_⟩
  rcases hc with hc | hc
  · rcases h.waiting_next hc hp with hc' | ⟨reply', hv', hc'⟩
    · exact Or.inl hc'
    · rw [hv, Option.some.injEq] at hv'
      exact Or.inr (hv' ▸ hc')
  · exact Or.inr (h.answered_next hc rfl)

/-- One `set`: every call that waits on the name has the reply for good, and a
call that waits on another name goes on waiting. -/
theorem set_delivers {s s' : State} (hs : Linked s) {i : HandlerId} {handler : Handler}
    {semaName : Str} {reply : Reply} (hh : s.handlers i = some handler)
    (hp : handler.phase = .queried semaName reply)
    (h : step s (.handler i .set) = some s') {c : CallId} {call : Call} {p : Nat}
    (hc : s.calls c = some call) (hw : call.phase = .waiting p)
    (hv : s.channel.value? p = none) :
    (call.filename = semaName → ∀ s'', step.Reaches Machine.free s' s'' →
      Settled s'' c call p reply) ∧
    (call.filename ≠ semaName → s'.calls c = some call ∧ s'.channel.value? p = none) := by
  have hmem : p ∈ s.channel.entries call.filename := by
    rcases hs.waiting c call p hc hw with hmem | ⟨reply', hv', -⟩
    · exact hmem
    · rw [hv] at hv'
      cases hv'
  have hset : s'.calls = s.calls ∧ s'.channel = s.channel.set semaName reply := by
    cases stepped_of_step h with
    | set hh' hp' =>
      rw [hh, Option.some.injEq] at hh'
      subst hh'
      rw [hp, HandlerPhase.queried.injEq] at hp'
      obtain ⟨rfl, rfl⟩ := hp'
      exact ⟨rfl, rfl⟩
  constructor
  · intro hf s'' hrun
    have hstart : Settled s' c call p reply := by
      refine ⟨?_, Or.inl (hset.1 ▸ hc)⟩
      rw [hset.2, FutureChannel.value?_set, if_pos (hf ▸ hmem)]
    exact hrun.invariant (fun _ _ _ ht _ ha => settled_step (stepped_of_step ha) hw ht) hstart
  · intro hf
    refine ⟨hset.1 ▸ hc, ?_⟩
    rw [hset.2, FutureChannel.value?_set, if_neg, hv]
    exact fun hmem' => hf (s.channel.wf.disjoint _ _ p hmem hmem')

/-- No cross-file delivery, in every state that any interleaving reaches: a value
a call obtained answers a query for the call's own file name, sent by a receiver
started by a notification naming that file; one `set` settles every call that
waits on its name and no call that waits on another; and a receiver without a
usable name sends no query and touches no call. -/
theorem no_cross_file_delivery (documents : Str → Str) {s : State}
    (h : step.Reaches Machine.free (State.init documents) s) :
    (∀ c call reply, s.calls c = some call → call.phase = .answered reply →
      RepliesFor s call.filename reply ∧ reply.request.stringD .name = call.filename) ∧
    (∀ i handler semaName reply s', s.handlers i = some handler →
      handler.phase = .queried semaName reply → step s (.handler i .set) = some s' →
      ∀ c call p, s.calls c = some call → call.phase = .waiting p →
        s.channel.value? p = none →
        (call.filename = semaName → ∀ s'', step.Reaches Machine.free s' s'' →
          Settled s'' c call p reply) ∧
        (call.filename ≠ semaName → s'.calls c = some call ∧ s'.channel.value? p = none)) ∧
    (∀ i handler, s.handlers i = some handler → handler.payload.semaName? = none →
      (handler.phase = .delivered ∨ handler.phase = .finished none) ∧
      ∀ a s', step s (.handler i a) = some s' →
        s'.calls = s.calls ∧ s'.channel = s.channel ∧ s'.documents = s.documents ∧
          s'.undelivered = s.undelivered) := by
  have hs : Linked s := linked_reaches h (linked_init documents)
  refine ⟨fun c call reply hc hp => ?_, fun i handler semaName reply s' hh hp ha => ?_,
    fun i handler hh hn => ?_⟩
  · have hr := hs.answered c call reply hc hp
    refine ⟨hr, ?_⟩
    obtain ⟨handler, -, -, hn, hreq⟩ := hr
    rw [hreq, semaRequest_name]
    exact (semaName?_eq_some hn).1
  · intro c call p hc hw hv
    exact set_delivers hs hh hp ha hc hw hv
  · exact ⟨unusable_phase hs hh hn, fun a s' ha => unusable_step hs hh hn ha⟩

/-- A call on each of two files, and one notification, for the first file. -/
def twoFiles : List Action :=
  [.enter 0 (lit "a") (lit "x") [], .enter 1 (lit "b") (lit "y") [],
   .call 0 (.editorOpen (some []) [.dictionary (some (lit "a"))]),
   .call 1 (.editorOpen none []),
   .call 1 (.editorReplaceText (some []) []),
   .call 0 (.editorReplaceText (some []) []),
   .call 0 .editorReturned, .call 1 .editorReturned,
   .call 1 .future, .call 0 .future,
   .deliver 0 (.dictionary (some (lit "a"))),
   .handler 0 .readName, .handler 0 .query, .handler 0 (.respond true (lit "{}")),
   .handler 0 .set, .call 0 .get]

theorem twoFiles_delivery :
    ∃ s call reply, step.runIf Machine.free (State.init fun _ => []) twoFiles = some s ∧
      s.calls 0 = some call ∧ call.filename = lit "a" ∧ call.phase = .answered reply ∧
      RepliesFor s call.filename reply ∧ reply.request.stringD .name = call.filename := by
  have hanswer : (step.runIf Machine.free (State.init fun _ => []) twoFiles).bind
      (fun s => s.answer? 0) = some (lit "a",
        { handler := 0, request := semaRequest (lit "a"), sentAt := 12, text := lit "{}" }) := by
    decide
  obtain ⟨s, hs, ha⟩ := Option.bind_eq_some_iff.mp hanswer
  obtain ⟨call, hc, hf, hp⟩ := answer?_eq_some ha
  have hdelivered := (no_cross_file_delivery _ (Machine.reaches_of_runIf hs)).1 0 call _ hc hp
  exact ⟨s, call, _, hs, hc, hf, hp, hdelivered⟩

end Sema
end SSVim
