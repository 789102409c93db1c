/-
The diagnostics protocol inside the server.

Every session talks to one protocol, and it touches it only by entering a call.  So a run
of the server is a run of the protocol, whatever the sessions do, and what is invariant of
a session and the rest of the process is proved from the steps of each.
-/
import SSVim.Sema.Subscribers
import SSVim.Server.Pairing

namespace SSVim
namespace Server

open Transition

/-- What an effect does to the protocol and asks of it. -/
def Effect.Happens (sema sema' : Sema.State) : Effect → Prop
  | .enterCall call fields =>
    Sema.step sema (.enter call fields.fileName fields.contents fields.flags) = some sema'
  | .leaveCall call result =>
    sema' = sema ∧ ∃ c, sema.calls call = some c ∧
      (c.phase = .returned result ∨ ∃ reply, c.phase = .answered reply ∧ result = reply.text)
  | _ => sema' = sema

/-- The step of the protocol that a session takes with an effect. -/
def Effect.enters : Effect → Option Sema.Action
  | .enterCall call fields => some (.enter call fields.fileName fields.contents fields.flags)
  | _ => Option.none

namespace Process

section
variable {p p' : Process}

theorem returned?_eq_some {call : CallId} {result : Str} (h : p.returned? call = some result) :
    ∃ c, p.sema.calls call = some c ∧
      (c.phase = .returned result ∨ ∃ reply, c.phase = .answered reply ∧ result = reply.text) := by
  obtain ⟨c, hc, hresult⟩ := Option.bind_eq_some_iff.mp h
  refine ⟨c, hc, ?_⟩
  split at hresult
  next result' hp =>
    cases hresult
    exact Or.inl hp
  next reply hp =>
    cases hresult
    exact Or.inr ⟨reply, hp, rfl⟩
  · cases hresult

theorem applyEffect_happens {effect : Effect} (h : p.applyEffect effect = some p') :
    effect.Happens p.sema p'.sema := by
  cases effect with
  | none | scheduleExit | terminate =>
    cases h
    rfl
  | enterCall call fields =>
    obtain ⟨sema, hs, rfl⟩ := Option.map_eq_some_iff.mp h
    exact hs
  | leaveCall call result =>
    simp only [applyEffect] at h
    split at h
    next hreturned =>
      cases h
      exact ⟨rfl, returned?_eq_some hreturned⟩
    · cases h

/-- The step of the protocol that a step of the process is. -/
def semaAction? (p : Process) : Action → Option Sema.Action
  | .session i b =>
    p.sessions[i]?.bind fun session => (session.step b).bind fun next => next.2.enters
  | .sema b => some b
  | _ => none

theorem semaAction?_session {i : Nat} {session : Session} {b : Session.Action}
    {next : Session × Effect} (hi : p.sessions[i]? = some session)
    (hs : session.step b = some next) : p.semaAction? (.session i b) = next.2.enters := by
  rw [semaAction?, hi, Option.bind_some, hs, Option.bind_some]

theorem sema_next {b : Sema.Action} (h : step p (.sema b) = some p') :
    Sema.step p.sema b = some p'.sema := by
  obtain ⟨-, hrun⟩ := running_of_step h
  simp only [stepRunning] at hrun
  split at hrun
  · cases hrun
  · obtain ⟨sema, hs, rfl⟩ := Option.map_eq_some_iff.mp hrun
    exact hs

theorem happens_sema {sema sema' : Sema.State} {effect : Effect} (h : effect.Happens sema sema') :
    (effect.enters = none ∧ sema' = sema) ∨
      ∃ b, effect.enters = some b ∧ Sema.step sema b = some sema' := by
  cases effect with
  | none | scheduleExit | terminate => exact Or.inl ⟨rfl, h⟩
  | enterCall call fields => exact Or.inr ⟨_, rfl, h⟩
  | leaveCall call result => exact Or.inl ⟨rfl, h.1⟩

theorem semaAction?_cases {a : Action} (h : step p a = some p') :
    (p.semaAction? a = none ∧ p'.sema = p.sema) ∨
      ∃ b, p.semaAction? a = some b ∧ Sema.step p.sema b = some p'.sema := by
  cases a with
  | acceptor b =>
    obtain ⟨acceptor, -, rfl⟩ := acceptor_step h
    exact Or.inl ⟨rfl, rfl⟩
  | session i b =>
    obtain ⟨session, session', effect, hi, hs, -, -, heffect⟩ := session_step h
    have hhappens := applyEffect_happens heffect
    rw [semaAction?_session hi hs]
    exact happens_sema hhappens
  | sema b => exact Or.inr ⟨b, rfl, sema_next h⟩
  | exit =>
    obtain ⟨-, hrun⟩ := running_of_step h
    simp only [stepRunning] at hrun
    split at hrun
    · cases hrun
      exact Or.inl ⟨rfl, rfl⟩
    · cases hrun

end

/-- A run of the server is a run of the protocol. -/
theorem refines_protocol (documents : Str → Str) :
    Machine.Refines step Machine.free (init documents) Sema.step (Sema.State.init documents)
      Process.sema semaAction? where
  init := rfl
  stutter p a p' _ _ ha hlabel := by
    rcases semaAction?_cases ha with ⟨-, hsame⟩ | ⟨b, hb, -⟩
    · exact hsame
    · rw [hlabel] at hb
      cases hb
  step p a p' b _ _ ha hlabel := by
    rcases semaAction?_cases ha with ⟨hnone, -⟩ | ⟨b', hb, hs⟩
    · rw [hlabel] at hnone
      cases hnone
    · rw [hlabel, Option.some.injEq] at hb
      exact hb ▸ hs

theorem sema_reaches {documents : Str → Str} {p : Process}
    (h : step.Reaches Machine.free (init documents) p) :
    Sema.step.Reaches Machine.free (Sema.State.init documents) p.sema :=
  (refines_protocol documents).reaches_init h

/-- What holds of a session when it starts, whatever the state of the process, and survives
the steps of the others and the steps of the session with their effects, holds of every
session in every run. -/
theorem shared_invariant {documents : Str → Str} {I : Process → Session → Prop}
    (hinit : ∀ p socket, I p (Session.init socket))
    (hothers : ∀ p a p' session, step.Reaches Machine.free (init documents) p → I p session →
      step p a = some p' → I p' session)
    (hown : ∀ p p' session b session' effect sessions,
      step.Reaches Machine.free (init documents) p → Serial session → I p session →
      Session.Stepped session b session' effect →
      ({ p with sessions := sessions } : Process).applyEffect effect = some p' → I p' session')
    {p : Process} (h : step.Reaches Machine.free (init documents) p)
    {i : Nat} {session : Session} (hi : p.sessions[i]? = some session) : I p session := by
  induction h generalizing i session with
  | refl => cases hi
  | @tail q p hreach hlast ih =>
    obtain ⟨a, -, ha⟩ := hlast
    rcases session_prev hi ha with ⟨session₀, hi₀⟩ | ⟨socket, rfl⟩
    · obtain ⟨session₁, hi₁, hnext⟩ := session_next hi₀ ha
      rw [hi, Option.some.injEq] at hi₁
      subst hi₁
      rcases hnext with rfl | ⟨b, effect, rfl, hs⟩
      · exact hothers q a p _ hreach (ih hi₀) ha
      · obtain ⟨session₂, session₃, effect', hi₂, hs₂, -, -, heffect⟩ := session_step ha
        rw [hi₀, Option.some.injEq] at hi₂
        subst hi₂
        rw [hs, Option.some.injEq, Prod.mk.injEq] at hs₂
        obtain ⟨rfl, rfl⟩ := hs₂
        exact hown q p _ b _ effect _ hreach (sessions_serial hreach hi₀) (ih hi₀)
          (Session.stepped_of_step hs) heffect
    · exact hinit _ _

/-! ## Publish and subscribe -/

/-- The diagnostics calls of the server as subscribers to their files. -/
def board (p : Process) : Subscription.Board CallId Str Sema.Reply := p.sema.board

def subscription? (p : Process) (a : Action) :
    Option (Subscription.Action CallId Str Sema.Reply) :=
  (p.semaAction? a).bind p.sema.subscription?

/-- The server serves diagnostics by one-shot publish and subscribe: of its steps, those that
enter a call, register its promise, give up and `set` are the steps of it, and no other step
shows. -/
theorem serves_by_subscription (documents : Str → Str) :
    Machine.Refines step Machine.free (init documents) Subscription.step Subscription.empty
      board subscription? :=
  (refines_protocol documents).trans (Sema.refines_subscription documents)

/-- Two calls for one file that wait at one time get the same reply at the same step. -/
theorem waiting_together (documents : Str → Str) {p q : Process}
    (h : step.Reaches Machine.free (init documents) p) (hpq : step.Reaches Machine.free p q)
    {c c' : CallId} {filename : Str} (hc : p.board c = some ⟨filename, .waiting⟩)
    (hc' : p.board c' = some ⟨filename, .waiting⟩) :
    (q.board c = some ⟨filename, .waiting⟩ ∧ q.board c' = some ⟨filename, .waiting⟩) ∨
      ∃ reply, q.board c = some ⟨filename, .answered reply⟩ ∧
        q.board c' = some ⟨filename, .answered reply⟩ ∧
        Sema.RepliesFor q.sema filename reply := by
  have hrefines := (refines_protocol documents).trans (Sema.refines_subscription documents)
  have htogether := Subscription.together_reaches (hrefines.reaches h hpq) (Or.inl ⟨hc, hc'⟩)
  rcases htogether with hwaiting | ⟨reply, hi, hj⟩
  · exact Or.inl hwaiting
  · exact Or.inr ⟨reply, hi, hj, Sema.repliesFor_of_board (sema_reaches (h.trans hpq)) hi⟩

def diagnosticsRequest : Req :=
  { url := lit "/diagnostics", version := 11,
    body := lit "\x7b\"file_name\":\"a\",\"contents\":\"x\",\"flags\":[]\x7d" }

/-- Two clients ask for the diagnostics of one file, and both wait. -/
def twoWaiting : List Action :=
  accepting ++ accepting ++
    [.session 0 (.readSocket diagnosticsRequest []), .session 1 (.readSocket diagnosticsRequest []),
     .session 0 (.run 0 .start), .session 1 (.run 0 .start),
     .session 0 (.run 0 (.enterCall 0)), .session 1 (.run 0 (.enterCall 1)),
     .sema (.call 0 (.editorOpen (some []) [])), .sema (.call 1 (.editorOpen (some []) [])),
     .sema (.call 0 (.editorReplaceText (some []) [.dictionary (some (lit "a"))])),
     .sema (.call 1 (.editorReplaceText (some []) [])),
     .sema (.call 0 .editorReturned), .sema (.call 0 .future),
     .sema (.call 1 .editorReturned), .sema (.call 1 .future)]

/-- One notification is received. -/
def oneNotification : List Action :=
  [.sema (.deliver 0 (.dictionary (some (lit "a")))),
   .sema (.handler 0 .readName), .sema (.handler 0 .query),
   .sema (.handler 0 (.respond true (lit "[]"))), .sema (.handler 0 .set)]

theorem twoWaiting_together :
    ∃ p q reply, step.runIf Machine.free (init fun _ => []) twoWaiting = some p ∧
      step.runIf Machine.free p oneNotification = some q ∧
      q.board 0 = some ⟨lit "a", .answered reply⟩ ∧ q.board 1 = some ⟨lit "a", .answered reply⟩ ∧
      Sema.RepliesFor q.sema (lit "a") reply := by
  have hrun : (step.runIf Machine.free (init fun _ => []) twoWaiting).bind
      (fun p => (step.runIf Machine.free p oneNotification).map fun q =>
        (p.board 0, p.board 1, decide (q.board 0 = some ⟨lit "a", .waiting⟩))) =
      some (some ⟨lit "a", .waiting⟩, some ⟨lit "a", .waiting⟩, false) := by
    decide +kernel
  obtain ⟨p, hp, hrest⟩ := Option.bind_eq_some_iff.mp hrun
  obtain ⟨q, hq, hobs⟩ := Option.map_eq_some_iff.mp hrest
  simp only [Prod.mk.injEq, decide_eq_false_iff_not] at hobs
  obtain ⟨hfirst, hsecond, hanswered⟩ := hobs
  have htogether := waiting_together _ (Machine.reaches_of_runIf hp) (Machine.reaches_of_runIf hq)
    hfirst hsecond
  obtain ⟨reply, hreply⟩ := htogether.resolve_left fun h => hanswered h.1
  exact ⟨p, q, reply, hp, hq, hreply⟩

end Process

end Server
end SSVim
