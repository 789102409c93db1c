/-
The server process: the acceptor, the sessions it started, and the diagnostics
protocol that all sessions share.

A step is one of the acceptor, of a session or of the protocol.  An exception that
leaves a block terminates the process, and nothing moves after that.  A session
enters `DiagnosticsForFile` by a call of the protocol, and leaves it with what that
call returns.
-/
import SSVim.Sema.Protocol
import SSVim.Server.Session

namespace SSVim
namespace Server

open Transition

inductive Status where
  | running
  | exited
  | terminated (fault : Fault)
  deriving DecidableEq

structure Process where
  status : Status
  exitScheduled : Bool
  acceptor : Acceptor
  sessions : List Session
  sema : Sema.State

namespace Process

/-- After the constructor of the server. -/
def init (documents : Str → Str) : Process :=
  { status := .running, exitScheduled := false, acceptor := Acceptor.init, sessions := [],
    sema := Sema.State.init documents }

inductive Action where
  | acceptor (a : Acceptor.Action)
  | session (i : Nat) (a : Session.Action)
  | sema (a : Sema.Action)
  | exit

/-- What the call returned, if it has. -/
def returned? (p : Process) (call : CallId) : Option Str :=
  (p.sema.calls call).bind fun c =>
    match c.phase with
    | .returned result => some result
    | .answered reply => some reply.text
    | _ => none

/-- Only sessions enter calls. -/
def entersCall : Sema.Action → Bool
  | .enter .. => true
  | _ => false

def applyEffect (p : Process) : Effect → Option Process
  | .none => some p
  | .scheduleExit => some { p with exitScheduled := true }
  | .terminate fault => some { p with status := .terminated fault }
  | .enterCall call fields =>
    (Sema.step p.sema (.enter call fields.fileName fields.contents fields.flags)).map
      fun sema => { p with sema := sema }
  | .leaveCall call result => if p.returned? call = some result then some p else none

def stepRunning (p : Process) : Action → Option Process
  | .acceptor a =>
    (Acceptor.step p.acceptor a).map fun acceptor =>
      { p with
        acceptor := acceptor
        sessions := p.sessions ++ (p.acceptor.starts a).map Session.init }
  | .session i a =>
    p.sessions[i]?.bind fun session =>
      (session.step a).bind fun (session', effect) =>
        applyEffect { p with sessions := p.sessions.set i session' } effect
  | .sema a =>
    if entersCall a then none
    else (Sema.step p.sema a).map fun sema => { p with sema := sema }
  | .exit => if p.exitScheduled then some { p with status := .exited } else none

def step : Machine Process Action
  | p, a =>
    match p.status with
    | .running => p.stepRunning a
    | .exited => none
    | .terminated _ => none

/-! ## What one step can do -/

section
variable {p p' : Process} {a : Action}

theorem running_of_step (h : step p a = some p') :
    p.status = .running ∧ p.stepRunning a = some p' := by
  cases hs : p.status with
  | running =>
    simp only [step, hs] at h
    exact ⟨rfl, h⟩
  | exited | terminated =>
    simp only [step, hs] at h
    cases h

theorem applyEffect_sessions {effect : Effect} (h : p.applyEffect effect = some p') :
    p'.sessions = p.sessions ∧ p'.acceptor = p.acceptor := by
  cases effect with
  | none | scheduleExit | terminate =>
    cases h
    exact ⟨rfl, rfl⟩
  | enterCall call fields =>
    obtain ⟨sema, -, rfl⟩ := Option.map_eq_some_iff.mp h
    exact ⟨rfl, rfl⟩
  | leaveCall call result =>
    simp only [applyEffect] at h
    split at h
    · cases h
      exact ⟨rfl, rfl⟩
    · cases h

theorem session_step {i : Nat} {b : Session.Action} (h : step p (.session i b) = some p') :
    ∃ session session' effect, p.sessions[i]? = some session ∧
      session.step b = some (session', effect) ∧
      p'.sessions = p.sessions.set i session' ∧ p'.acceptor = p.acceptor ∧
      applyEffect { p with sessions := p.sessions.set i session' } effect = some p' := by
  obtain ⟨-, hrun⟩ := running_of_step h
  obtain ⟨session, hi, hrest⟩ := Option.bind_eq_some_iff.mp hrun
  obtain ⟨⟨session', effect⟩, hs, heffect⟩ := Option.bind_eq_some_iff.mp hrest
  obtain ⟨hsessions, hacceptor⟩ := applyEffect_sessions heffect
  exact ⟨session, session', effect, hi, hs, hsessions, hacceptor, heffect⟩

theorem acceptor_step {b : Acceptor.Action} (h : step p (.acceptor b) = some p') :
    ∃ acceptor, Acceptor.step p.acceptor b = some acceptor ∧
      p' = { p with
        acceptor := acceptor
        sessions := p.sessions ++ (p.acceptor.starts b).map Session.init } := by
  obtain ⟨-, hrun⟩ := running_of_step h
  obtain ⟨acceptor, hb, heq⟩ := Option.map_eq_some_iff.mp hrun
  exact ⟨acceptor, hb, heq.symm⟩

theorem sema_step {b : Sema.Action} (h : step p (.sema b) = some p') :
    p'.sessions = p.sessions ∧ p'.acceptor = p.acceptor := by
  obtain ⟨-, hrun⟩ := running_of_step h
  simp only [stepRunning] at hrun
  split at hrun
  · cases hrun
  · obtain ⟨sema, -, rfl⟩ := Option.map_eq_some_iff.mp hrun
    exact ⟨rfl, rfl⟩

theorem exit_step (h : step p .exit = some p') :
    p'.sessions = p.sessions ∧ p'.acceptor = p.acceptor := by
  obtain ⟨-, hrun⟩ := running_of_step h
  simp only [stepRunning] at hrun
  split at hrun
  · cases hrun
    exact ⟨rfl, rfl⟩
  · cases hrun

theorem step_session {i : Nat} {session session' : Session} {b : Session.Action}
    (hp : p.status = .running) (hi : p.sessions[i]? = some session)
    (hs : session.step b = some (session', .none)) :
    step p (.session i b) = some { p with sessions := p.sessions.set i session' } := by
  simp only [step, hp, stepRunning, hi, hs, Option.bind_some, applyEffect]

theorem set_sessions {i : Nat} {session session' : Session} (hi : p.sessions[i]? = some session) :
    (p.sessions.set i session')[i]? = some session' :=
  List.getElem?_set_self (List.getElem?_eq_some_iff.mp hi).choose

/-- Every session of a process goes on, by its own steps alone. -/
theorem session_next {j : Nat} {session : Session} (hj : p.sessions[j]? = some session)
    (h : step p a = some p') :
    ∃ session', p'.sessions[j]? = some session' ∧
      (session' = session ∨
        ∃ b effect, a = .session j b ∧ session.step b = some (session', effect)) := by
  cases a with
  | acceptor a =>
    obtain ⟨acceptor, -, rfl⟩ := acceptor_step h
    refine ⟨session, ?_, Or.inl rfl⟩
    obtain ⟨hlt, -⟩ := List.getElem?_eq_some_iff.mp hj
    exact (List.getElem?_append_left hlt).trans hj
  | session i b =>
    obtain ⟨session₀, session', effect, hi, hs, hsessions, -, -⟩ := session_step h
    rw [hsessions]
    by_cases hij : i = j
    · subst hij
      rw [hj, Option.some.injEq] at hi
      subst hi
      exact ⟨session', set_sessions hj, Or.inr ⟨b, effect, rfl, hs⟩⟩
    · exact ⟨session, by rw [List.getElem?_set_ne hij, hj], Or.inl rfl⟩
  | sema a =>
    rw [(sema_step h).1]
    exact ⟨session, hj, Or.inl rfl⟩
  | exit =>
    rw [(exit_step h).1]
    exact ⟨session, hj, Or.inl rfl⟩

theorem session_prev {j : Nat} {session' : Session} (hj : p'.sessions[j]? = some session')
    (h : step p a = some p') :
    (∃ session, p.sessions[j]? = some session) ∨ ∃ socket, session' = Session.init socket := by
  by_cases hlt : j < p.sessions.length
  · exact Or.inl ⟨p.sessions[j], List.getElem?_eq_getElem hlt⟩
  · refine Or.inr ?_
    have hnone : p.sessions[j]? = none := List.getElem?_eq_none (Nat.le_of_not_lt hlt)
    cases a with
    | acceptor a =>
      obtain ⟨acceptor, -, rfl⟩ := acceptor_step h
      rw [List.getElem?_append_right (Nat.le_of_not_lt hlt), List.getElem?_map] at hj
      obtain ⟨socket, -, rfl⟩ := Option.map_eq_some_iff.mp hj
      exact ⟨socket, rfl⟩
    | session i b =>
      obtain ⟨session₀, session₁, effect, -, -, hsessions, -, -⟩ := session_step h
      rw [hsessions, List.getElem?_eq_none (by rw [List.length_set]; omega)] at hj
      cases hj
    | sema a =>
      rw [(sema_step h).1, hnone] at hj
      cases hj
    | exit =>
      rw [(exit_step h).1, hnone] at hj
      cases hj

end

/-! ## Invariants of sessions -/

/-- What holds of a session when it starts and survives its own steps holds of
every session in every run of the process. -/
theorem sessions_invariant {ok : Process → Action → Prop} {I : Session → Prop}
    (hinit : ∀ socket, I (Session.init socket))
    (hstep : ∀ p i session b session' effect, ok p (.session i b) →
      p.sessions[i]? = some session → I session → session.step b = some (session', effect) →
      I session')
    {documents : Str → Str} {p : Process} (h : step.Reaches ok (init documents) p)
    {i : Nat} {session : Session} (hi : p.sessions[i]? = some session) : I session := by
  have hall : ∀ (i : Nat) session, p.sessions[i]? = some session → I session := by
    refine h.invariant
      (I := fun q => ∀ (i : Nat) session, q.sessions[i]? = some session → I session)
      (fun q a q' hq hok ha i session hi => ?_) (fun i session hi => ?_)
    · rcases session_prev hi ha with ⟨session₀, hi₀⟩ | ⟨socket, rfl⟩
      · obtain ⟨session₁, hi₁, hnext⟩ := session_next hi₀ ha
        rw [hi, Option.some.injEq] at hi₁
        subst hi₁
        rcases hnext with rfl | ⟨b, effect, rfl, hs⟩
        · exact hq i session hi₀
        · exact hstep q i session₀ b session effect hok hi₀ (hq i session₀ hi₀) hs
      · exact hinit socket
    · cases hi
  exact hall i session hi

theorem session_invariant {ok : Process → Action → Prop} {I : Session → Prop} {i : Nat}
    (hstep : ∀ session b session' effect, I session →
      session.step b = some (session', effect) → I session')
    {p p' : Process} (h : step.Reaches ok p p') {session : Session}
    (hi : p.sessions[i]? = some session) (hs : I session) :
    ∃ session', p'.sessions[i]? = some session' ∧ I session' := by
  refine h.invariant (I := fun q => ∃ session', q.sessions[i]? = some session' ∧ I session')
    (fun q a q' hq _ ha => ?_) ⟨session, hi, hs⟩
  obtain ⟨session₀, hi₀, hs₀⟩ := hq
  obtain ⟨session₁, hi₁, hnext⟩ := session_next hi₀ ha
  refine ⟨session₁, hi₁, ?_⟩
  rcases hnext with rfl | ⟨b, effect, -, hstep₁⟩
  · exact hs₀
  · exact hstep session₀ b session₁ effect hs₀ hstep₁

/-- One connection accepted and its session started, with no other call of `onAccept`
running. -/
def accepting : List Action :=
  [.acceptor (.complete true), .acceptor (.advance 0), .acceptor (.advance 0),
   .acceptor (.advance 0), .acceptor (.advance 0)]

end Process

end Server
end SSVim
