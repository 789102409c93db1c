/-
Requests whose body is not acceptable.

`read_json` and the getters throw, the block catches nothing, and an exception
that leaves a dispatched block terminates the process.  So such a request gets no
response of any kind, and its block can only end the server.
-/
import SSVim.Server.Pairing

namespace SSVim
namespace Server

open Transition

/-- From `p` to `q` session `i` issued one error response and nothing else changed. -/
def Survives (p q : Process) (i : Nat) : Prop :=
  q.status = .running ∧
    (∃ session session' message, p.sessions[i]? = some session ∧
      q.sessions[i]? = some session' ∧
      session'.issued = session.issued ++ [errorResponse session.request message]) ∧
    (∀ j, j ≠ i → q.sessions[j]? = p.sessions[j]?) ∧
    q.acceptor = p.acceptor ∧ q.sema.channel = p.sema.channel

/-- Its one operation is a queued block that its request makes throw. -/
structure Doomed (endpoint : Endpoint) (session : Session) : Prop where
  rejects : endpoint.Rejects session.request.body
  reads : session.reads = 0
  blocks : session.blocks = [.queued endpoint]
  writes : session.writes = []

theorem rejected_run {endpoint : Endpoint} {request : Req}
    (h : endpoint.Rejects request.body) {a : BlockAction} {r : Except Fault (Block × Effect)}
    (hr : (Block.queued endpoint).run request a = some r) : ∃ fault, r = .error fault := by
  cases endpoint with
  | status | shutdown | slowTest => cases h
  | completions | diagnostics =>
    obtain ⟨fault, hf⟩ := h
    cases a with
    | start =>
      rw [Block.run, hf] at hr
      exact ⟨fault, (Option.some.inj hr).symm⟩
    | completionOpen | completionUpdate | enterCall | leaveCall | fire | build => cases hr

theorem rejected_start {endpoint : Endpoint} {request : Req}
    (h : endpoint.Rejects request.body) :
    ∃ fault, (Block.queued endpoint).run request .start = some (.error fault) := by
  cases endpoint with
  | status | shutdown | slowTest => cases h
  | completions | diagnostics =>
    obtain ⟨fault, hf⟩ := h
    refine ⟨fault, ?_⟩
    rw [Block.run, hf]
    rfl

theorem doomed_of_queued {session : Session} (hs : Serial session) {endpoint : Endpoint}
    (hmem : .queued endpoint ∈ session.blocks)
    (hbad : endpoint.Rejects session.request.body) : Doomed endpoint session := by
  have hsingle := hs.busy
  have hpos := List.length_pos_of_mem hmem
  obtain ⟨block, hblock⟩ := List.length_eq_one_iff.mp (show session.blocks.length = 1 by omega)
  rw [hblock, List.mem_singleton] at hmem
  exact
    { rejects := hbad
      reads := by omega
      blocks := by rw [hblock, hmem]
      writes := List.length_eq_zero_iff.mp (by omega) }

/-- The session can only run the block, and running it terminates the process. -/
theorem doomed_step {endpoint : Endpoint} {session session' : Session} {a : Session.Action}
    {effect : Effect} (hd : Doomed endpoint session)
    (h : Session.Stepped session a session' effect) :
    Doomed endpoint session' ∧ session'.issued = session.issued ∧
      ∀ k b, a = .run k b → ∃ fault, effect = .terminate fault := by
  have hpick : ∀ {k block rest}, pick session.blocks k = some (block, rest) →
      block = .queued endpoint := by
    intro k block rest hb
    exact (pick_singleton hb hd.blocks).1
  cases h with
  | readBuffered hr | readSocket hr =>
    rw [hd.reads] at hr
    cases hr
  | readFails hr =>
    rw [hd.reads] at hr
    cases hr
  | shut =>
    exact ⟨⟨hd.rejects, hd.reads, hd.blocks, hd.writes⟩, rfl, fun k b hb => by cases hb⟩
  | run hb hrun =>
    rw [hpick hb] at hrun
    obtain ⟨fault, hf⟩ := rejected_run hd.rejects hrun
    cases hf
  | fault hb hrun => exact ⟨hd, rfl, fun k b _ => ⟨_, rfl⟩⟩
  | write hb => cases hpick hb
  | writeDone hw =>
    have hmem := pick_mem hw
    rw [hd.writes] at hmem
    cases hmem

section
variable {p : Process} {i : Nat} {session : Session} {endpoint : Endpoint}

theorem doomed_reaches {ok : Process → Process.Action → Prop} {q : Process}
    (hi : p.sessions[i]? = some session) (hd : Doomed endpoint session)
    (h : Process.step.Reaches ok p q) :
    ∃ session', q.sessions[i]? = some session' ∧ Doomed endpoint session' ∧
      session'.issued = session.issued := by
  refine Process.session_invariant
    (I := fun t => Doomed endpoint t ∧ t.issued = session.issued)
    (fun t b t' effect ht ha => ?_) h hi ⟨hd, rfl⟩
  obtain ⟨hd', hissued, -⟩ := doomed_step ht.1 (Session.stepped_of_step ha)
  exact ⟨hd', hissued.trans ht.2⟩

theorem not_survives {ok : Process → Process.Action → Prop} {q : Process}
    (hi : p.sessions[i]? = some session) (hd : Doomed endpoint session)
    (h : Process.step.Reaches ok p q) : ¬ Survives p q i := by
  rintro ⟨-, ⟨session₀, session', message, hi₀, hi', hissued⟩, -⟩
  obtain ⟨session'', hi'', -, hsame⟩ := doomed_reaches hi hd h
  rw [hi, Option.some.injEq] at hi₀
  rw [hi'', Option.some.injEq] at hi'
  subst hi₀ hi'
  rw [hsame] at hissued
  simp at hissued

theorem terminated_of_run {q : Process} (hi : p.sessions[i]? = some session)
    (hd : Doomed endpoint session) {k : Nat} {a : BlockAction}
    (h : Process.step p (.session i (.run k a)) = some q) :
    ∃ fault, q.status = .terminated fault := by
  obtain ⟨session₀, session', effect, hi₀, hs, -, -, heffect⟩ := Process.session_step h
  rw [hi, Option.some.injEq] at hi₀
  subst hi₀
  obtain ⟨-, -, hrun⟩ := doomed_step hd (Session.stepped_of_step hs)
  obtain ⟨fault, rfl⟩ := hrun k a rfl
  cases heffect
  exact ⟨fault, rfl⟩

theorem doomed_enabled (hp : p.status = .running) (hi : p.sessions[i]? = some session)
    (hd : Doomed endpoint session) :
    ∃ q, Process.step p (.session i (.run 0 .start)) = some q := by
  obtain ⟨fault, hrun⟩ := rejected_start hd.rejects
  have hpick : pick session.blocks 0 = some (.queued endpoint, []) := by
    rw [hd.blocks]
    rfl
  have hs : session.step (.run 0 .start) = some (session, .terminate fault) := by
    simp only [Session.step, hpick, hrun]
  refine ⟨{ p with status := .terminated fault, sessions := p.sessions.set i session }, ?_⟩
  simp only [Process.step, hp, Process.stepRunning, hi, hs, Option.bind_some,
    Process.applyEffect]

end

/-- A request to `/completions` or `/diagnostics` whose body is not acceptable never
gets a response, and the run of its block, which is always possible, terminates the
process: in no state that any run reaches has the process survived it. -/
theorem badRequest_never_survived (documents : Str → Str) {p : Process}
    (h : Process.step.Reaches Machine.free (Process.init documents) p) {i : Nat}
    {session : Session} {endpoint : Endpoint} (hi : p.sessions[i]? = some session)
    (hmem : .queued endpoint ∈ session.blocks)
    (hbad : endpoint.Rejects session.request.body) :
    (∀ q, Process.step.Reaches Machine.free p q → ¬ Survives p q i ∧
      ∃ session', q.sessions[i]? = some session' ∧ session'.issued = session.issued) ∧
    (p.status = .running → ∃ q, Process.step p (.session i (.run 0 .start)) = some q) ∧
    (∀ q q' k a, Process.step.Reaches Machine.free p q →
      Process.step q (.session i (.run k a)) = some q' →
      ∃ fault, q'.status = .terminated fault) := by
  have hd := doomed_of_queued (sessions_serial h hi) hmem hbad
  refine ⟨fun q hq => ⟨not_survives hi hd hq, ?_⟩, fun hp => doomed_enabled hp hi hd,
    fun q q' k a hq hstep => ?_⟩
  · obtain ⟨session', hi', -, hissued⟩ := doomed_reaches hi hd hq
    exact ⟨session', hi', hissued⟩
  · obtain ⟨session', hi', hd', -⟩ := doomed_reaches hi hd hq
    exact terminated_of_run hi' hd' hstep

/-- A request to `/completions` without a body has been dispatched. -/
def emptyBody : List Process.Action :=
  Process.accepting ++
    [.session 0 (.readSocket { url := lit "/completions", version := 11, body := [] } [])]

theorem emptyBody_rejected : Endpoint.Rejects [] .completions := ⟨_, rfl⟩

theorem emptyBody_queued :
    ∃ p session, Process.step.runIf Machine.free (Process.init fun _ => []) emptyBody = some p ∧
      p.status = .running ∧ p.sessions[0]? = some session ∧ session.request.body = [] ∧
      .queued .completions ∈ session.blocks := by
  have hrun : (Process.step.runIf Machine.free (Process.init fun _ => []) emptyBody).bind
      (fun p => p.sessions[0]?.map fun session =>
        (p.status, session.request.body, session.blocks)) =
      some (.running, [], [.queued .completions]) := by
    decide
  obtain ⟨p, hp, hobs⟩ := Option.bind_eq_some_iff.mp hrun
  obtain ⟨session, hi, hsession⟩ := Option.map_eq_some_iff.mp hobs
  simp only [Prod.mk.injEq] at hsession
  obtain ⟨hstatus, hbody, hblocks⟩ := hsession
  exact ⟨p, session, hp, hstatus, hi, hbody, by rw [hblocks]; exact List.mem_singleton_self _⟩

theorem emptyBody_terminates :
    ∃ p q, Process.step.runIf Machine.free (Process.init fun _ => []) emptyBody = some p ∧
      Process.step p (.session 0 (.run 0 .start)) = some q ∧
      ∃ fault, q.status = .terminated fault := by
  obtain ⟨p, session, hp, hstatus, hi, hbody, hmem⟩ := emptyBody_queued
  have hnever := badRequest_never_survived _ (Machine.reaches_of_runIf hp) hi hmem
    (hbody ▸ emptyBody_rejected)
  obtain ⟨q, hq⟩ := hnever.2.1 hstatus
  exact ⟨p, q, hp, hq, hnever.2.2 p q 0 .start (Machine.Reaches.refl p) hq⟩

theorem emptyBody_not_survived :
    ¬ ∀ p (i : Nat) session endpoint,
      Process.step.Reaches Machine.free (Process.init fun _ => []) p →
      p.status = .running → p.sessions[i]? = some session →
      .queued endpoint ∈ session.blocks → endpoint.Rejects session.request.body →
      ∃ q, Process.step.Reaches Machine.free p q ∧ Survives p q i := by
  intro hall
  obtain ⟨p, session, hp, hstatus, hi, hbody, hmem⟩ := emptyBody_queued
  have hbad : Endpoint.Rejects session.request.body .completions := hbody ▸ emptyBody_rejected
  have hreach := Machine.reaches_of_runIf hp
  obtain ⟨q, hq, hsurvives⟩ := hall p 0 session _ hreach hstatus hi hmem hbad
  exact not_survives hi (doomed_of_queued (sessions_serial hreach hi) hmem hbad) hq hsurvives

end Server
end SSVim
