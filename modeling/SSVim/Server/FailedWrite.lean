/-
What a session does once a write has failed.

`onWrite` logs the error and starts the next read as if the write had succeeded.
That read takes a request which is already buffered, or one that the socket still
delivers, and only when there is neither does the session come to rest.
-/
import SSVim.Server.Pairing

namespace SSVim
namespace Server

open Transition

/-- No read of the session can complete with a request. -/
def Session.Drained (session : Session) : Prop := session.streambuf = [] ∧ session.shut = true

/-- A write fails only when nothing more can be read. -/
def failsDrained (p : Process) : Process.Action → Prop
  | .session i (.writeDone _ success) =>
    success = false → ∀ session ∈ p.sessions[i]?, session.Drained
  | _ => True

/-- From `session` to `session'` no request was read or dispatched and no response
was passed to `async_write`. -/
def Ended (session session' : Session) : Prop :=
  session'.readLog = session.readLog ∧ session'.issued = session.issued ∧ session'.blocks = []

/-- At rest: nothing can be read, and no block or write is left. -/
structure Resting (session : Session) : Prop where
  drained : session.Drained
  blocks : session.blocks = []
  writes : session.writes = []

/-- Up to a failed write every response issued is delivered or being written. -/
def Orderly (session : Session) : Prop :=
  session.delivered ++ session.writes = session.issued ∨
    Resting session ∧ session.delivered <+: session.issued

section
variable {session session' : Session} {a : Session.Action} {effect : Effect}

theorem resting_step (hr : Resting session) (h : Session.Stepped session a session' effect) :
    Resting session' ∧ session'.readLog = session.readLog ∧ session'.issued = session.issued ∧
      session'.delivered = session.delivered := by
  obtain ⟨⟨hbuf, hshut⟩, hblocks, hwrites⟩ := hr
  cases h with
  | readBuffered _ hs =>
    rw [hbuf] at hs
    cases hs
  | readSocket _ _ hopen =>
    rw [hshut] at hopen
    cases hopen
  | readFails | shut | fault =>
    exact ⟨⟨⟨hbuf, by first | exact hshut | rfl⟩, hblocks, hwrites⟩, rfl, rfl, rfl⟩
  | run hb | write hb =>
    have hmem := pick_mem hb
    rw [hblocks] at hmem
    cases hmem
  | writeDone hw =>
    have hmem := pick_mem hw
    rw [hwrites] at hmem
    cases hmem

theorem orderly_init (socket : Socket) : Orderly (Session.init socket) := Or.inl rfl

theorem writeDone_only (hs : Serial session) {k : Nat} {res : Response} {rest : List Response}
    (hw : pick session.writes k = some (res, rest)) :
    session.writes = [res] ∧ rest = [] ∧ session.blocks = [] := by
  have hsingle := hs.busy
  have hlen := pick_length hw
  have hrest : rest = [] := List.length_eq_zero_iff.mp (by omega)
  have hblocks : session.blocks = [] := List.length_eq_zero_iff.mp (by omega)
  refine ⟨?_, hrest, hblocks⟩
  have hperm := pick_perm hw
  rw [hrest] at hperm
  exact List.perm_singleton.mp hperm

theorem orderly_read (ho : session.delivered ++ session.writes = session.issued)
    (request : Req) (rest : List Req) : Orderly (session.readDone request rest) := by
  refine Or.inl ?_
  rcases session.readDone_cases request rest with ⟨endpoint, -, heq⟩ | ⟨-, heq⟩
  · rw [heq]
    exact ho
  · rw [heq]
    show session.delivered ++ (session.writes ++ [_]) = session.issued ++ [_]
    rw [← List.append_assoc, ho]

theorem orderly_step (hs : Serial session) (ho : Orderly session)
    (hok : ∀ k, a = .writeDone k false → session.Drained)
    (h : Session.Stepped session a session' effect) : Orderly session' := by
  rcases ho with ho | ⟨hr, hprefix⟩
  · cases h with
    | readBuffered | readSocket => exact orderly_read ho _ _
    | readFails | shut | run | fault => exact Or.inl ho
    | @write k res rest =>
      refine Or.inl ?_
      show session.delivered ++ (session.writes ++ [res]) = session.issued ++ [res]
      rw [← List.append_assoc, ho]
    | @writeDone k success res rest hw =>
      obtain ⟨hwrites, rfl, hblocks⟩ := writeDone_only hs hw
      rw [hwrites] at ho
      cases success with
      | true =>
        refine Or.inl ?_
        show session.delivered ++ [res] ++ [] = session.issued
        rw [List.append_nil, ho]
      | false =>
        refine Or.inr ⟨⟨hok k rfl, hblocks, rfl⟩, ?_⟩
        show session.delivered <+: session.issued
        exact ⟨[res], ho⟩
  · obtain ⟨hr', -, hissued, hdelivered⟩ := resting_step hr h
    refine Or.inr ⟨hr', ?_⟩
    rw [hissued, hdelivered]
    exact hprefix

end

section
variable {p p' : Process} {i : Nat}

theorem sessions_orderly {documents : Str → Str}
    (h : Process.step.Reaches failsDrained (Process.init documents) p) {session : Session}
    (hi : p.sessions[i]? = some session) : Serial session ∧ Orderly session := by
  refine Process.sessions_invariant (I := fun session => Serial session ∧ Orderly session)
    (fun socket => ⟨serial_init socket, orderly_init socket⟩)
    (fun q j session b session' effect hok hj hs ha => ?_) h hi
  have hstep := Session.stepped_of_step ha
  refine ⟨serial_step hs.1 hstep, orderly_step hs.1 hs.2 (fun k hb => ?_) hstep⟩
  subst hb
  exact hok rfl session hj

/-- A session whose write fails with nothing left to read has ended. -/
theorem ended_of_drained {documents : Str → Str} {ok : Process → Process.Action → Prop}
    (h : Process.step.Reaches ok (Process.init documents) p) {session : Session} {k : Nat}
    (hi : p.sessions[i]? = some session) (hd : session.Drained)
    (hstep : Process.step p (.session i (.writeDone k false)) = some p')
    {ok' : Process → Process.Action → Prop} {p'' : Process}
    (hrun : Process.step.Reaches ok' p' p'') :
    ∃ session'', p''.sessions[i]? = some session'' ∧ Ended session session'' := by
  obtain ⟨session₀, session', effect, hi₀, hs, hsessions, -, -⟩ := Process.session_step hstep
  rw [hi, Option.some.injEq] at hi₀
  subst hi₀
  have hi' : p'.sessions[i]? = some session' := by
    rw [hsessions]
    exact Process.set_sessions hi
  have hend : Resting session' ∧ session'.readLog = session.readLog ∧
      session'.issued = session.issued := by
    cases Session.stepped_of_step hs with
    | writeDone hw =>
      obtain ⟨-, rfl, hblocks⟩ := writeDone_only (sessions_serial h hi) hw
      exact ⟨⟨hd, hblocks, rfl⟩, rfl, rfl⟩
  obtain ⟨session'', hi'', hr, hread, hissued⟩ := Process.session_invariant
    (I := fun t => Resting t ∧ t.readLog = session.readLog ∧ t.issued = session.issued)
    (fun t b t' effect ht ha => by
      obtain ⟨hr, hread, hissued, -⟩ := resting_step ht.1 (Session.stepped_of_step ha)
      exact ⟨hr, hread.trans ht.2.1, hissued.trans ht.2.2⟩) hrun hi' hend
  exact ⟨session'', hi'', hread, hissued, hr.blocks⟩

theorem read_of_not_drained {session : Session} (hr : 0 < session.reads)
    (hd : ¬ session.Drained) :
    ∃ b request rest, session.step b = some (session.readDone request rest, .none) := by
  cases hbuf : session.streambuf with
  | cons request rest =>
    refine ⟨.readBuffered, request, rest, ?_⟩
    simp only [Session.step, hbuf, if_pos hr]
  | nil =>
    have hshut : session.shut = false := by
      cases hs : session.shut with
      | false => rfl
      | true => exact absurd ⟨hbuf, hs⟩ hd
    refine ⟨.readSocket Req.empty [], Req.empty, [], ?_⟩
    simp only [Session.step, hbuf, hshut, hr, true_and, if_true]

/-- A session whose write fails while something is left to read can read it. -/
theorem not_ended_of_not_drained {session : Session} {k : Nat}
    (hi : p.sessions[i]? = some session) (hd : ¬ session.Drained)
    (hstep : Process.step p (.session i (.writeDone k false)) = some p') :
    ∃ p'' session'', Process.step.Reaches Machine.free p' p'' ∧
      p''.sessions[i]? = some session'' ∧ ¬ Ended session session'' := by
  obtain ⟨hrunning, -⟩ := Process.running_of_step hstep
  obtain ⟨session₀, session', effect, hi₀, hs, -, -, heffect⟩ := Process.session_step hstep
  rw [hi, Option.some.injEq] at hi₀
  subst hi₀
  cases Session.stepped_of_step hs with
  | @writeDone _ _ res rest hw =>
    cases heffect
    have hd' : ¬ (session.writeDone res rest false).Drained := hd
    obtain ⟨b, request, buffered, hread⟩ := read_of_not_drained (Nat.succ_pos _) hd'
    let q : Process :=
      { p with sessions := p.sessions.set i (session.writeDone res rest false) }
    have hi' : q.sessions[i]? = some (session.writeDone res rest false) :=
      Process.set_sessions hi
    have hnext := Process.step_session (p := q) hrunning hi' hread
    refine ⟨_, _, Machine.Reaches.single trivial hnext, Process.set_sessions hi', fun hend => ?_⟩
    have hlog := hend.1
    rw [Session.readDone_readLog] at hlog
    exact absurd (show session.readLog ++ [request] = session.readLog from hlog) (by simp)

end

/-- In every run whose writes fail only with nothing left to read, the responses
delivered are the first ones issued, and a session has ended once a write of it
fails.  A write that fails at any other time has a continuation in which the
session reads on. -/
theorem ended_of_failsDrained (documents : Str → Str) :
    (∀ p, Process.step.Reaches failsDrained (Process.init documents) p →
      ∀ (i : Nat) session, p.sessions[i]? = some session →
        Paired session.readLog session.issued ∧ session.delivered <+: session.issued) ∧
    (∀ p (i k : Nat) p' p'' session,
      Process.step.Reaches failsDrained (Process.init documents) p →
      failsDrained p (.session i (.writeDone k false)) →
      Process.step p (.session i (.writeDone k false)) = some p' →
      Process.step.Reaches failsDrained p' p'' → p.sessions[i]? = some session →
      ∃ session'', p''.sessions[i]? = some session'' ∧ Ended session session'') ∧
    (∀ p (i k : Nat) p' session, Process.step.Reaches Machine.free (Process.init documents) p →
      ¬ failsDrained p (.session i (.writeDone k false)) →
      Process.step p (.session i (.writeDone k false)) = some p' →
      p.sessions[i]? = some session →
      ∃ p'' session'', Process.step.Reaches Machine.free p' p'' ∧
        p''.sessions[i]? = some session'' ∧ ¬ Ended session session'') := by
  refine ⟨fun p h i session hi => ?_, fun p i k p' p'' session h hok hstep hrun hi => ?_,
    fun p i k p' session _ hok hstep hi => ?_⟩
  · obtain ⟨hs, ho⟩ := sessions_orderly h hi
    refine ⟨hs.paired, ?_⟩
    rcases ho with ho | ⟨-, hprefix⟩
    · exact ⟨session.writes, ho⟩
    · exact hprefix
  · exact ended_of_drained h hi (hok rfl session hi) hstep hrun
  · refine not_ended_of_not_drained hi (fun hd => hok fun _ session' hi' => ?_) hstep
    have heq : some session = some session' := hi.symm.trans hi'
    cases heq
    exact hd

/-- The response to the first of two requests that arrive at once is being
written. -/
def pipelined : List Process.Action :=
  Process.accepting ++ [.session 0 (.readSocket unknownRequest [unknownRequest])]

theorem pipelined_reads_on :
    ¬ ∀ p (i k : Nat) p' p'' session,
      Process.step.Reaches Machine.free (Process.init fun _ => []) p →
      Process.step p (.session i (.writeDone k false)) = some p' →
      Process.step.Reaches Machine.free p' p'' → p.sessions[i]? = some session →
      ∃ session'', p''.sessions[i]? = some session'' ∧ Ended session session'' := by
  intro hall
  have hrun : (Process.step.runIf Machine.free (Process.init fun _ => []) pipelined).bind
      (fun p => (Process.step p (.session 0 (.writeDone 0 false))).bind fun _ =>
        p.sessions[0]?.map Session.streambuf) = some [unknownRequest] := by
    decide
  obtain ⟨p, hp, hrest⟩ := Option.bind_eq_some_iff.mp hrun
  obtain ⟨p', hp', hobs⟩ := Option.bind_eq_some_iff.mp hrest
  obtain ⟨session, hi, hbuf⟩ := Option.map_eq_some_iff.mp hobs
  have hd : ¬ session.Drained := by
    intro hd
    rw [hd.1] at hbuf
    cases hbuf
  obtain ⟨p'', session'', hreach, hi'', hend⟩ := not_ended_of_not_drained hi hd hp'
  obtain ⟨session₁, hi₁, hend₁⟩ :=
    hall p 0 0 p' p'' session (Machine.reaches_of_runIf hp) hp' hreach hi
  rw [hi'', Option.some.injEq] at hi₁
  exact hend (hi₁ ▸ hend₁)

end Server
end SSVim
