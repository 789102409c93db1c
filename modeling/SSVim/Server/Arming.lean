/-
Whether the acceptor stays armed.

While the acceptor is open there is either an `async_accept` outstanding or one
call of `onAccept` that will make the next.  A call that is given an error returns
without making it, and after that there is none for good.  The
connections accepted are those with a session and those that a call still holds.
-/
import SSVim.Server.Process

namespace SSVim
namespace Server

open Transition

/-- The call has still to call `async_accept`, if it gets that far. -/
def Frame.unarmed : Frame → Bool
  | .entered _ => true
  | .passed => true
  | .moved _ => true
  | .armed _ => false

/-- The socket that the call has, or will move out of `_socket`. -/
def Frame.held (socket : Socket) : Frame → List Socket
  | .entered true => [socket]
  | .entered false => []
  | .passed => [socket]
  | .moved sock => [sock]
  | .armed sock => [sock]

/-- A call of `onAccept` is given an error only once the acceptor is closed. -/
def failsClosed (acceptor : Acceptor) : Acceptor.Action → Prop
  | .advance k => acceptor.isOpen = true → ∀ rest, pick acceptor.frames k ≠
      some (.entered false, rest)
  | _ => True

namespace Acceptor

/-- The accepts outstanding and the calls that will make one. -/
def tokens (acceptor : Acceptor) : Nat :=
  acceptor.outstanding + acceptor.frames.countP Frame.unarmed

/-- What is accepted has a session or is held by a call. -/
def Accounted (acceptor : Acceptor) : Prop :=
  (acceptor.accepted.map some).Perm
    (acceptor.started ++ acceptor.frames.flatMap (Frame.held acceptor.socket))

section
variable {acceptor acceptor' : Acceptor} {a : Action}

theorem held_of_armed {frames : List Frame} (h : frames.countP Frame.unarmed = 0)
    (socket socket' : Socket) :
    frames.flatMap (Frame.held socket) = frames.flatMap (Frame.held socket') := by
  rw [List.flatMap_def, List.flatMap_def]
  congr 1
  refine List.map_congr_left fun frame hmem => ?_
  have hun := List.countP_eq_zero.mp h frame hmem
  cases frame with
  | entered | passed => exact absurd rfl hun
  | moved | armed => rfl

theorem tokens_complete (success : Bool) (h : 0 < acceptor.outstanding) :
    (acceptor.complete success).tokens = acceptor.tokens := by
  have hcount : ∀ s, (acceptor.frames ++ [Frame.entered s]).countP Frame.unarmed =
      acceptor.frames.countP Frame.unarmed + 1 := by
    intro s
    rw [List.countP_append]
    rfl
  unfold complete tokens
  split
  · show acceptor.outstanding - 1 + (acceptor.frames ++ [Frame.entered true]).countP _ = _
    rw [hcount]
    omega
  · show acceptor.outstanding - 1 + (acceptor.frames ++ [Frame.entered false]).countP _ = _
    rw [hcount]
    omega

/-- A call never makes more than one accept. -/
theorem tokens_onAccept {k : Nat} {frame : Frame} {rest : List Frame}
    (hpick : pick acceptor.frames k = some (frame, rest)) :
    (acceptor.onAccept rest frame).tokens ≤ acceptor.tokens := by
  have hcount := pick_countP Frame.unarmed hpick
  unfold tokens
  rw [hcount]
  cases frame with
  | entered success =>
    rw [onAccept_entered]
    show acceptor.outstanding + List.countP _ (if _ then rest ++ [Frame.passed] else rest) ≤ _
    split
    · rw [List.countP_append]
      exact le_refl _
    · omega
  | passed =>
    show acceptor.outstanding + (rest ++ [Frame.moved acceptor.socket]).countP Frame.unarmed ≤ _
    rw [List.countP_append]
    exact le_refl _
  | moved sock =>
    show acceptor.outstanding + 1 + (rest ++ [Frame.armed sock]).countP Frame.unarmed ≤ _
    rw [List.countP_append]
    show acceptor.outstanding + 1 + (rest.countP Frame.unarmed + 0) ≤
      acceptor.outstanding + (rest.countP Frame.unarmed + 1)
    omega
  | armed sock => exact le_refl _

theorem tokens_step (h : step acceptor a = some acceptor') :
    acceptor'.tokens ≤ acceptor.tokens := by
  cases a with
  | complete success =>
    simp only [step] at h
    split at h
    next hpos =>
      cases h
      exact le_of_eq (tokens_complete success hpos)
    · cases h
  | advance k =>
    obtain ⟨⟨frame, rest⟩, hpick, rfl⟩ := Option.map_eq_some_iff.mp h
    exact tokens_onAccept hpick
  | close =>
    cases h
    exact le_refl _

/-! ## While no call fails -/

/-- A frame replaced by one that holds the same socket. -/
theorem accounted_of_pick (acceptor : Acceptor) (socket' : Socket) {k : Nat}
    {frame frame' : Frame} {rest : List Frame} (hacc : acceptor.Accounted)
    (hpick : pick acceptor.frames k = some (frame, rest))
    (hheld : Frame.held socket' frame' = Frame.held acceptor.socket frame)
    (hrest : rest.flatMap (Frame.held socket') = rest.flatMap (Frame.held acceptor.socket)) :
    (acceptor.accepted.map some).Perm
      (acceptor.started ++ (rest ++ [frame']).flatMap (Frame.held socket')) := by
  have hperm := pick_flatMap (Frame.held acceptor.socket) hpick
  rw [List.flatMap_append, List.flatMap_singleton, hrest, hheld]
  exact hacc.trans ((hperm.trans List.perm_append_comm).append_left _)

theorem armed_onAccept {k : Nat} {frame : Frame} {rest : List Frame}
    (hopen : acceptor.isOpen = true) (htokens : acceptor.tokens = 1) (hacc : acceptor.Accounted)
    (hpick : pick acceptor.frames k = some (frame, rest)) (hframe : frame ≠ .entered false) :
    (acceptor.onAccept rest frame).tokens = 1 ∧ (acceptor.onAccept rest frame).Accounted := by
  have hcount := pick_countP Frame.unarmed hpick
  have htotal : acceptor.outstanding + acceptor.frames.countP Frame.unarmed = 1 := htokens
  rw [hcount] at htotal
  have happend : ∀ frame', (rest ++ [frame']).countP Frame.unarmed =
      rest.countP Frame.unarmed + if frame'.unarmed then 1 else 0 := by
    intro frame'
    rw [List.countP_append, List.countP_singleton]
  cases frame with
  | entered success =>
    have hsuccess : success = true := by
      cases success with
      | false => exact absurd rfl hframe
      | true => rfl
    subst hsuccess
    have heq : acceptor.onAccept rest (.entered true) =
        { acceptor with frames := rest ++ [.passed] } := by
      rw [onAccept_entered, if_pos ⟨hopen, rfl⟩]
    rw [heq]
    constructor
    · show acceptor.outstanding + (rest ++ [Frame.passed]).countP Frame.unarmed = 1
      rw [happend]
      exact htotal
    · exact accounted_of_pick acceptor acceptor.socket hacc hpick rfl rfl
  | passed =>
    constructor
    · show acceptor.outstanding + (rest ++ [Frame.moved _]).countP Frame.unarmed = 1
      rw [happend]
      exact htotal
    · have hrest : rest.countP Frame.unarmed = 0 := by
        have hone : acceptor.outstanding + (rest.countP Frame.unarmed + 1) = 1 := htotal
        omega
      exact accounted_of_pick acceptor none hacc hpick rfl
        (held_of_armed hrest _ _)
  | moved sock =>
    constructor
    · show acceptor.outstanding + 1 + (rest ++ [Frame.armed sock]).countP Frame.unarmed = 1
      rw [happend]
      have hone : acceptor.outstanding + (rest.countP Frame.unarmed + 1) = 1 := htotal
      show acceptor.outstanding + 1 + (rest.countP Frame.unarmed + 0) = 1
      omega
    · exact accounted_of_pick acceptor acceptor.socket hacc hpick rfl rfl
  | armed sock =>
    constructor
    · exact htotal
    · have hperm := pick_flatMap (Frame.held acceptor.socket) hpick
      show (acceptor.accepted.map some).Perm
        (acceptor.started ++ [sock] ++ rest.flatMap (Frame.held acceptor.socket))
      rw [List.append_assoc]
      exact hacc.trans (hperm.append_left _)

theorem accounted_complete (success : Bool) (hpos : 0 < acceptor.outstanding)
    (htokens : acceptor.tokens = 1) (hacc : acceptor.Accounted) :
    (acceptor.complete success).Accounted := by
  have hnone : acceptor.frames.countP Frame.unarmed = 0 := by
    have htotal : acceptor.outstanding + acceptor.frames.countP Frame.unarmed = 1 := htokens
    omega
  unfold complete Accounted
  split
  · show ((acceptor.accepted ++ [acceptor.accepted.length]).map some).Perm
      (acceptor.started ++ (acceptor.frames ++ [Frame.entered true]).flatMap
        (Frame.held (some acceptor.accepted.length)))
    rw [List.map_append, List.flatMap_append, ← List.append_assoc,
      held_of_armed hnone _ acceptor.socket]
    exact hacc.append_right _
  · show (acceptor.accepted.map some).Perm
      (acceptor.started ++ (acceptor.frames ++ [Frame.entered false]).flatMap
        (Frame.held acceptor.socket))
    rw [List.flatMap_append]
    exact hacc.trans (by rw [List.flatMap_singleton]; simp [Frame.held])

/-- What holds while the acceptor is open, if no call has failed. -/
def Armed (acceptor : Acceptor) : Prop :=
  acceptor.isOpen = true → acceptor.tokens = 1 ∧ acceptor.Accounted

theorem armed_init : Armed init := fun _ => ⟨rfl, List.Perm.refl _⟩

theorem isOpen_onAccept (acceptor : Acceptor) (rest : List Frame) (frame : Frame) :
    (acceptor.onAccept rest frame).isOpen = acceptor.isOpen := by
  cases frame with
  | entered success => rw [onAccept_entered]
  | passed | moved | armed => rfl

theorem armed_step (ha : acceptor.Armed) (hok : failsClosed acceptor a)
    (h : step acceptor a = some acceptor') : acceptor'.Armed := by
  intro hopen'
  cases a with
  | complete success =>
    simp only [step] at h
    split at h
    next hpos =>
      cases h
      have hopen : acceptor.isOpen = true := by
        unfold complete at hopen'
        split at hopen' <;> exact hopen'
      obtain ⟨htokens, hacc⟩ := ha hopen
      exact ⟨(tokens_complete success hpos).trans htokens,
        accounted_complete success hpos htokens hacc⟩
    · cases h
  | advance k =>
    obtain ⟨⟨frame, rest⟩, hpick, rfl⟩ := Option.map_eq_some_iff.mp h
    have hopen : acceptor.isOpen = true := (isOpen_onAccept acceptor rest frame).symm.trans hopen'
    obtain ⟨htokens, hacc⟩ := ha hopen
    refine armed_onAccept hopen htokens hacc hpick ?_
    rintro rfl
    exact hok hopen rest hpick
  | close =>
    cases h
    cases hopen'

/-! ## After a call that fails -/

theorem accepted_onAccept (acceptor : Acceptor) (rest : List Frame) (frame : Frame) :
    (acceptor.onAccept rest frame).accepted = acceptor.accepted := by
  cases frame with
  | entered success => rw [onAccept_entered]
  | passed | moved | armed => rfl

theorem disarmed_step (hz : acceptor.tokens = 0) (h : step acceptor a = some acceptor') :
    acceptor'.tokens = 0 ∧ acceptor'.accepted = acceptor.accepted := by
  have hle := tokens_step h
  refine ⟨by omega, ?_⟩
  cases a with
  | complete success =>
    simp only [step] at h
    split at h
    next hpos =>
      have hout : acceptor.outstanding + acceptor.frames.countP Frame.unarmed = 0 := hz
      omega
    · cases h
  | advance k =>
    obtain ⟨⟨frame, rest⟩, hpick, rfl⟩ := Option.map_eq_some_iff.mp h
    exact accepted_onAccept acceptor rest frame
  | close =>
    cases h
    rfl

/-- The call that is given an error takes the last of them with it. -/
theorem disarmed_of_fails (hone : acceptor.tokens ≤ 1) (hok : ¬ failsClosed acceptor a)
    (h : step acceptor a = some acceptor') : acceptor'.tokens = 0 := by
  cases a with
  | complete | close => exact absurd trivial hok
  | advance k =>
    simp only [failsClosed, not_forall, not_not] at hok
    obtain ⟨hopen, rest, hpick⟩ := hok
    obtain ⟨⟨frame, rest'⟩, hpick', rfl⟩ := Option.map_eq_some_iff.mp h
    rw [hpick, Option.some.injEq] at hpick'
    cases hpick'
    have heq : acceptor.onAccept rest (.entered false) = { acceptor with frames := rest } := by
      rw [onAccept_entered, if_neg fun hboth => Bool.noConfusion hboth.2]
    have hcount : acceptor.frames.countP Frame.unarmed = rest.countP Frame.unarmed + 1 :=
      pick_countP Frame.unarmed hpick
    have htotal : acceptor.outstanding + acceptor.frames.countP Frame.unarmed ≤ 1 := hone
    show (acceptor.onAccept rest (.entered false)).tokens = 0
    rw [heq]
    show acceptor.outstanding + rest.countP Frame.unarmed = 0
    omega

theorem accepted_of_fails (hok : ¬ failsClosed acceptor a)
    (h : step acceptor a = some acceptor') : acceptor'.accepted = acceptor.accepted := by
  cases a with
  | complete | close => exact absurd trivial hok
  | advance k =>
    obtain ⟨⟨frame, rest⟩, -, rfl⟩ := Option.map_eq_some_iff.mp h
    exact accepted_onAccept acceptor rest frame

end

end Acceptor

/-! ## The acceptor in the process -/

/-- `failsClosed` as a condition on the steps of the process. -/
def acceptFailsClosed (p : Process) : Process.Action → Prop
  | .acceptor a => failsClosed p.acceptor a
  | _ => True

theorem acceptor_next {p p' : Process} {a : Process.Action} (h : Process.step p a = some p') :
    p'.acceptor = p.acceptor ∨
      ∃ b, a = .acceptor b ∧ Acceptor.step p.acceptor b = some p'.acceptor := by
  cases a with
  | acceptor b =>
    obtain ⟨acceptor, hb, rfl⟩ := Process.acceptor_step h
    exact Or.inr ⟨b, rfl, hb⟩
  | session i b =>
    obtain ⟨_, _, _, -, -, -, hacceptor, -⟩ := Process.session_step h
    exact Or.inl hacceptor
  | sema b => exact Or.inl (Process.sema_step h).2
  | exit => exact Or.inl (Process.exit_step h).2

theorem acceptor_reaches {ok : Process → Process.Action → Prop}
    (okAcceptor : Acceptor → Acceptor.Action → Prop)
    (hok : ∀ p b, ok p (.acceptor b) → okAcceptor p.acceptor b) {p p' : Process}
    (h : Process.step.Reaches ok p p') :
    Acceptor.step.Reaches okAcceptor p.acceptor p'.acceptor := by
  refine h.project (f := Process.acceptor) (fun q a q' hq ha => ?_)
  rcases acceptor_next ha with heq | ⟨b, rfl, hb⟩
  · exact Or.inl heq
  · exact Or.inr ⟨b, hok q b hq, hb⟩

theorem socket_step {session session' : Session} {a : Session.Action} {effect : Effect}
    (h : Session.Stepped session a session' effect) : session'.socket = session.socket := by
  cases h with
  | readBuffered | readSocket =>
    rcases session.readDone_cases _ _ with ⟨endpoint, -, heq⟩ | ⟨-, heq⟩ <;> rw [heq]
  | readFails | shut | run | fault | write | writeDone => rfl

/-- The sessions are those the acceptor started, each on its socket. -/
theorem sessions_started {ok : Process → Process.Action → Prop} {documents : Str → Str}
    {p : Process} (h : Process.step.Reaches ok (Process.init documents) p) :
    p.sessions.map Session.socket = p.acceptor.started := by
  refine h.invariant (I := fun q => q.sessions.map Session.socket = q.acceptor.started)
    (fun q a q' hq _ ha => ?_) rfl
  cases a with
  | acceptor b =>
    obtain ⟨acceptor, hb, rfl⟩ := Process.acceptor_step ha
    have hinit : Session.socket ∘ Session.init = id := rfl
    rw [Acceptor.step_started hb, List.map_append, List.map_map, hinit, List.map_id, hq]
  | session i b =>
    obtain ⟨session, session', effect, hi, hs, hsessions, hacceptor, -⟩ :=
      Process.session_step ha
    have hsocket := socket_step (Session.stepped_of_step hs)
    obtain ⟨hlt, rfl⟩ := List.getElem?_eq_some_iff.mp hi
    have hself : (q.sessions.map Session.socket).set i q.sessions[i].socket =
        q.sessions.map Session.socket := by
      rw [← List.map_set, List.set_getElem_self]
    rw [hsessions, hacceptor, List.map_set, hsocket, hself, hq]
  | sema b =>
    obtain ⟨hsessions, hacceptor⟩ := Process.sema_step ha
    rw [hsessions, hacceptor, hq]
  | exit =>
    obtain ⟨hsessions, hacceptor⟩ := Process.exit_step ha
    rw [hsessions, hacceptor, hq]

/-- While no call of `onAccept` is given an error by an open acceptor, one accept is
outstanding whenever no call is running, and the sessions started are the connections
accepted.  After a call that is, no accept is ever outstanding again. -/
theorem armed_of_failsClosed (documents : Str → Str) :
    (∀ p, Process.step.Reaches acceptFailsClosed (Process.init documents) p →
      p.acceptor.isOpen = true → p.acceptor.frames = [] →
      p.acceptor.outstanding = 1 ∧
        (p.sessions.map Session.socket).Perm (p.acceptor.accepted.map some)) ∧
    (∀ p a p' p'', Process.step.Reaches Machine.free (Process.init documents) p →
      ¬ acceptFailsClosed p a → Process.step p a = some p' →
      Process.step.Reaches Machine.free p' p'' →
      p''.acceptor.outstanding = 0 ∧ p''.acceptor.accepted = p.acceptor.accepted) := by
  constructor
  · intro p h hopen hframes
    have hreach := acceptor_reaches failsClosed (fun _ _ hok => hok) h
    have harmed : p.acceptor.Armed := hreach.invariant
      (fun _ _ _ ha hok hs => Acceptor.armed_step ha hok hs) Acceptor.armed_init
    obtain ⟨htokens, hacc⟩ := harmed hopen
    unfold Acceptor.tokens at htokens
    unfold Acceptor.Accounted at hacc
    rw [hframes] at htokens hacc
    refine ⟨htokens, ?_⟩
    rw [sessions_started h]
    simpa using hacc.symm
  · intro p a p' p'' h hok ha hrun
    cases a with
    | session | sema | exit => exact absurd trivial hok
    | acceptor b =>
      have hreach := acceptor_reaches Machine.free (fun _ _ _ => trivial) h
      have hone : p.acceptor.tokens ≤ 1 := hreach.invariant (I := fun x => x.tokens ≤ 1)
        (fun _ _ _ hx _ hs => (Acceptor.tokens_step hs).trans hx) (le_refl _)
      obtain ⟨acceptor, hb, rfl⟩ := Process.acceptor_step ha
      have hzero : acceptor.tokens = 0 := Acceptor.disarmed_of_fails hone hok hb
      have hsame : acceptor.accepted = p.acceptor.accepted :=
        Acceptor.accepted_of_fails hok hb
      have hlater := acceptor_reaches Machine.free (fun _ _ _ => trivial) hrun
      have hend : p''.acceptor.tokens = 0 ∧ p''.acceptor.accepted = acceptor.accepted := by
        refine hlater.invariant
          (I := fun x => x.tokens = 0 ∧ x.accepted = acceptor.accepted)
          (fun x b x' hx _ hs => ?_) ⟨hzero, rfl⟩
        obtain ⟨hz, hacc⟩ := Acceptor.disarmed_step hx.1 hs
        exact ⟨hz, hacc.trans hx.2⟩
      have hout : p''.acceptor.outstanding +
          p''.acceptor.frames.countP Frame.unarmed = 0 := hend.1
      exact ⟨by omega, hend.2.trans hsame⟩

/-- The first accept fails, and the call that is given the error returns. -/
def acceptFails : List Process.Action := [.acceptor (.complete false), .acceptor (.advance 0)]

theorem acceptFails_disarms :
    ¬ ∀ p, Process.step.Reaches Machine.free (Process.init fun _ => []) p →
      p.acceptor.isOpen = true → p.acceptor.frames = [] → p.acceptor.outstanding = 1 := by
  intro hall
  have hrun : (Process.step.runIf Machine.free (Process.init fun _ => []) acceptFails).map
      (fun p => (p.acceptor.isOpen, p.acceptor.frames, p.acceptor.outstanding)) =
      some (true, [], 0) := by
    decide
  obtain ⟨p, hp, hobs⟩ := Option.map_eq_some_iff.mp hrun
  simp only [Prod.mk.injEq] at hobs
  obtain ⟨hopen, hframes, hout⟩ := hobs
  have hone := hall p (Machine.reaches_of_runIf hp) hopen hframes
  rw [hout] at hone
  cases hone

end Server
end SSVim
