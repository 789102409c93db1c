/-
Every session has a connection of its own.

`onAccept` moves the connection out of `_socket`, which the next accept fills again, and
several calls may be under way.  In every run, with accepts that fail and a server that
closes, no two calls get hold of one connection, and no session starts without one.
-/
import Mathlib.Data.List.Perm.Subperm
import SSVim.Server.Arming

namespace SSVim
namespace Server

open Transition

namespace Acceptor

/-- What has a session or is held by a call has been accepted, and no connection twice. -/
structure Owned (acceptor : Acceptor) : Prop where
  single : acceptor.tokens ≤ 1
  numbered : acceptor.accepted = List.range acceptor.accepted.length
  owned : List.Subperm
    (acceptor.started ++ acceptor.frames.flatMap (Frame.held acceptor.socket))
    (acceptor.accepted.map some)

theorem owned_init : Owned init := ⟨le_refl _, rfl, List.Subperm.refl _⟩

section
variable {acceptor acceptor' : Acceptor} {a : Action}

/-- A step of a call may let go of what it holds, but takes nothing else. -/
theorem owned_of_pick (ho : acceptor.Owned) {k : Nat} {frame : Frame}
    {rest frames : List Frame} {socket : Socket}
    (hpick : pick acceptor.frames k = some (frame, rest))
    (hframes : List.Subperm (frames.flatMap (Frame.held socket))
      (Frame.held acceptor.socket frame ++ rest.flatMap (Frame.held acceptor.socket))) :
    List.Subperm (acceptor.started ++ frames.flatMap (Frame.held socket))
      (acceptor.accepted.map some) := by
  have hperm := pick_flatMap (Frame.held acceptor.socket) hpick
  have hheld := hframes.trans hperm.symm.subperm
  exact ((List.Subperm.refl acceptor.started).append hheld).trans ho.owned

/-- Another frame in the place of the one picked. -/
theorem subperm_replaced {frame frame' : Frame} {rest : List Frame} {socket socket' : Socket}
    (hheld : Frame.held socket' frame' = Frame.held socket frame)
    (hrest : rest.flatMap (Frame.held socket') = rest.flatMap (Frame.held socket)) :
    List.Subperm ((rest ++ [frame']).flatMap (Frame.held socket'))
      (Frame.held socket frame ++ rest.flatMap (Frame.held socket)) := by
  rw [List.flatMap_append, List.flatMap_singleton, hheld, hrest]
  exact List.perm_append_comm.subperm

theorem owned_onAccept (ho : acceptor.Owned) {k : Nat} {frame : Frame} {rest : List Frame}
    (hpick : pick acceptor.frames k = some (frame, rest)) :
    (acceptor.onAccept rest frame).Owned := by
  have hsingle : (acceptor.onAccept rest frame).tokens ≤ 1 :=
    (tokens_onAccept hpick).trans ho.single
  cases frame with
  | entered success =>
    rw [onAccept_entered] at hsingle ⊢
    refine ⟨hsingle, ho.numbered, owned_of_pick ho hpick ?_⟩
    by_cases hpasses : acceptor.isOpen = true ∧ success = true
    · rw [if_pos hpasses]
      refine subperm_replaced ?_ rfl
      rw [hpasses.2]
      rfl
    · rw [if_neg hpasses]
      exact (List.sublist_append_right _ _).subperm
  | passed =>
    refine ⟨hsingle, ho.numbered, owned_of_pick ho hpick (subperm_replaced rfl ?_)⟩
    -- No other call is going to move `_socket`.
    have hcount := pick_countP Frame.unarmed hpick
    have htotal : acceptor.outstanding + acceptor.frames.countP Frame.unarmed ≤ 1 := ho.single
    have hrest : rest.countP Frame.unarmed = 0 := by
      rw [hcount] at htotal
      have hone : acceptor.outstanding + (rest.countP Frame.unarmed + 1) ≤ 1 := htotal
      omega
    exact held_of_armed hrest _ _
  | moved sock =>
    exact ⟨hsingle, ho.numbered, owned_of_pick ho hpick (subperm_replaced rfl rfl)⟩
  | armed sock =>
    refine ⟨hsingle, ho.numbered, ?_⟩
    have hperm := pick_flatMap (Frame.held acceptor.socket) hpick
    show List.Subperm
      (acceptor.started ++ [sock] ++ rest.flatMap (Frame.held acceptor.socket)) _
    rw [List.append_assoc]
    exact (hperm.append_left acceptor.started).symm.subperm.trans ho.owned

theorem owned_complete (ho : acceptor.Owned) (success : Bool) (hpos : 0 < acceptor.outstanding) :
    (acceptor.complete success).Owned := by
  have htokens : (acceptor.complete success).tokens ≤ 1 :=
    (tokens_complete success hpos).trans_le ho.single
  have htotal : acceptor.outstanding + acceptor.frames.countP Frame.unarmed ≤ 1 := ho.single
  have hnone : acceptor.frames.countP Frame.unarmed = 0 := by omega
  unfold complete at htokens ⊢
  split at htokens
  next hsuccess =>
    rw [if_pos hsuccess]
    refine ⟨htokens, ?_, ?_⟩
    · show acceptor.accepted ++ [acceptor.accepted.length] =
        List.range (acceptor.accepted ++ [acceptor.accepted.length]).length
      rw [List.length_append, List.length_singleton, List.range_succ, ← ho.numbered]
    · show List.Subperm
        (acceptor.started ++ (acceptor.frames ++ [Frame.entered true]).flatMap
          (Frame.held (some acceptor.accepted.length)))
        ((acceptor.accepted ++ [acceptor.accepted.length]).map some)
      rw [List.map_append, List.flatMap_append, ← List.append_assoc,
        held_of_armed hnone _ acceptor.socket]
      exact ho.owned.append (List.Subperm.refl _)
  next hfails =>
    rw [if_neg hfails]
    refine ⟨htokens, ho.numbered, ?_⟩
    show List.Subperm
      (acceptor.started ++ (acceptor.frames ++ [Frame.entered false]).flatMap
        (Frame.held acceptor.socket)) (acceptor.accepted.map some)
    rw [List.flatMap_append, List.flatMap_singleton]
    show List.Subperm (acceptor.started ++ (_ ++ [])) _
    rw [List.append_nil]
    exact ho.owned

theorem owned_step (ho : acceptor.Owned) (h : step acceptor a = some acceptor') :
    acceptor'.Owned := by
  cases a with
  | complete success =>
    simp only [step] at h
    split at h
    next hpos =>
      cases h
      exact owned_complete ho success hpos
    · cases h
  | advance k =>
    obtain ⟨⟨frame, rest⟩, hpick, rfl⟩ := Option.map_eq_some_iff.mp h
    exact owned_onAccept ho hpick
  | close =>
    cases h
    exact ⟨ho.single, ho.numbered, ho.owned⟩

end

end Acceptor

/-- In every run, the sessions run on different connections, each of which was accepted. -/
theorem sessions_own_connections (documents : Str → Str) {p : Process}
    (h : Process.step.Reaches Machine.free (Process.init documents) p) :
    (p.sessions.map Session.socket).Nodup ∧
      ∀ session ∈ p.sessions, ∃ connection ∈ p.acceptor.accepted,
        session.socket = some connection := by
  have hreach := acceptor_reaches Machine.free (fun _ _ _ => trivial) h
  have ho : p.acceptor.Owned :=
    hreach.invariant (fun _ _ _ hx _ hs => Acceptor.owned_step hx hs) Acceptor.owned_init
  have hsessions : List.Subperm (p.sessions.map Session.socket) (p.acceptor.accepted.map some) := by
    rw [sessions_started h]
    exact (List.sublist_append_left _ _).subperm.trans ho.owned
  constructor
  · have hnodup : (p.acceptor.accepted.map some).Nodup := by
      rw [ho.numbered]
      exact List.nodup_range.map fun _ _ heq => Option.some.inj heq
    obtain ⟨sockets, hperm, hsub⟩ := hsessions
    exact hperm.nodup_iff.mp (hsub.nodup hnodup)
  · intro session hmem
    obtain ⟨connection, hmem', heq⟩ :=
      List.mem_map.mp (hsessions.subset (List.mem_map_of_mem hmem))
    exact ⟨connection, hmem', heq.symm⟩

/-- A second connection, and then the server closes with a third accept under way. -/
def twoConnections : List Process.Action :=
  Process.accepting ++ Process.accepting ++
    [.acceptor (.complete true), .acceptor .close, .acceptor (.advance 0)]

theorem twoConnections_own :
    ∃ p, Process.step.runIf Machine.free (Process.init fun _ => []) twoConnections = some p ∧
      p.sessions.length = 2 ∧ p.acceptor.accepted.length = 3 ∧
      (p.sessions.map Session.socket).Nodup := by
  have hrun : (Process.step.runIf Machine.free (Process.init fun _ => []) twoConnections).map
      (fun p => (p.sessions.length, p.acceptor.accepted.length)) = some (2, 3) := by
    decide
  obtain ⟨p, hp, hobs⟩ := Option.map_eq_some_iff.mp hrun
  obtain ⟨hsessions, haccepted⟩ := Prod.mk.injEq .. ▸ hobs
  have hown := sessions_own_connections _ (Machine.reaches_of_runIf hp)
  exact ⟨p, hp, hsessions, haccepted, hown.1⟩

end Server
end SSVim
