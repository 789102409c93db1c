/-
One-shot publish and subscribe.

A subscriber joins with a key, may subscribe to it or leave, and is answered by the first
publication for its key after it subscribed.  A publication answers all who wait for it at
that moment and is gone.
-/
import Mathlib.Logic.Function.Basic
import SSVim.Transition.Machine

namespace SSVim
namespace Transition
namespace Subscription

variable {ι κ ν : Type*}

inductive Standing (ν : Type*) where
  | joined
  | waiting
  | answered (value : ν)
  | left
  deriving DecidableEq

structure Subscriber (κ ν : Type*) where
  key : κ
  standing : Standing ν
  deriving DecidableEq

/-- The subscribers by their names. -/
abbrev Board (ι κ ν : Type*) := ι → Option (Subscriber κ ν)

inductive Action (ι κ ν : Type*) where
  | join (i : ι) (key : κ)
  | subscribe (i : ι)
  | leave (i : ι)
  | publish (key : κ) (value : ν)

def empty : Board ι κ ν := fun _ => none

/-- A publication as one subscriber takes it. -/
def Subscriber.hear [DecidableEq κ] (key : κ) (value : ν) : Subscriber κ ν → Subscriber κ ν
  | ⟨key', .waiting⟩ => ⟨key', if key' = key then .answered value else .waiting⟩
  | subscriber => subscriber

def publish [DecidableEq κ] (board : Board ι κ ν) (key : κ) (value : ν) : Board ι κ ν :=
  fun i => (board i).map (Subscriber.hear key value)

theorem publish_apply [DecidableEq κ] {board : Board ι κ ν} {i : ι} {key : κ} {value : ν}
    {subscriber : Subscriber κ ν} (hi : board i = some subscriber) :
    publish board key value i = some (subscriber.hear key value) := by
  rw [publish, hi, Option.map_some]

variable [DecidableEq ι]

def move (board : Board ι κ ν) (i : ι) (standing : Standing ν) : Option (Board ι κ ν) :=
  match board i with
  | some ⟨key, .joined⟩ => some (Function.update board i (some ⟨key, standing⟩))
  | _ => none

def step [DecidableEq κ] : Machine (Board ι κ ν) (Action ι κ ν)
  | board, .join i key =>
    match board i with
    | none => some (Function.update board i (some ⟨key, .joined⟩))
    | some _ => none
  | board, .subscribe i => move board i .waiting
  | board, .leave i => move board i .left
  | board, .publish key value => some (publish board key value)

variable {board board' : Board ι κ ν} {i j : ι} {key : κ} {value : ν}

theorem move_of_joined {standing : Standing ν} (h : board i = some ⟨key, .joined⟩) :
    move board i standing = some (Function.update board i (some ⟨key, standing⟩)) := by
  rw [move, h]

/-- A move leaves alone who is not just joined. -/
theorem move_other {standing : Standing ν} (h : move board i standing = some board')
    {subscriber : Subscriber κ ν} (hj : board j = some subscriber)
    (hne : subscriber.standing ≠ .joined) : board' j = some subscriber := by
  simp only [move] at h
  split at h
  next key' hi =>
    cases h
    rw [Function.update_of_ne, hj]
    rintro rfl
    rw [hi, Option.some.injEq] at hj
    exact hne (congrArg Subscriber.standing hj).symm
  · cases h

variable [DecidableEq κ]

/-- Who waits goes on waiting but for a publication of its key, which answers it. -/
theorem step_waiting {a : Action ι κ ν} (h : step board a = some board')
    (hi : board i = some ⟨key, .waiting⟩) :
    (board' i = some ⟨key, .waiting⟩ ∧ ∀ value, a ≠ .publish key value) ∨
      ∃ value, a = .publish key value ∧ board' i = some ⟨key, .answered value⟩ := by
  cases a with
  | join j key' =>
    simp only [step] at h
    split at h
    next hj =>
      cases h
      refine Or.inl ⟨?_, fun value => nofun⟩
      rw [Function.update_of_ne, hi]
      rintro rfl
      rw [hi] at hj
      cases hj
    · cases h
  | subscribe j | leave j => exact Or.inl ⟨move_other h hi nofun, fun value => nofun⟩
  | publish key' value =>
    cases h
    by_cases hkey : key = key'
    · subst hkey
      refine Or.inr ⟨value, rfl, ?_⟩
      rw [publish_apply hi, Subscriber.hear, if_pos rfl]
    · refine Or.inl ⟨?_, fun value' heq => hkey (Action.publish.inj heq).1.symm⟩
      rw [publish_apply hi, Subscriber.hear, if_neg hkey]

theorem step_answered {a : Action ι κ ν} (h : step board a = some board')
    (hi : board i = some ⟨key, .answered value⟩) : board' i = some ⟨key, .answered value⟩ := by
  cases a with
  | join j key' =>
    simp only [step] at h
    split at h
    next hj =>
      cases h
      rw [Function.update_of_ne, hi]
      rintro rfl
      rw [hi] at hj
      cases hj
    · cases h
  | subscribe j | leave j => exact move_other h hi nofun
  | publish key' value' =>
    cases h
    rw [publish_apply hi]
    rfl

/-- `i` and `j` are in the same place: both wait for `key`, or both have one answer. -/
def Together (board : Board ι κ ν) (i j : ι) (key : κ) : Prop :=
  (board i = some ⟨key, .waiting⟩ ∧ board j = some ⟨key, .waiting⟩) ∨
    ∃ value, board i = some ⟨key, .answered value⟩ ∧ board j = some ⟨key, .answered value⟩

/-- Two who wait for one key at one time are answered at once and alike. -/
theorem together_reaches {ok : Board ι κ ν → Action ι κ ν → Prop}
    (h : Machine.Reaches step ok board board') (hstart : Together board i j key) :
    Together board' i j key := by
  refine h.invariant (I := fun b => Together b i j key) (fun b a b' hb _ ha => ?_) hstart
  rcases hb with ⟨hi, hj⟩ | ⟨value, hi, hj⟩
  · rcases step_waiting ha hi with ⟨hi', hother⟩ | ⟨value, rfl, hi'⟩
    · rcases step_waiting ha hj with ⟨hj', -⟩ | ⟨value, hpublish, -⟩
      · exact Or.inl ⟨hi', hj'⟩
      · exact absurd hpublish (hother value)
    · rcases step_waiting ha hj with ⟨-, hother⟩ | ⟨value', hpublish, hj'⟩
      · exact absurd rfl (hother value)
      · cases hpublish
        exact Or.inr ⟨value, hi', hj'⟩
  · exact Or.inr ⟨value, step_answered ha hi, step_answered ha hj⟩

end Subscription
end Transition
end SSVim
