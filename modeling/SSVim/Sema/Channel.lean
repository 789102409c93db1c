/-
`FutureChannel`: promises registered under keys, each key fulfilled at once.

`future` allocates a promise and appends it to the list of its key.  `set`
fulfils every promise of a key with one value and drops the key.  A promise is
its allocation number, and `values` is the `set_value` calls made so far, so a
second call on one promise would show as a second entry.

`ChannelState` and its two operations are the class as written.  What the
operations keep is `WellFormed`, and `FutureChannel` carries it, so every
channel of the protocol has disjoint duplicate-free promise lists, no empty list
and no promise both registered and set.
-/
import Mathlib.Data.List.AList

namespace SSVim
namespace Sema

structure ChannelState (κ ν : Type) [DecidableEq κ] where
  /-- `_promises`. -/
  promises : AList fun _ : κ => List Nat
  allocated : Nat
  values : List (Nat × ν)

namespace ChannelState

variable {κ ν : Type} [DecidableEq κ]

def empty : ChannelState κ ν := { promises := ∅, allocated := 0, values := [] }

/-- The promises under a key, in registration order. -/
def entries (ch : ChannelState κ ν) (key : κ) : List Nat := (ch.promises.lookup key).getD []

def set (ch : ChannelState κ ν) (key : κ) (value : ν) : ChannelState κ ν :=
  match ch.promises.lookup key with
  | none => ch
  | some entries =>
    { ch with
      promises := ch.promises.erase key
      values := ch.values ++ entries.map fun promise => (promise, value) }

/-- The channel after the registration.  The promise registered is
`ch.allocated`. -/
def future (ch : ChannelState κ ν) (key : κ) : ChannelState κ ν :=
  { ch with
    promises := ch.promises.insert key (ch.entries key ++ [ch.allocated])
    allocated := ch.allocated + 1 }

/-- What `future.get()` returns for the promise, `none` while it blocks. -/
def value? (ch : ChannelState κ ν) (promise : Nat) : Option ν := ch.values.lookup promise

theorem values_set (ch : ChannelState κ ν) (key : κ) (value : ν) :
    (ch.set key value).values =
      ch.values ++ (ch.entries key).map fun promise => (promise, value) := by
  rw [set, entries]
  cases ch.promises.lookup key <;> simp

theorem allocated_set (ch : ChannelState κ ν) (key : κ) (value : ν) :
    (ch.set key value).allocated = ch.allocated := by
  rw [set]
  cases ch.promises.lookup key <;> rfl

theorem lookup_set (ch : ChannelState κ ν) (key key' : κ) (value : ν) :
    (ch.set key value).promises.lookup key' =
      if key' = key then none else ch.promises.lookup key' := by
  rw [set]
  cases h : ch.promises.lookup key with
  | none =>
    by_cases hk : key' = key
    · rw [if_pos hk, hk]
      exact h
    · rw [if_neg hk]
  | some entries =>
    by_cases hk : key' = key
    · rw [if_pos hk, hk]
      exact AList.lookup_erase key ch.promises
    · rw [if_neg hk]
      exact AList.lookup_erase_ne hk

theorem lookup_future (ch : ChannelState κ ν) (key key' : κ) :
    (ch.future key).promises.lookup key' =
      if key' = key then some (ch.entries key ++ [ch.allocated])
      else ch.promises.lookup key' := by
  by_cases hk : key' = key
  · rw [if_pos hk, hk]
    exact AList.lookup_insert ch.promises
  · rw [if_neg hk]
    exact AList.lookup_insert_ne hk

theorem entries_set (ch : ChannelState κ ν) (key key' : κ) (value : ν) :
    (ch.set key value).entries key' = if key' = key then [] else ch.entries key' := by
  rw [entries, lookup_set]
  split <;> rfl

theorem entries_future (ch : ChannelState κ ν) (key key' : κ) :
    (ch.future key).entries key' =
      if key' = key then ch.entries key ++ [ch.allocated] else ch.entries key' := by
  rw [entries, lookup_future]
  split <;> rfl

end ChannelState

section
variable {κ ν : Type} [DecidableEq κ]

/-- What holds of the map of promises and the promises set so far. -/
structure WellFormed (ch : ChannelState κ ν) : Prop where
  nonempty : ∀ key, ch.promises.lookup key ≠ some []
  fresh : ∀ key, ∀ p ∈ ch.entries key, p < ch.allocated
  nodup : ∀ key, (ch.entries key).Nodup
  disjoint : ∀ key key' p, p ∈ ch.entries key → p ∈ ch.entries key' → key = key'
  unset : ∀ key, ∀ p ∈ ch.entries key, ∀ e ∈ ch.values, e.1 ≠ p
  setOld : ∀ e ∈ ch.values, e.1 < ch.allocated
  setOnce : (ch.values.map Prod.fst).Nodup

namespace WellFormed

theorem empty : WellFormed (ChannelState.empty : ChannelState κ ν) where
  nonempty key h := by
    rw [ChannelState.empty, AList.lookup_empty] at h
    cases h
  fresh key p hp := by cases hp
  nodup key := List.nodup_nil
  disjoint key key' p hp := by cases hp
  unset key p hp := by cases hp
  setOld e he := by cases he
  setOnce := List.nodup_nil

theorem set {ch : ChannelState κ ν} (h : WellFormed ch) (key : κ) (value : ν) :
    WellFormed (ch.set key value) where
  nonempty key' := by
    rw [ChannelState.lookup_set]
    split
    · simp
    · exact h.nonempty key'
  fresh key' p hp := by
    rw [ChannelState.entries_set] at hp
    rw [ChannelState.allocated_set]
    split at hp
    · cases hp
    · exact h.fresh key' p hp
  nodup key' := by
    rw [ChannelState.entries_set]
    split
    · exact List.nodup_nil
    · exact h.nodup key'
  disjoint key₁ key₂ p hp₁ hp₂ := by
    rw [ChannelState.entries_set] at hp₁ hp₂
    split at hp₁
    · cases hp₁
    · split at hp₂
      · cases hp₂
      · exact h.disjoint key₁ key₂ p hp₁ hp₂
  unset key' p hp e he := by
    rw [ChannelState.entries_set] at hp
    split at hp
    · cases hp
    next hne =>
      rw [ChannelState.values_set, List.mem_append] at he
      rcases he with he | he
      · exact h.unset key' p hp e he
      · obtain ⟨q, hq, rfl⟩ := List.mem_map.mp he
        exact fun heq => hne (h.disjoint key' key p hp (heq ▸ hq))
  setOld e he := by
    rw [ChannelState.values_set, List.mem_append] at he
    rw [ChannelState.allocated_set]
    rcases he with he | he
    · exact h.setOld e he
    · obtain ⟨q, hq, rfl⟩ := List.mem_map.mp he
      exact h.fresh key q hq
  setOnce := by
    rw [ChannelState.values_set, List.map_append, List.map_map]
    have hid : (Prod.fst ∘ fun promise => (promise, value)) = (id : Nat → Nat) := rfl
    rw [hid, List.map_id, List.nodup_append]
    refine ⟨h.setOnce, h.nodup key, fun a ha b hb => ?_⟩
    obtain ⟨e, he, rfl⟩ := List.mem_map.mp ha
    exact h.unset key b hb e he

theorem future {ch : ChannelState κ ν} (h : WellFormed ch) (key : κ) :
    WellFormed (ch.future key) where
  nonempty key' := by
    rw [ChannelState.lookup_future]
    split
    · simp
    · exact h.nonempty key'
  fresh key' p hp := by
    rw [ChannelState.entries_future] at hp
    show p < ch.allocated + 1
    split at hp
    · rcases List.mem_append.mp hp with hp | hp
      · exact Nat.lt_succ_of_lt (h.fresh key p hp)
      · rw [List.mem_singleton.mp hp]
        exact Nat.lt_succ_self _
    · exact Nat.lt_succ_of_lt (h.fresh key' p hp)
  nodup key' := by
    rw [ChannelState.entries_future]
    split
    · refine List.nodup_append.mpr ⟨h.nodup key, List.nodup_singleton _, fun a ha b hb => ?_⟩
      rw [List.mem_singleton.mp hb]
      exact Nat.ne_of_lt (h.fresh key a ha)
    · exact h.nodup key'
  disjoint key₁ key₂ p hp₁ hp₂ := by
    -- the new promise is under its key alone, since every old one is smaller
    have hold : ∀ k, p ∈ (ch.future key).entries k →
        p ∈ ch.entries k ∨ (k = key ∧ p = ch.allocated) := by
      intro k hk
      rw [ChannelState.entries_future] at hk
      split at hk
      next heq =>
        rcases List.mem_append.mp hk with hk | hk
        · exact Or.inl (heq ▸ hk)
        · exact Or.inr ⟨heq, List.mem_singleton.mp hk⟩
      · exact Or.inl hk
    rcases hold key₁ hp₁ with h₁ | ⟨h₁, hp⟩ <;> rcases hold key₂ hp₂ with h₂ | ⟨h₂, hp'⟩
    · exact h.disjoint key₁ key₂ p h₁ h₂
    · exact absurd (h.fresh key₁ p h₁) (by omega)
    · exact absurd (h.fresh key₂ p h₂) (by omega)
    · rw [h₁, h₂]
  unset key' p hp e he := by
    rw [ChannelState.entries_future] at hp
    split at hp
    · rcases List.mem_append.mp hp with hp | hp
      · exact h.unset key p hp e he
      · rw [List.mem_singleton.mp hp]
        exact Nat.ne_of_lt (h.setOld e he)
    · exact h.unset key' p hp e he
  setOld e he := Nat.lt_succ_of_lt (h.setOld e he)
  setOnce := h.setOnce

end WellFormed

end

/-- A channel that only `set` and `future` have been applied to. -/
structure FutureChannel (κ ν : Type) [DecidableEq κ] extends ChannelState κ ν where
  wf : WellFormed toChannelState

namespace FutureChannel

variable {κ ν : Type} [DecidableEq κ]

def empty : FutureChannel κ ν := { ChannelState.empty with wf := WellFormed.empty }

def set (ch : FutureChannel κ ν) (key : κ) (value : ν) : FutureChannel κ ν :=
  ⟨ch.toChannelState.set key value, ch.wf.set key value⟩

def future (ch : FutureChannel κ ν) (key : κ) : FutureChannel κ ν :=
  ⟨ch.toChannelState.future key, ch.wf.future key⟩

@[simp] theorem entries_set (ch : FutureChannel κ ν) (key key' : κ) (value : ν) :
    (ch.set key value).entries key' = if key' = key then [] else ch.entries key' :=
  ChannelState.entries_set _ _ _ _

@[simp] theorem entries_future (ch : FutureChannel κ ν) (key key' : κ) :
    (ch.future key).entries key' =
      if key' = key then ch.entries key ++ [ch.allocated] else ch.entries key' :=
  ChannelState.entries_future _ _ _

theorem mem_entries_future {ch : FutureChannel κ ν} {key key' : κ} {p : Nat}
    (h : p ∈ ch.entries key) : p ∈ (ch.future key').entries key := by
  rw [entries_future]
  split
  next heq => exact List.mem_append_left _ (heq ▸ h)
  · exact h

theorem allocated_mem_future (ch : FutureChannel κ ν) (key : κ) :
    ch.allocated ∈ (ch.future key).entries key := by
  rw [entries_future, if_pos rfl]
  exact List.mem_append_right _ (List.mem_singleton_self _)

@[simp] theorem allocated_set (ch : FutureChannel κ ν) (key : κ) (value : ν) :
    (ch.set key value).allocated = ch.allocated := ChannelState.allocated_set _ _ _

@[simp] theorem value?_future (ch : FutureChannel κ ν) (key : κ) (p : Nat) :
    (ch.future key).value? p = ch.value? p := rfl

/-- A promise that is registered has no value. -/
theorem value?_of_mem {ch : FutureChannel κ ν} {key : κ} {p : Nat} (h : p ∈ ch.entries key) :
    ch.value? p = none := by
  refine List.lookup_eq_none_iff.mpr (fun e he => ?_)
  have hne := ch.wf.unset key p h e he
  simpa using Ne.symm hne

theorem value?_set (ch : FutureChannel κ ν) (key : κ) (value : ν) (p : Nat) :
    (ch.set key value).value? p = if p ∈ ch.entries key then some value else ch.value? p := by
  have hmap : ∀ ps : List Nat,
      (ps.map fun promise => (promise, value)).lookup p = if p ∈ ps then some value else none := by
    intro ps
    induction ps with
    | nil => rfl
    | cons q ps ih =>
      by_cases hq : p = q
      · simp [hq]
      · have hb : (p == q) = false := by simpa using hq
        rw [List.map_cons, List.lookup_cons, hb]
        simp [ih, hq]
  show (ch.toChannelState.set key value).values.lookup p = _
  rw [ChannelState.values_set, List.lookup_append, hmap]
  by_cases hp : p ∈ ch.entries key
  · have hnone : ch.values.lookup p = none := value?_of_mem hp
    rw [if_pos hp, if_pos hp, hnone, Option.none_or]
  · rw [if_neg hp, if_neg hp, Option.or_none]
    rfl

/-- A key that some promise is registered under. -/
def Registered (ch : FutureChannel κ ν) (key : κ) : Prop := ch.entries key ≠ []

end FutureChannel

end Sema
end SSVim
