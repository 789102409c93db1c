/-
A table that is written once.

An asker comes with a key and a value of its own.  The first one served under a key stores
its value there, and everyone served under this key later is answered with what is stored.
An asker may be refused, which leaves the table as it is.
-/
import Mathlib.Logic.Function.Basic
import SSVim.Transition.Machine

namespace SSVim
namespace Transition
namespace Memo

variable {ι κ ν : Type*}

structure Asker (κ ν : Type*) where
  key : κ
  own : ν
  answer : Option ν
  deriving DecidableEq

/-- The table, and the askers by their names. -/
structure Desk (ι κ ν : Type*) where
  table : κ → Option ν
  askers : ι → Option (Asker κ ν)

inductive Action (ι κ ν : Type*) where
  | ask (i : ι) (key : κ) (own : ν)
  | serve (i : ι)
  | refuse (i : ι)

def empty : Desk ι κ ν := { table := fun _ => none, askers := fun _ => none }

/-- Each value stored is the own one of an asker with the key, and each answer is the
fallback or what is stored. -/
structure Consistent (fallback : ν) (desk : Desk ι κ ν) : Prop where
  stored : ∀ key value, desk.table key = some value →
    ∃ i asker, desk.askers i = some asker ∧ asker.key = key ∧ asker.own = value
  answered : ∀ i asker value, desk.askers i = some asker → asker.answer = some value →
    value = fallback ∨ desk.table asker.key = some value

theorem consistent_empty (fallback : ν) : Consistent fallback (empty : Desk ι κ ν) where
  stored _ _ h := by cases h
  answered _ _ _ h := by cases h

/-- Two askers with one key are answered alike, unless one of them gets the fallback. -/
theorem Consistent.agree {fallback : ν} {desk : Desk ι κ ν} (hc : Consistent fallback desk)
    {i j : ι} {asker asker' : Asker κ ν} {value value' : ν}
    (hi : desk.askers i = some asker) (hj : desk.askers j = some asker')
    (hkey : asker.key = asker'.key) (hvalue : asker.answer = some value)
    (hvalue' : asker'.answer = some value') :
    value = fallback ∨ value' = fallback ∨ value = value' := by
  rcases hc.answered i asker value hi hvalue with hfallback | hstored
  · exact Or.inl hfallback
  · rcases hc.answered j asker' value' hj hvalue' with hfallback | hstored'
    · exact Or.inr (Or.inl hfallback)
    · rw [hkey, hstored', Option.some.injEq] at hstored
      exact Or.inr (Or.inr hstored.symm)

/-! ## The table -/

section
variable [DecidableEq κ]

def Desk.store (desk : Desk ι κ ν) (key : κ) (value : ν) : Desk ι κ ν :=
  { desk with table := Function.update desk.table key (some value) }

variable {desk : Desk ι κ ν} {key key' : κ} {value : ν}

theorem store_self : (desk.store key value).table key = some value := Function.update_self ..

theorem store_ne (h : key' ≠ key) : (desk.store key value).table key' = desk.table key' :=
  Function.update_of_ne h ..

theorem store_stored (h : desk.table key = some value) : desk.store key value = desk := by
  rw [Desk.store, ← h, Function.update_eq_self]

end

variable [DecidableEq ι]

/-- `asker` is what `i` is from now on. -/
def Desk.set (desk : Desk ι κ ν) (i : ι) (asker : Asker κ ν) : Desk ι κ ν :=
  { desk with askers := Function.update desk.askers i (some asker) }

section
variable {desk : Desk ι κ ν} {i j : ι} {asker asker' : Asker κ ν}

theorem set_self : (desk.set i asker).askers i = some asker := Function.update_self ..

theorem set_ne (h : j ≠ i) : (desk.set i asker).askers j = desk.askers j :=
  Function.update_of_ne h ..

theorem set_cases (h : (desk.set i asker).askers j = some asker') :
    asker' = asker ∨ desk.askers j = some asker' := by
  by_cases hij : j = i
  · subst hij
    rw [set_self, Option.some.injEq] at h
    exact Or.inl h.symm
  · rw [set_ne hij] at h
    exact Or.inr h

end

variable [DecidableEq κ]

def step (fallback : ν) : Machine (Desk ι κ ν) (Action ι κ ν)
  | desk, .ask i key own =>
    match desk.askers i with
    | none => some (desk.set i ⟨key, own, none⟩)
    | some _ => none
  | desk, .serve i =>
    match desk.askers i with
    | some ⟨key, own, none⟩ =>
      let value := (desk.table key).getD own
      some ((desk.store key value).set i ⟨key, own, some value⟩)
    | _ => none
  | desk, .refuse i =>
    match desk.askers i with
    | some ⟨key, own, none⟩ => some (desk.set i ⟨key, own, some fallback⟩)
    | _ => none

/-! ## What one step can do -/

inductive Stepped (fallback : ν) (desk : Desk ι κ ν) : Action ι κ ν → Desk ι κ ν → Prop where
  | ask {i key own} (hi : desk.askers i = none) :
      Stepped fallback desk (.ask i key own) (desk.set i ⟨key, own, none⟩)
  | stored {i key own value} (hi : desk.askers i = some ⟨key, own, none⟩)
      (hkey : desk.table key = some value) :
      Stepped fallback desk (.serve i) (desk.set i ⟨key, own, some value⟩)
  | first {i key own} (hi : desk.askers i = some ⟨key, own, none⟩)
      (hkey : desk.table key = none) :
      Stepped fallback desk (.serve i) ((desk.store key own).set i ⟨key, own, some own⟩)
  | refuse {i key own} (hi : desk.askers i = some ⟨key, own, none⟩) :
      Stepped fallback desk (.refuse i) (desk.set i ⟨key, own, some fallback⟩)

section
variable {fallback : ν} {desk desk' : Desk ι κ ν} {a : Action ι κ ν} {i j : ι}

theorem stepped_of_step (h : step fallback desk a = some desk') :
    Stepped fallback desk a desk' := by
  cases a with
  | ask i key own =>
    simp only [step] at h
    split at h
    next hi =>
      cases h
      exact .ask hi
    · cases h
  | serve i =>
    simp only [step] at h
    split at h
    next key own hi =>
      cases h
      cases hkey : desk.table key with
      | some value =>
        rw [Option.getD_some, store_stored hkey]
        exact .stored hi hkey
      | none => exact .first hi hkey
    · cases h
  | refuse i =>
    simp only [step] at h
    split at h
    next key own hi =>
      cases h
      exact .refuse hi
    · cases h

theorem step_ask {key : κ} {own : ν} (hi : desk.askers i = none) :
    step fallback desk (.ask i key own) = some (desk.set i ⟨key, own, none⟩) := by
  rw [step, hi]

/-- An asker is served with what is stored once its own value has been offered. -/
theorem step_serve {key : κ} {own value : ν} (hi : desk.askers i = some ⟨key, own, none⟩)
    (hvalue : (desk.table key).getD own = value) :
    step fallback desk (.serve i) =
      some ((desk.store key value).set i ⟨key, own, some value⟩) := by
  simp only [step, hi, hvalue]

theorem step_refuse {key : κ} {own : ν} (hi : desk.askers i = some ⟨key, own, none⟩) :
    step fallback desk (.refuse i) = some (desk.set i ⟨key, own, some fallback⟩) := by
  rw [step, hi]

/-- Who has come stays, with its key and its own value. -/
theorem Stepped.asker (h : Stepped fallback desk a desk') {asker : Asker κ ν}
    (hj : desk.askers j = some asker) :
    ∃ asker', desk'.askers j = some asker' ∧ asker'.key = asker.key ∧ asker'.own = asker.own := by
  have hset : ∀ {desk₁ : Desk ι κ ν} {i : ι} {asker₁ : Asker κ ν}, desk₁.askers = desk.askers →
      (j = i → asker₁.key = asker.key ∧ asker₁.own = asker.own) →
      ∃ asker', (desk₁.set i asker₁).askers j = some asker' ∧ asker'.key = asker.key ∧
        asker'.own = asker.own := by
    intro desk₁ i asker₁ haskers hsame
    by_cases hij : j = i
    · subst hij
      exact ⟨asker₁, set_self, hsame rfl⟩
    · refine ⟨asker, ?_, rfl, rfl⟩
      rw [set_ne hij, haskers, hj]
  cases h with
  | ask hi =>
    refine hset rfl fun hij => ?_
    rw [← hij, hj] at hi
    cases hi
  | stored hi | first hi | refuse hi =>
    refine hset rfl fun hij => ?_
    rw [← hij, hj, Option.some.injEq] at hi
    rw [hi]
    exact ⟨rfl, rfl⟩

/-- What is stored stays. -/
theorem Stepped.table (h : Stepped fallback desk a desk') {key : κ} {value : ν}
    (hkey : desk.table key = some value) : desk'.table key = some value := by
  cases h with
  | ask | stored | refuse => exact hkey
  | @first i key' own hi hnone =>
    show (desk.store key' own).table key = some value
    rw [store_ne, hkey]
    rintro rfl
    rw [hkey] at hnone
    cases hnone

theorem stored_step (hc : Consistent fallback desk) (h : Stepped fallback desk a desk')
    {key : κ} {value : ν} (hkey : desk'.table key = some value) :
    ∃ i asker, desk'.askers i = some asker ∧ asker.key = key ∧ asker.own = value := by
  have hlater : ∀ {i : ι} {asker : Asker κ ν}, desk.askers i = some asker → asker.key = key →
      asker.own = value →
      ∃ i asker, desk'.askers i = some asker ∧ asker.key = key ∧ asker.own = value := by
    intro i asker hi hkey hown
    obtain ⟨asker', hi', hkey', hown'⟩ := h.asker hi
    exact ⟨i, asker', hi', hkey'.trans hkey, hown'.trans hown⟩
  have hold : desk.table key = some value →
      ∃ i asker, desk'.askers i = some asker ∧ asker.key = key ∧ asker.own = value := by
    intro hkey
    obtain ⟨i, asker, hi, hkey, hown⟩ := hc.stored key value hkey
    exact hlater hi hkey hown
  cases h with
  | ask | stored | refuse => exact hold hkey
  | @first i key' own hi hnone =>
    have hvalue : (desk.store key' own).table key = some value := hkey
    by_cases heq : key = key'
    · subst heq
      rw [store_self, Option.some.injEq] at hvalue
      exact hlater hi rfl hvalue
    · rw [store_ne heq] at hvalue
      exact hold hvalue

theorem consistent_step (hc : Consistent fallback desk) (h : Stepped fallback desk a desk') :
    Consistent fallback desk' where
  stored key value hkey := stored_step hc h hkey
  answered j asker value hj hanswer := by
    have hold : desk.askers j = some asker →
        value = fallback ∨ desk'.table asker.key = some value :=
      fun hj => (hc.answered j asker value hj hanswer).imp_right h.table
    cases h with
    | ask hi =>
      rcases set_cases hj with rfl | hj
      · cases hanswer
      · exact hold hj
    | stored hi hkey =>
      rcases set_cases hj with rfl | hj
      · cases hanswer
        exact Or.inr hkey
      · exact hold hj
    | first hi hnone =>
      rcases set_cases hj with rfl | hj
      · cases hanswer
        exact Or.inr store_self
      · exact hold hj
    | refuse hi =>
      rcases set_cases hj with rfl | hj
      · cases hanswer
        exact Or.inl rfl
      · exact hold hj

theorem consistent_reaches {ok : Desk ι κ ν → Action ι κ ν → Prop}
    (h : (step fallback).Reaches ok desk desk') (hc : Consistent fallback desk) :
    Consistent fallback desk' :=
  h.invariant (fun _ _ _ hd _ ha => consistent_step hd (stepped_of_step ha)) hc

end

end Memo
end Transition
end SSVim
