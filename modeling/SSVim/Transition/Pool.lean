/-
Pools of concurrent activities.

Activities that run at the same time are a list in no particular order.  A step
takes one of them out and may put it back changed, so what a pool amounts to is
said up to permutation.
-/
import Mathlib.Data.List.Perm.Basic

namespace SSVim
namespace Transition

variable {α β : Type*}

/-- Activity number `k` and the others. -/
def pick (pool : List α) (k : Nat) : Option (α × List α) :=
  pool[k]?.map fun x => (x, pool.eraseIdx k)

theorem pick_perm {pool rest : List α} {k : Nat} {x : α} (h : pick pool k = some (x, rest)) :
    pool.Perm (x :: rest) := by
  obtain ⟨y, hy, heq⟩ := Option.map_eq_some_iff.mp h
  cases heq
  obtain ⟨hk, rfl⟩ := List.getElem?_eq_some_iff.mp hy
  exact (List.getElem_cons_eraseIdx_perm hk).symm

theorem pick_length {pool rest : List α} {k : Nat} {x : α} (h : pick pool k = some (x, rest)) :
    pool.length = rest.length + 1 := (pick_perm h).length_eq

theorem pick_mem {pool rest : List α} {k : Nat} {x : α} (h : pick pool k = some (x, rest)) :
    x ∈ pool := (pick_perm h).mem_iff.mpr List.mem_cons_self

theorem pick_subset {pool rest : List α} {k : Nat} {x : α} (h : pick pool k = some (x, rest)) :
    rest ⊆ pool := fun _ hy => (pick_perm h).mem_iff.mpr (List.mem_cons_of_mem _ hy)

theorem pick_singleton {pool rest : List α} {k : Nat} {x y : α}
    (h : pick pool k = some (x, rest)) (hpool : pool = [y]) : x = y ∧ rest = [] := by
  have hperm := pick_perm h
  rw [hpool] at hperm
  have heq := List.singleton_perm.mp hperm
  cases heq
  exact ⟨rfl, rfl⟩

theorem pick_countP {pool rest : List α} {k : Nat} {x : α} (p : α → Bool)
    (h : pick pool k = some (x, rest)) :
    pool.countP p = rest.countP p + if p x then 1 else 0 := by
  rw [(pick_perm h).countP_eq, List.countP_cons]

theorem pick_flatMap {pool rest : List α} {k : Nat} {x : α} (f : α → List β)
    (h : pick pool k = some (x, rest)) : (pool.flatMap f).Perm (f x ++ rest.flatMap f) := by
  rw [← List.flatMap_cons]
  exact (pick_perm h).flatMap_right f

end Transition
end SSVim
