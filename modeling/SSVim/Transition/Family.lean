/-
Families of activities, and what is left of them to do.

A family gives each name one activity at most, and only finitely many names are in use.
With a rank for an activity, the total over a family or a pool moves as the rank of the
activity that moves.
-/
import Mathlib.Algebra.BigOperators.Finprod
import Mathlib.Data.Set.Finite.Basic
import SSVim.Transition.Pool

namespace SSVim
namespace Transition

variable {ι α : Type*}

/-- Finitely many names are in use. -/
def FinitelyMany (f : ι → Option α) : Prop := {i | f i ≠ none}.Finite

theorem FinitelyMany.fresh [Infinite ι] {f : ι → Option α} (h : FinitelyMany f) :
    ∃ i, f i = none := by
  obtain ⟨i, hi⟩ := Set.Finite.exists_notMem h
  exact ⟨i, by simpa using hi⟩

section
variable [DecidableEq ι] {f : ι → Option α}

theorem FinitelyMany.update (h : FinitelyMany f) (i : ι) (x : Option α) :
    FinitelyMany (Function.update f i x) := by
  refine (Set.Finite.insert i h).subset fun j hj => ?_
  by_cases hji : j = i
  · exact Or.inl hji
  · refine Or.inr ?_
    show f j ≠ none
    rw [← Function.update_of_ne hji x f]
    exact hj

end

end Transition
end SSVim
