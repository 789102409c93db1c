/-
Refinement of one machine by another.

`f` reads a state of the abstract machine off a concrete state, and `label` names the
abstract step that a concrete step is, if it is one.  The condition is on the steps that
runs take, so it may be proved from an invariant.  Refinements compose, and what holds in
every run of the abstract machine is carried to the concrete one.
-/
import SSVim.Transition.Machine

namespace SSVim
namespace Transition
namespace Machine

variable {σ α τ β υ γ : Type*} {M : Machine σ α} {N : Machine τ β} {O : Machine υ γ}
  {ok : σ → α → Prop} {s₀ s s' : σ} {t₀ : τ} {u₀ : υ}

/-- Every step of a run of `M` from `s₀` is, seen through `f`, the step of `N` that `label`
names, or no step where it names none. -/
structure Refines (M : Machine σ α) (ok : σ → α → Prop) (s₀ : σ) (N : Machine τ β) (t₀ : τ)
    (f : σ → τ) (label : σ → α → Option β) : Prop where
  init : f s₀ = t₀
  stutter : ∀ s a s', M.Reaches ok s₀ s → ok s a → M s a = some s' → label s a = none →
    f s' = f s
  step : ∀ s a s' b, M.Reaches ok s₀ s → ok s a → M s a = some s' → label s a = some b →
    N (f s) b = some (f s')

namespace Refines

variable {f : σ → τ} {g : τ → υ} {label : σ → α → Option β} {label' : τ → β → Option γ}

/-- The steps of a run are refined when those of states with the invariant `I` are. -/
theorem of_invariant {I : σ → Prop} (hinit : f s₀ = t₀) (hI : I s₀)
    (hnext : ∀ s a s', I s → ok s a → M s a = some s' → I s')
    (hstutter : ∀ s a s', I s → M s a = some s' → label s a = none → f s' = f s)
    (hstep : ∀ s a s' b, I s → M s a = some s' → label s a = some b → N (f s) b = some (f s')) :
    M.Refines ok s₀ N t₀ f label where
  init := hinit
  stutter s a s' hs _ ha := hstutter s a s' (hs.invariant hnext hI) ha
  step s a s' b hs _ ha := hstep s a s' b (hs.invariant hnext hI) ha

/-- What the concrete machine runs the abstract one runs too. -/
theorem reaches (h : M.Refines ok s₀ N t₀ f label) (hs : M.Reaches ok s₀ s)
    (hrun : M.Reaches ok s s') : N.Reaches free (f s) (f s') := by
  induction hrun with
  | refl => exact Reaches.refl _
  | @tail t t' hrun hlast ih =>
    obtain ⟨a, hok, ha⟩ := hlast
    have ht := hs.trans hrun
    cases hb : label t a with
    | none =>
      rw [h.stutter t a t' ht hok ha hb]
      exact ih
    | some b => exact ih.snoc trivial (h.step t a t' b ht hok ha hb)

theorem reaches_init (h : M.Refines ok s₀ N t₀ f label) (hs : M.Reaches ok s₀ s) :
    N.Reaches free t₀ (f s) := h.init ▸ h.reaches (Reaches.refl s₀) hs

theorem trans (h : M.Refines ok s₀ N t₀ f label) (h' : N.Refines free t₀ O u₀ g label') :
    M.Refines ok s₀ O u₀ (g ∘ f) (fun s a => (label s a).bind (label' (f s))) where
  init := by
    rw [Function.comp_apply, h.init, h'.init]
  stutter s a s' hs hok ha hnone := by
    cases hb : label s a with
    | none => exact congrArg g (h.stutter s a s' hs hok ha hb)
    | some b =>
      rw [hb] at hnone
      exact h'.stutter _ b _ (h.reaches_init hs) trivial (h.step s a s' b hs hok ha hb) hnone
  step s a s' c hs hok ha hsome := by
    obtain ⟨b, hb, hc⟩ := Option.bind_eq_some_iff.mp hsome
    exact h'.step _ b _ c (h.reaches_init hs) trivial (h.step s a s' b hs hok ha hb) hc

end Refines

end Machine
end Transition
end SSVim
