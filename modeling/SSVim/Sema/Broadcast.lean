/-
`FutureChannel` over whole histories of `future` and `set`.

A promise stays under its key until the first `set` on it, which fulfils it with its
value and forgets it, and no later `set` reaches it again.  A registration is
followed from its place in the history on (`value?_runFrom`), and what the map holds
is read off the history one operation at a time (`entries_run`).
-/
import Mathlib.Data.List.Induction
import SSVim.Sema.Channel

namespace SSVim
namespace Sema

/-- An operation on a channel, each of which holds the lock from start to end. -/
inductive ChannelOp (κ ν : Type) where
  | future (key : κ)
  | set (key : κ) (value : ν)

namespace ChannelOp

variable {κ ν : Type}

/-- The first `set` on `key` sets `value`. -/
def FirstSet (ops : List (ChannelOp κ ν)) (key : κ) (value : ν) : Prop :=
  ∃ j : Nat, ops[j]? = some (.set key value) ∧
    ∀ (m : Nat) value', m < j → ops[m]? ≠ some (.set key value')

/-- An operation that is no `set` on the key moves every index by one. -/
theorem firstSet_cons {op : ChannelOp κ ν} {key : κ} {ops : List (ChannelOp κ ν)} {value : ν}
    (hop : ∀ value', op ≠ .set key value') :
    FirstSet (op :: ops) key value ↔ FirstSet ops key value := by
  constructor
  · intro ⟨j, hj, hfirst⟩
    cases j with
    | zero =>
      rw [List.getElem?_cons_zero, Option.some.injEq] at hj
      exact absurd hj (hop value)
    | succ j =>
      refine ⟨j, hj, fun m value' hm => ?_⟩
      exact hfirst (m + 1) value' (by omega)
  · intro ⟨j, hj, hfirst⟩
    refine ⟨j + 1, hj, fun m value' hm => ?_⟩
    cases m with
    | zero =>
      rw [List.getElem?_cons_zero, ne_eq, Option.some.injEq]
      exact hop value'
    | succ m => exact hfirst m value' (by omega)

/-- The first `set` on `key` after operation `i` sets `value`. -/
def FirstSetAfter (ops : List (ChannelOp κ ν)) (i : Nat) (key : κ) (value : ν) : Prop :=
  ∃ j, i < j ∧ ops[j]? = some (.set key value) ∧
    ∀ m value', i < m → m < j → ops[m]? ≠ some (.set key value')

/-- A history with a `set` on the key after `i` has a first one. -/
theorem exists_firstSetAfter {ops : List (ChannelOp κ ν)} {i : Nat} {key : κ} :
    (∃ value, FirstSetAfter ops i key value) ↔
      ∃ j value, i < j ∧ ops[j]? = some (.set key value) := by
  constructor
  · intro ⟨value, j, hij, hj, _⟩
    exact ⟨j, value, hij, hj⟩
  · intro ⟨j, value, hij, hj⟩
    induction j using Nat.strongRecOn generalizing value with
    | ind j ih =>
      by_cases hearlier : ∃ m value', i < m ∧ m < j ∧ ops[m]? = some (.set key value')
      · obtain ⟨m, value', him, hmj, hm⟩ := hearlier
        exact ih m hmj value' him hm
      · refine ⟨value, j, hij, hj, fun m value' him hmj hm => hearlier ?_⟩
        exact ⟨m, value', him, hmj, hm⟩

section
variable [DecidableEq κ]

def registers (key : κ) : ChannelOp κ ν → Bool
  | future key' => decide (key' = key)
  | set _ _ => false

def fulfils (key : κ) : ChannelOp κ ν → Bool
  | future _ => false
  | set key' _ => decide (key' = key)

end

end ChannelOp

namespace FutureChannel

open ChannelOp

variable {κ ν : Type} [DecidableEq κ]

def apply (ch : FutureChannel κ ν) : ChannelOp κ ν → FutureChannel κ ν
  | .future key => ch.future key
  | .set key value => ch.set key value

def runFrom (ch : FutureChannel κ ν) (ops : List (ChannelOp κ ν)) : FutureChannel κ ν :=
  ops.foldl apply ch

/-- The channel after a history that starts on an empty one. -/
def run (ops : List (ChannelOp κ ν)) : FutureChannel κ ν := runFrom empty ops

/-- The promise whose future operation `i` returns, if it is a `future`. -/
def promiseAt (ops : List (ChannelOp κ ν)) (i : Nat) : Nat := (run (ops.take i)).allocated

/-- The promises registered under `key` since the last `set` on it, in order. -/
def registeredSince (ops : List (ChannelOp κ ν)) (key : κ) : List Nat :=
  ((List.range ops.length).filter fun i =>
    ops[i]?.any (ChannelOp.registers key) && !(ops.drop (i + 1)).any (ChannelOp.fulfils key)).map
      (promiseAt ops)

/-! ## The future of a registration -/

section
variable {ch : FutureChannel κ ν} {key : κ} {p : Nat}

theorem runFrom_cons (ch : FutureChannel κ ν) (op : ChannelOp κ ν) (ops : List (ChannelOp κ ν)) :
    ch.runFrom (op :: ops) = (ch.apply op).runFrom ops := rfl

theorem run_append (ops ops' : List (ChannelOp κ ν)) :
    run (ops ++ ops') = (run ops).runFrom ops' := List.foldl_append

/-- A value that a promise has is never set again. -/
theorem value?_runFrom_of_some {value : ν} (ops : List (ChannelOp κ ν))
    (hv : ch.value? p = some value) : (ch.runFrom ops).value? p = some value := by
  induction ops generalizing ch with
  | nil => exact hv
  | cons op ops ih =>
    rw [runFrom_cons]
    apply ih
    cases op with
    | future key' => exact hv
    | set key' value' =>
      have hnot : p ∉ ch.entries key' := by
        intro hmem
        rw [value?_of_mem hmem] at hv
        cases hv
      show (ch.set key' value').value? p = some value
      rw [value?_set, if_neg hnot, hv]

/-- A registered promise gets the value of the first `set` on its key. -/
theorem value?_runFrom (ops : List (ChannelOp κ ν)) (hmem : p ∈ ch.entries key) (value : ν) :
    (ch.runFrom ops).value? p = some value ↔ FirstSet ops key value := by
  induction ops generalizing ch with
  | nil =>
    have hnone : (ch.runFrom []).value? p = none := value?_of_mem hmem
    rw [hnone]
    simp [FirstSet]
  | cons op ops ih =>
    rw [runFrom_cons]
    cases op with
    | future key' =>
      rw [firstSet_cons fun _ heq => by cases heq]
      exact ih (mem_entries_future hmem)
    | set key' value' =>
      by_cases hk : key = key'
      · subst hk
        have hset : ((ch.set key value').runFrom ops).value? p = some value' := by
          apply value?_runFrom_of_some
          rw [value?_set, if_pos hmem]
        show ((ch.set key value').runFrom ops).value? p = some value ↔ _
        rw [hset, Option.some.injEq]
        constructor
        · intro heq
          subst heq
          exact ⟨0, rfl, fun m value'' hm => absurd hm (Nat.not_lt_zero m)⟩
        · intro ⟨j, hj, hfirst⟩
          cases j with
          | zero =>
            rw [List.getElem?_cons_zero, Option.some.injEq, ChannelOp.set.injEq] at hj
            exact hj.2
          | succ j => exact absurd rfl (hfirst 0 value' (Nat.succ_pos j))
      · rw [firstSet_cons fun value'' heq => hk (ChannelOp.set.inj heq).1.symm]
        apply ih
        show p ∈ (ch.set key' value').entries key
        rw [entries_set, if_neg hk]
        exact hmem

end

/-- The value of the future that operation `i` returned. -/
theorem value?_promiseAt {ops : List (ChannelOp κ ν)} {i : Nat} {key : κ}
    (hi : ops[i]? = some (.future key)) (value : ν) :
    (run ops).value? (promiseAt ops i) = some value ↔ FirstSetAfter ops i key value := by
  have hlt : i < ops.length := (List.getElem?_eq_some_iff.mp hi).choose
  have hsplit : run ops = ((run (ops.take i)).future key).runFrom (ops.drop (i + 1)) := by
    have hops : ops = ops.take i ++ .future key :: ops.drop (i + 1) := by
      have hget : ops[i] = .future key := (List.getElem?_eq_some_iff.mp hi).choose_spec
      rw [← hget, List.getElem_cons_drop, List.take_append_drop]
    calc run ops = run (ops.take i ++ .future key :: ops.drop (i + 1)) := by rw [← hops]
      _ = ((run (ops.take i)).future key).runFrom (ops.drop (i + 1)) := run_append _ _
  have hdrop : ∀ m, (ops.drop (i + 1))[m]? = ops[i + 1 + m]? := fun m => List.getElem?_drop
  rw [hsplit, promiseAt, value?_runFrom _ (allocated_mem_future _ key)]
  constructor
  · intro ⟨j, hj, hfirst⟩
    rw [hdrop] at hj
    refine ⟨i + 1 + j, by omega, hj, fun m value' him hmj => ?_⟩
    have hm := hfirst (m - (i + 1)) value' (by omega)
    rw [hdrop, show i + 1 + (m - (i + 1)) = m by omega] at hm
    exact hm
  · intro ⟨j, hij, hj, hfirst⟩
    refine ⟨j - (i + 1), ?_, fun m value' hm => ?_⟩
    · rw [hdrop, show i + 1 + (j - (i + 1)) = j by omega]
      exact hj
    · rw [hdrop]
      exact hfirst (i + 1 + m) value' (by omega) (by omega)

/-! ## What the map holds -/

section
variable (ops : List (ChannelOp κ ν)) (key : κ)

theorem registeredSince_concat (op : ChannelOp κ ν) :
    registeredSince (ops ++ [op]) key =
      (if op.fulfils key then [] else registeredSince ops key) ++
        if op.registers key then [(run ops).allocated] else [] := by
  have hlast : promiseAt (ops ++ [op]) ops.length = (run ops).allocated := by
    rw [promiseAt, List.take_left]
  have hold : ∀ i ∈ List.range ops.length, promiseAt (ops ++ [op]) i = promiseAt ops i := by
    intro i hi
    have hlt : i < ops.length := List.mem_range.mp hi
    rw [promiseAt, promiseAt, List.take_append_of_le_length (Nat.le_of_lt hlt)]
  have hkeep : ∀ i ∈ List.range ops.length,
      ((ops ++ [op])[i]?.any (ChannelOp.registers key) &&
        !((ops ++ [op]).drop (i + 1)).any (ChannelOp.fulfils key)) =
      ((ops[i]?.any (ChannelOp.registers key) &&
        !(ops.drop (i + 1)).any (ChannelOp.fulfils key)) && !op.fulfils key) := by
    intro i hi
    have hlt : i < ops.length := List.mem_range.mp hi
    rw [List.getElem?_append_left hlt, List.drop_append_of_le_length hlt, List.any_append]
    simp [Bool.and_assoc]
  rw [registeredSince, List.length_append, List.length_singleton, List.range_succ,
    List.filter_append, List.map_append, List.filter_congr hkeep]
  congr 1
  · cases op.fulfils key with
    | true => simp
    | false =>
      simp only [Bool.not_false, Bool.and_true, Bool.false_eq_true, if_false]
      apply List.map_congr_left
      intro i hi
      exact hold i (List.mem_filter.mp hi).1
  · simp only [List.filter_singleton, List.getElem?_concat_length, Option.any_some]
    rw [List.drop_eq_nil_of_le (by simp)]
    cases op.registers key with
    | true => simp [hlast]
    | false => simp

/-- The map holds under each key what was registered since the last `set` on it. -/
theorem entries_run : (run ops).entries key = registeredSince ops key := by
  induction ops using List.reverseRecOn with
  | nil => rfl
  | append_singleton ops op ih =>
    rw [registeredSince_concat, ← ih, run_append]
    cases op with
    | future key' =>
      show ((run ops).future key').entries key = _
      rw [entries_future]
      by_cases hk : key = key'
      · subst hk
        simp [ChannelOp.fulfils, ChannelOp.registers]
      · simp [ChannelOp.fulfils, ChannelOp.registers, hk, Ne.symm hk]
    | set key' value =>
      show ((run ops).set key' value).entries key = _
      rw [entries_set]
      by_cases hk : key = key'
      · subst hk
        simp [ChannelOp.fulfils, ChannelOp.registers]
      · simp [ChannelOp.fulfils, ChannelOp.registers, hk, Ne.symm hk]

end

/-- A `set` on a key without promises does nothing. -/
theorem set_of_entries_nil {ch : FutureChannel κ ν} {key : κ} (h : ch.entries key = [])
    (value : ν) : ch.set key value = ch := by
  have hnone : ch.promises.lookup key = none := by
    cases hl : ch.promises.lookup key with
    | none => rfl
    | some entries =>
      have hentries : entries = [] := by
        rw [ChannelState.entries, hl] at h
        exact h
      rw [hentries] at hl
      exact absurd hl (ch.wf.nonempty key)
  have hstate : ch.toChannelState.set key value = ch.toChannelState := by
    rw [ChannelState.set, hnone]
  cases ch with
  | mk state wf =>
    simp only [set]
    congr

/-- A channel delivers like a one-shot broadcast, over any history on an empty one. -/
theorem run_broadcast (ops : List (ChannelOp κ ν)) :
    (∀ i key, ops[i]? = some (.future key) →
      ((∃ value, (run ops).value? (promiseAt ops i) = some value) ↔
        ∃ j value, i < j ∧ ops[j]? = some (.set key value)) ∧
      ∀ value, (run ops).value? (promiseAt ops i) = some value ↔ FirstSetAfter ops i key value) ∧
    ((run ops).values.map Prod.fst).Nodup ∧
    (∀ key, (run ops).entries key = registeredSince ops key ∧
      (registeredSince ops key).Nodup ∧ (run ops).promises.lookup key ≠ some []) ∧
    (∀ key value, (run ops).entries key = [] →
      (run ops).set key value = run ops ∧
        ∀ later, run (ops ++ .set key value :: later) = run (ops ++ later)) := by
  refine ⟨fun i key hi => ⟨?_, value?_promiseAt hi⟩, (run ops).wf.setOnce, fun key => ?_,
    fun key value hnil => ?_⟩
  · rw [← exists_firstSetAfter]
    exact exists_congr fun value => value?_promiseAt hi value
  · have hentries := entries_run ops key
    refine ⟨hentries, ?_, (run ops).wf.nonempty key⟩
    rw [← hentries]
    exact (run ops).wf.nodup key
  · have hset := set_of_entries_nil hnil value
    refine ⟨hset, fun later => ?_⟩
    rw [run_append, run_append, runFrom_cons]
    show ((run ops).set key value).runFrom later = _
    rw [hset]

end FutureChannel

end Sema
end SSVim
