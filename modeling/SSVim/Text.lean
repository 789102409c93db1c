/-
Byte strings and the C and C++ text operations the server performs on them.

A `std::string` holds any bytes, a C string stops at the first NUL, and
`std::getline` splits a stream at newlines and drops the last piece when it is
empty.  `at` and `substr` are the two checked operations: they throw
`std::out_of_range`, which is a fault here.
-/
import Mathlib.Data.List.TakeWhile

namespace SSVim

/-- A `std::string`. -/
abbrev Str := List UInt8

/-- A string literal of the source. -/
def lit (s : String) : Str := s.toList.map fun c => c.toNat.toUInt8

def nul : UInt8 := 0
def newline : UInt8 := 10
def space : UInt8 := 32
def dot : UInt8 := 46

/-- What ends a computation other than by returning.  None of them is caught:
in a block run by libdispatch each ends the process. -/
inductive Fault where
  /-- A C++ exception that leaves the function. -/
  | exception (what : String)
  /-- A failing `assert`. -/
  | assertion (message : String)
  /-- An index outside a `std::vector` read with `[]`. -/
  | badIndex
  deriving DecidableEq, Repr

theorem bind_eq_ok {α β : Type} {x : Except Fault α} {f : α → Except Fault β} {b : β}
    (h : x >>= f = .ok b) : ∃ a, x = .ok a ∧ f a = .ok b := by
  cases x with
  | error e => cases h
  | ok a => exact ⟨a, rfl, h⟩

theorem map_eq_ok {α β : Type} {f : α → β} {x : Except Fault α} {b : β}
    (h : x.map f = .ok b) : ∃ a, x = .ok a ∧ f a = b := by
  cases x with
  | error e => cases h
  | ok a => exact ⟨a, rfl, Except.ok.inj h⟩

theorem map_eq_error {α β : Type} {f : α → β} {x : Except Fault α} {fault : Fault}
    (h : x.map f = .error fault) : x = .error fault := by
  cases x with
  | error e => exact congrArg Except.error (Except.error.inj h)
  | ok a => cases h

/-! ## C strings -/

/-- The characters a C string built from `s` has, those before the first NUL. -/
def cstr (s : Str) : Str := s.takeWhile (· ≠ nul)

def NulFree (s : Str) : Prop := nul ∉ s

instance (s : Str) : Decidable (NulFree s) := inferInstanceAs (Decidable (nul ∉ s))

theorem cstr_nulFree (s : Str) : NulFree (cstr s) := by
  intro h
  have := List.mem_takeWhile_imp h
  simp at this

theorem cstr_of_nulFree {s : Str} (h : NulFree s) : cstr s = s := by
  refine List.takeWhile_eq_self_iff.mpr (fun b hb => ?_)
  have hne : b ≠ nul := fun he => h (he ▸ hb)
  simpa using hne

@[simp] theorem cstr_cstr (s : Str) : cstr (cstr s) = cstr s :=
  cstr_of_nulFree (cstr_nulFree s)

theorem cstr_isPrefix (s : Str) : cstr s <+: s := List.takeWhile_prefix _

/-- A C string has the first `n` bytes of the text when they have no NUL and the text
ends or a NUL follows. -/
theorem cstr_length_eq_iff {s : Str} {n : Nat} (hn : n ≤ s.length) :
    (cstr s).length = n ↔ NulFree (s.take n) ∧ (n = s.length ∨ s[n]? = some nul) := by
  induction s generalizing n with
  | nil =>
    have h0 : n = 0 := Nat.le_zero.mp hn
    subst h0
    simp [cstr, NulFree]
  | cons b s ih =>
    by_cases hb : b = nul
    · subst hb
      cases n with
      | zero => simp [cstr, NulFree]
      | succ n => simp [cstr, NulFree]
    · cases n with
      | zero => simp [cstr, hb]
      | succ n =>
        have hcons : cstr (b :: s) = b :: cstr s := List.takeWhile_cons_of_pos (decide_eq_true hb)
        rw [hcons, List.length_cons, Nat.add_right_cancel_iff, ih (by simpa using hn)]
        simp [NulFree, Ne.symm hb]

/-! ## Checked access -/

/-- `s.at(i)`. -/
def charAt (s : Str) (i : Nat) : Except Fault UInt8 :=
  match s[i]? with
  | some c => .ok c
  | none => .error (.exception "std::out_of_range")

theorem charAt_of_lt {s : Str} {i : Nat} (h : i < s.length) : charAt s i = .ok s[i] := by
  rw [charAt, List.getElem?_eq_getElem h]

/-- `s.substr(pos, count)`. -/
def substr (s : Str) (pos count : Nat) : Except Fault Str :=
  if pos ≤ s.length then .ok ((s.drop pos).take count)
  else .error (.exception "std::out_of_range")

theorem substr_zero (s : Str) (count : Nat) : substr s 0 count = .ok (s.take count) := by
  simp [substr]

/-! ## Lines -/

/-- One `std::getline` on a stream that still holds `s`: the line and what the
stream holds after it, or `none` when the stream is exhausted. -/
def getline (s : Str) : Option (Str × Str) :=
  if s = [] then none
  else some (s.takeWhile (· ≠ newline), (s.dropWhile (· ≠ newline)).drop 1)

/-- The lines that `while (std::getline(stream, line))` sees. -/
def lines : Str → List Str
  | [] => []
  | c :: cs =>
    if c = newline then [] :: lines cs
    else match lines cs with
      | [] => [[c]]
      | l :: ls => (c :: l) :: ls

theorem lines_newline (cs : Str) : lines (newline :: cs) = [] :: lines cs := by
  simp [lines]

/-- `lines` is what repeated `getline` calls give. -/
theorem lines_eq_getline (s : Str) :
    lines s = match getline s with
      | none => []
      | some (line, rest) => line :: lines rest := by
  induction s with
  | nil => rfl
  | cons c cs ih =>
    by_cases hc : c = newline
    · subst hc
      rw [lines_newline]
      simp [getline]
    · have hg : getline (c :: cs) = some (c :: cs.takeWhile (· ≠ newline),
          (cs.dropWhile (· ≠ newline)).drop 1) := by
        simp [getline, hc]
      rw [hg, lines, if_neg hc, ih]
      by_cases hcs : cs = []
      · subst hcs
        rfl
      · simp [getline, hcs]

/-- Lines written out, each with its newline. -/
def unlines (ls : List Str) : Str := ls.flatMap fun l => l ++ [newline]

@[simp] theorem unlines_nil : unlines [] = [] := rfl

@[simp] theorem unlines_cons (l : Str) (ls : List Str) :
    unlines (l :: ls) = l ++ newline :: unlines ls := by
  rw [unlines, List.flatMap_cons, List.append_assoc]
  rfl

/-- The first line of a text and the lines of what follows it. -/
theorem lines_of_ne_nil {s : Str} (h : s ≠ []) :
    lines s = s.takeWhile (· ≠ newline) :: lines ((s.dropWhile (· ≠ newline)).drop 1) := by
  rw [lines_eq_getline, getline, if_neg h]

theorem dropWhile_newline (s : Str) :
    s.dropWhile (· ≠ newline) = [] ∨
      s.dropWhile (· ≠ newline) = newline :: (s.dropWhile (· ≠ newline)).drop 1 := by
  induction s with
  | nil => exact Or.inl rfl
  | cons c cs ih =>
    by_cases hc : c = newline
    · subst hc
      exact Or.inr rfl
    · rw [List.dropWhile_cons_of_pos (by simpa using hc)]
      exact ih

/-- Lines written out start as the text they come from. -/
theorem unlines_lines_head {s : Str} (h : s ≠ []) : (unlines (lines s))[0]? = s[0]? := by
  rw [lines_of_ne_nil h, unlines_cons]
  cases s with
  | nil => exact absurd rfl h
  | cons b s =>
    by_cases hb : b = newline
    · subst hb
      rfl
    · simp [hb]

theorem ne_nil_of_line {s : Str} {n : Nat} {l : Str} (h : (lines s)[n]? = some l) : s ≠ [] := by
  intro hnil
  rw [hnil] at h
  cases h

/-- A text is the lines before one of its lines, that line, and what follows it. -/
theorem exists_split {s : Str} {n : Nat} {l : Str} (h : (lines s)[n]? = some l) :
    ∃ rest, s = unlines ((lines s).take n) ++ l ++ rest := by
  induction n generalizing s with
  | zero =>
    have hne := ne_nil_of_line h
    rw [lines_of_ne_nil hne, List.getElem?_cons_zero, Option.some.injEq] at h
    refine ⟨s.dropWhile (· ≠ newline), ?_⟩
    rw [← h, List.take_zero, unlines_nil, List.nil_append, List.takeWhile_append_dropWhile]
  | succ n ih =>
    have hne := ne_nil_of_line h
    rw [lines_of_ne_nil hne, List.getElem?_cons_succ] at h
    obtain ⟨rest, hrest⟩ := ih h
    refine ⟨rest, ?_⟩
    rcases dropWhile_newline s with hnil | hnewline
    · rw [hnil] at h
      cases h
    · calc s = s.takeWhile (· ≠ newline) ++ s.dropWhile (· ≠ newline) :=
            List.takeWhile_append_dropWhile.symm
        _ = s.takeWhile (· ≠ newline) ++ newline ::
              (unlines ((lines ((s.dropWhile (· ≠ newline)).drop 1)).take n) ++ l ++ rest) := by
            rw [← hrest, ← hnewline]
        _ = unlines ((lines s).take (n + 1)) ++ l ++ rest := by
            rw [lines_of_ne_nil hne, List.take_succ_cons, unlines_cons]
            simp only [List.append_assoc, List.cons_append]

theorem not_mem_of_mem_lines {s l : Str} (h : l ∈ lines s) : newline ∉ l := by
  induction s generalizing l with
  | nil => cases h
  | cons c cs ih =>
    by_cases hc : c = newline
    · rw [hc, lines_newline] at h
      rcases List.mem_cons.mp h with h | h
      · rw [h]
        exact List.not_mem_nil
      · exact ih h
    · rw [lines, if_neg hc] at h
      cases hl : lines cs with
      | nil =>
        rw [hl] at h
        rw [List.mem_singleton.mp h, List.mem_singleton]
        exact Ne.symm hc
      | cons l' ls =>
        rw [hl] at h ih
        rcases List.mem_cons.mp h with h | h
        · rw [h, List.mem_cons, not_or]
          exact ⟨Ne.symm hc, ih List.mem_cons_self⟩
        · exact ih (List.mem_cons_of_mem l' h)

theorem ne_newline_of_not_mem {l : Str} (h : newline ∉ l) :
    ∀ b ∈ l, decide (b ≠ newline) = true := by
  intro b hb
  have hne : b ≠ newline := fun he => h (he ▸ hb)
  exact decide_eq_true hne

/-- A text that goes on after a line of its own. -/
theorem lines_append_newline {l : Str} (h : newline ∉ l) (s : Str) :
    lines (l ++ newline :: s) = l :: lines s := by
  induction l with
  | nil => exact lines_newline s
  | cons c cs ih =>
    rw [List.mem_cons, not_or] at h
    rw [List.cons_append, lines, if_neg (Ne.symm h.1), ih h.2]

theorem lines_unlines_append {ls : List Str} (h : ∀ l ∈ ls, newline ∉ l) (s : Str) :
    lines (unlines ls ++ s) = ls ++ lines s := by
  induction ls with
  | nil => rfl
  | cons l ls ih =>
    have hl : newline ∉ l := h l List.mem_cons_self
    have hls : ∀ l' ∈ ls, newline ∉ l' := fun l' hl' => h l' (List.mem_cons_of_mem l hl')
    rw [unlines_cons, List.append_assoc, List.cons_append, lines_append_newline hl, ih hls,
      List.cons_append]

/-- The line that starts where a text goes on after whole lines. -/
theorem lines_unlines_getElem? {ls : List Str} (h : ∀ l ∈ ls, newline ∉ l) {s : Str}
    (hs : s ≠ []) :
    (lines (unlines ls ++ s))[ls.length]? = some (s.takeWhile (· ≠ newline)) := by
  rw [lines_unlines_append h, List.getElem?_append_right (Nat.le_refl _), Nat.sub_self,
    lines_of_ne_nil hs, List.getElem?_cons_zero]

theorem lines_unlines_take {ls : List Str} (h : ∀ l ∈ ls, newline ∉ l) (s : Str) :
    (lines (unlines ls ++ s)).take ls.length = ls := by
  rw [lines_unlines_append h, List.take_left]

end SSVim
