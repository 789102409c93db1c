/-
What `GetOffset` cuts out of a buffer.

The loop over the lines meets the cursor's line after `linesAhead` others, which
it keeps.  Of that line it keeps what the backward scan leaves: everything up to
the last separator at an index from 1 to the column, and with none there the
whole line, however much of it is beyond the cursor.
-/
import SSVim.Completer.Offset

namespace SSVim
namespace Completer

/-- A space or a dot at an index of the line. -/
def Separator (someLine : Str) (k : Nat) : Prop :=
  someLine[k]? = some space ∨ someLine[k]? = some dot

instance (someLine : Str) (k : Nat) : Decidable (Separator someLine k) :=
  inferInstanceAs (Decidable (_ ∨ _))

/-- `k` is the last separator from index 1 to `i`. -/
def LastSeparator (someLine : Str) (i k : Nat) : Prop :=
  1 ≤ k ∧ k ≤ i ∧ Separator someLine k ∧ ∀ j, k < j → j ≤ i → ¬ Separator someLine j

theorem Separator.lt_length {someLine : Str} {k : Nat} (h : Separator someLine k) :
    k < someLine.length := by
  rcases h with h | h
  · exact (List.getElem?_eq_some_iff.mp h).1
  · exact (List.getElem?_eq_some_iff.mp h).1

/-- The scan takes the NUL beyond the end of the line for no separator. -/
theorem separator_iff_lookAt {someLine : Str} {k : Nat} :
    Separator someLine k ↔ lookAt someLine k = space ∨ lookAt someLine k = dot := by
  rw [Separator, lookAt]
  cases someLine[k]? with
  | none => simp [nul, space, dot]
  | some c => simp

/-- A separator is seen in every line that agrees up to it. -/
theorem separator_congr {someLine someLine' : Str} {k n : Nat} (hk : k < n)
    (h : someLine.take n = someLine'.take n) : Separator someLine k ↔ Separator someLine' k := by
  have heq : someLine[k]? = someLine'[k]? := by
    rw [← List.getElem?_take_of_lt hk, h, List.getElem?_take_of_lt hk]
  rw [Separator, Separator, heq]

/-! ## The backward scan -/

/-- The scan stops at the last separator. -/
theorem stop_of_lastSeparator {someLine : Str} {i k : Nat} (h : LastSeparator someLine i k) :
    stop someLine i = k := by
  obtain ⟨h1, hki, hk, hlast⟩ := h
  induction i with
  | zero => omega
  | succ i ih =>
    rw [stop]
    by_cases hs : Separator someLine (i + 1)
    · have hki' : ¬ k < i + 1 := fun hlt => hlast (i + 1) hlt (Nat.le_refl _) hs
      rw [if_pos (separator_iff_lookAt.mp hs)]
      omega
    · have hne : k ≠ i + 1 := fun he => hs (he ▸ hk)
      rw [if_neg (fun hl => hs (separator_iff_lookAt.mpr hl))]
      exact ih (by omega) fun j hkj hji => hlast j hkj (by omega)

/-- With no separator the scan goes down to index 0. -/
theorem stop_of_no_separator {someLine : Str} {i : Nat}
    (h : ∀ k, 1 ≤ k → k ≤ i → ¬ Separator someLine k) : stop someLine i = 0 := by
  induction i with
  | zero => rfl
  | succ i ih =>
    have hs : ¬ Separator someLine (i + 1) := h (i + 1) (by omega) (Nat.le_refl _)
    rw [stop, if_neg (fun hl => hs (separator_iff_lookAt.mpr hl))]
    exact ih fun k h1 hk => h k h1 (by omega)

theorem exists_lastSeparator {someLine : Str} {i : Nat}
    (h : ∃ k, 1 ≤ k ∧ k ≤ i ∧ Separator someLine k) : ∃ k, LastSeparator someLine i k := by
  induction i with
  | zero =>
    obtain ⟨k, h1, hk, _⟩ := h
    omega
  | succ i ih =>
    by_cases hs : Separator someLine (i + 1)
    · exact ⟨i + 1, by omega, Nat.le_refl _, hs, fun j hij hji => by omega⟩
    · obtain ⟨k, h1, hki, hk⟩ := h
      have hne : k ≠ i + 1 := fun he => hs (he ▸ hk)
      obtain ⟨m, h1', hmi, hm, hlast⟩ := ih ⟨k, h1, by omega, hk⟩
      refine ⟨m, h1', by omega, hm, fun j hmj hji => ?_⟩
      by_cases hj : j = i + 1
      · exact hj ▸ hs
      · exact hlast j hmj (by omega)

/-- The part of the cursor's line that is kept. -/
def keptLine (someLine : Str) (column : UInt32) : Str :=
  kept someLine (stop someLine column.toNat)

theorem kept_isPrefix (someLine : Str) (i : Nat) : kept someLine i <+: someLine := by
  cases i with
  | zero => exact List.prefix_refl _
  | succ i =>
    rw [kept]
    by_cases h : i + 1 < someLine.length
    · rw [if_pos h]
      exact List.take_prefix _ _
    · rw [if_neg h]
      exact List.nil_prefix

/-- At a separator the scan keeps the line up to it and with it.  At index
`UInt32.size - 1` the count wraps and nothing is kept. -/
theorem keptLine_of_lastSeparator {someLine : Str} {column : UInt32} {k : Nat}
    (h : LastSeparator someLine column.toNat k) :
    keptLine someLine column = someLine.take ((k + 1) % UInt32.size) := by
  rw [keptLine, stop_of_lastSeparator h]
  obtain ⟨h1, _, hk, _⟩ := h
  cases k with
  | zero => omega
  | succ k => rw [kept, if_pos hk.lt_length]

theorem keptLine_of_no_separator {someLine : Str} {column : UInt32}
    (h : ∀ k, 1 ≤ k → k ≤ column.toNat → ¬ Separator someLine k) :
    keptLine someLine column = someLine := by
  rw [keptLine, stop_of_no_separator h]
  rfl

/-! ## The loop over the lines -/

/-- How many of the lines left come before the cursor's line.  It wraps when the
counter is past the line, and for line 0. -/
def linesAhead (line currentLine : UInt32) : Nat := (line - currentLine - 1).toNat

theorem linesAhead_eq_zero {line currentLine : UInt32} (h : currentLine + 1 = line) :
    linesAhead line currentLine = 0 := by
  rw [linesAhead, ← h, UInt32.toNat_sub, UInt32.toNat_sub, UInt32.toNat_add]
  have hc := currentLine.toNat_lt
  simp
  omega

theorem linesAhead_succ {line currentLine : UInt32} (h : currentLine + 1 ≠ line) :
    linesAhead line currentLine = linesAhead line (currentLine + 1) + 1 := by
  rw [ne_eq, ← UInt32.toNat_inj, UInt32.toNat_add] at h
  rw [linesAhead, linesAhead, UInt32.toNat_sub, UInt32.toNat_sub, UInt32.toNat_sub,
    UInt32.toNat_sub, UInt32.toNat_add]
  have hl := line.toNat_lt
  have hc := currentLine.toNat_lt
  simp at h ⊢
  omega

theorem linesAhead_start {line : UInt32} (h : 1 ≤ line.toNat) :
    linesAhead line 0 = line.toNat - 1 := by
  rw [linesAhead, UInt32.toNat_sub, UInt32.toNat_sub]
  have hl := line.toNat_lt
  simp
  omega

/-- A partial file with its length as the `unsigned` offset. -/
def withOffset (cleanFile : Str) : UInt32 × Str :=
  (UInt32.ofNat cleanFile.length, cleanFile)

theorem scanLines_found {line column currentLine : UInt32} {ls : List Str}
    {cleanFile someLine : Str} (h : ls[linesAhead line currentLine]? = some someLine) :
    scanLines line column ls currentLine cleanFile =
      .ok (withOffset (cleanFile ++ unlines (ls.take (linesAhead line currentLine)) ++
        keptLine someLine column)) := by
  induction ls generalizing currentLine cleanFile with
  | nil => cases h
  | cons l ls ih =>
    by_cases hc : currentLine + 1 = line
    · rw [linesAhead_eq_zero hc, List.getElem?_cons_zero, Option.some.injEq] at h
      rw [scanLines, if_pos hc, scanBack_eq, linesAhead_eq_zero hc, List.take_zero, unlines_nil,
        List.append_nil, h]
      rfl
    · rw [linesAhead_succ hc, List.getElem?_cons_succ] at h
      rw [scanLines, if_neg hc, ih h, linesAhead_succ hc, List.take_succ_cons, unlines_cons]
      simp only [List.append_assoc, List.cons_append, List.nil_append]

/-- Without the cursor's line the loop keeps every line and leaves the offset at 0. -/
theorem scanLines_missing {line column currentLine : UInt32} {ls : List Str} {cleanFile : Str}
    (h : ls[linesAhead line currentLine]? = none) :
    scanLines line column ls currentLine cleanFile = .ok (0, cleanFile ++ unlines ls) := by
  induction ls generalizing currentLine cleanFile with
  | nil => rw [scanLines, unlines_nil, List.append_nil]
  | cons l ls ih =>
    by_cases hc : currentLine + 1 = line
    · rw [linesAhead_eq_zero hc, List.getElem?_cons_zero] at h
      cases h
    · rw [linesAhead_succ hc, List.getElem?_cons_succ] at h
      rw [scanLines, if_neg hc, ih h, unlines_cons]
      simp only [List.append_assoc, List.singleton_append]

/-! ## The partial file -/

/-- The lines of the buffer before the cursor's, written out. -/
def textBefore (ctx : CompletionContext) : Str :=
  unlines ((lines (unsavedInput ctx)).take (linesAhead ctx.line 0))

/-- The cursor's line, when the buffer has it. -/
def cursorLine? (ctx : CompletionContext) : Option Str :=
  (lines (unsavedInput ctx))[linesAhead ctx.line 0]?

theorem cursorLine?_eq {ctx : CompletionContext} (h : 1 ≤ ctx.line.toNat) :
    cursorLine? ctx = (lines (unsavedInput ctx))[ctx.line.toNat - 1]? := by
  rw [cursorLine?, linesAhead_start h]

theorem textBefore_eq {ctx : CompletionContext} (h : 1 ≤ ctx.line.toNat) :
    textBefore ctx = unlines ((lines (unsavedInput ctx)).take (ctx.line.toNat - 1)) := by
  rw [textBefore, linesAhead_start h]

theorem unsavedInput_ne_nil {ctx : CompletionContext} {someLine : Str}
    (h : cursorLine? ctx = some someLine) : unsavedInput ctx ≠ [] := ne_nil_of_line h

theorem getOffset_found {ctx : CompletionContext} {someLine : Str}
    (h : cursorLine? ctx = some someLine) :
    getOffset ctx = .ok (withOffset (textBefore ctx ++ keptLine someLine ctx.column)) := by
  rw [getOffset_of_ne_nil (unsavedInput_ne_nil h), scanLines_found h]
  rfl

theorem getOffset_missing {ctx : CompletionContext} (hne : unsavedInput ctx ≠ [])
    (h : cursorLine? ctx = none) :
    getOffset ctx = .ok (0, unlines (lines (unsavedInput ctx))) := by
  rw [getOffset_of_ne_nil hne, scanLines_missing h]
  rfl

/-- The partial file is the beginning of the buffer. -/
theorem cleanFile_isPrefix {ctx : CompletionContext} {someLine : Str}
    (h : cursorLine? ctx = some someLine) :
    textBefore ctx ++ keptLine someLine ctx.column <+: unsavedInput ctx := by
  obtain ⟨rest, hrest⟩ := exists_split h
  obtain ⟨beyond, hbeyond⟩ := kept_isPrefix someLine (stop someLine ctx.column.toNat)
  refine ⟨beyond ++ rest, ?_⟩
  calc textBefore ctx ++ keptLine someLine ctx.column ++ (beyond ++ rest)
      = textBefore ctx ++ (keptLine someLine ctx.column ++ beyond) ++ rest := by
        simp only [List.append_assoc]
    _ = textBefore ctx ++ someLine ++ rest := by rw [keptLine, hbeyond]
    _ = unsavedInput ctx := hrest.symm

end Completer
end SSVim
