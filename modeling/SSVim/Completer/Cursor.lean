/-
What the partial file of `GetOffset` says about the cursor.

With a separator before the cursor on its line the partial file ends with the
last one, and neither what is typed after it nor what is below moves it.  With
none the whole line is taken, so the text beyond the cursor is part of it.
-/
import SSVim.Completer.CleanFile

namespace SSVim
namespace Completer

/-! ## The anchor -/

/-- A buffer that starts as another one's anchor, with no separator from there to
its own column, has the same line before it and keeps the same part of it. -/
theorem keptLine_of_anchor {before : List Str} {someLine after contents : Str}
    {column : UInt32} {k : Nat} (hbefore : ∀ l ∈ before, newline ∉ l)
    (hline : newline ∉ someLine) (h1 : 1 ≤ k) (hk : Separator someLine k)
    (hsize : k + 1 < UInt32.size)
    (hcontents : contents = unlines before ++ someLine.take (k + 1) ++ after)
    (hcolumn : k ≤ column.toNat)
    (hnone : ∀ someLine', (lines contents)[before.length]? = some someLine' →
      ∀ j, k < j → j ≤ column.toNat → ¬ Separator someLine' j) :
    ∃ someLine', (lines contents)[before.length]? = some someLine' ∧
      (lines contents).take before.length = before ∧
      keptLine someLine' column = someLine.take (k + 1) := by
  have hlen : (someLine.take (k + 1)).length = k + 1 := by
    rw [List.length_take]
    have := hk.lt_length
    omega
  have hfree : newline ∉ someLine.take (k + 1) := fun hmem => hline (List.mem_of_mem_take hmem)
  have hne : someLine.take (k + 1) ++ after ≠ [] := by
    intro hnil
    have hzero := congrArg List.length (List.append_eq_nil_iff.mp hnil).1
    rw [hlen, List.length_nil] at hzero
    omega
  rw [List.append_assoc] at hcontents
  have hat : (lines contents)[before.length]? =
      some (someLine.take (k + 1) ++ after.takeWhile (· ≠ newline)) := by
    rw [hcontents, lines_unlines_getElem? hbefore hne,
      List.takeWhile_append_of_pos (ne_newline_of_not_mem hfree)]
  have htake : (someLine.take (k + 1) ++ after.takeWhile (· ≠ newline)).take (k + 1) =
      someLine.take (k + 1) := List.take_left' hlen
  refine ⟨_, hat, ?_, ?_⟩
  · rw [hcontents, lines_unlines_take hbefore]
  · have hlast : LastSeparator (someLine.take (k + 1) ++ after.takeWhile (· ≠ newline))
        column.toNat k :=
      ⟨h1, hcolumn, (separator_congr (Nat.lt_succ_self k) htake).mpr hk, hnone _ hat⟩
    rw [keptLine_of_lastSeparator hlast, Nat.mod_eq_of_lt hsize, htake]

/-- The completion anchor.  On a line of the buffer the function returns a
beginning of it with its length, and where a separator is at or before the column
that beginning ends with the last one.  It is the same for every buffer that
starts with it and every later column, as long as no separator comes between. -/
theorem completion_anchor {ctx : CompletionContext} {file : UnsavedFile}
    (hfile : ctx.unsavedFiles.find? (fun f => f.fileName = ctx.sourceFilename) = some file)
    (h1 : 1 ≤ ctx.line.toNat) (hline : ctx.line.toNat ≤ (lines file.contents).length) :
    ∃ offset cleanFile, getOffset ctx = .ok (offset, cleanFile) ∧
      cleanFile <+: file.contents ∧
      (file.contents.length < UInt32.size →
        offset.toNat = cleanFile.length ∧
        ∀ someLine k, (lines file.contents)[ctx.line.toNat - 1]? = some someLine →
          LastSeparator someLine ctx.column.toNat k →
          cleanFile = unlines ((lines file.contents).take (ctx.line.toNat - 1)) ++
            someLine.take (k + 1) ∧
          ∀ (ctx' : CompletionContext) (file' : UnsavedFile) (after : Str),
            ctx'.line = ctx.line →
            ctx'.unsavedFiles.find? (fun f => f.fileName = ctx'.sourceFilename) = some file' →
            file'.contents = cleanFile ++ after →
            k ≤ ctx'.column.toNat →
            (∀ someLine', (lines file'.contents)[ctx.line.toNat - 1]? = some someLine' →
              ∀ j, k < j → j ≤ ctx'.column.toNat → ¬ Separator someLine' j) →
            getOffset ctx' = .ok (offset, cleanFile)) := by
  have hinput : unsavedInput ctx = file.contents := by rw [unsavedInput, hfile]
  have hlt : ctx.line.toNat - 1 < (lines file.contents).length := by omega
  obtain ⟨someLine, hsome⟩ : ∃ l, (lines file.contents)[ctx.line.toNat - 1]? = some l :=
    ⟨_, List.getElem?_eq_getElem hlt⟩
  have hcursor : cursorLine? ctx = some someLine := by rw [cursorLine?_eq h1, hinput, hsome]
  have hprefix := cleanFile_isPrefix hcursor
  rw [hinput] at hprefix
  refine ⟨_, _, getOffset_found hcursor, hprefix, fun hsize => ⟨?_, ?_⟩⟩
  · have hle := hprefix.length_le
    rw [UInt32.toNat_ofNat']
    exact Nat.mod_eq_of_lt (Nat.lt_of_le_of_lt hle hsize)
  intro l k hl hk
  obtain rfl : someLine = l := Option.some.inj (hsome.symm.trans hl)
  have hmem : ∀ l ∈ (lines file.contents).take (ctx.line.toNat - 1), newline ∉ l :=
    fun l hl => not_mem_of_mem_lines (List.mem_of_mem_take hl)
  have hfree : newline ∉ someLine := not_mem_of_mem_lines (List.mem_of_getElem? hsome)
  -- `i + 1` does not wrap, because the line is shorter than the buffer.
  have hk32 : k + 1 < UInt32.size := by
    have hlen := hk.2.2.1.lt_length
    obtain ⟨rest, hrest⟩ := exists_split hsome
    have htotal := congrArg List.length hrest
    rw [List.length_append, List.length_append] at htotal
    omega
  have hkept : keptLine someLine ctx.column = someLine.take (k + 1) := by
    rw [keptLine_of_lastSeparator hk, Nat.mod_eq_of_lt hk32]
  have hclean : textBefore ctx ++ keptLine someLine ctx.column =
      unlines ((lines file.contents).take (ctx.line.toNat - 1)) ++ someLine.take (k + 1) := by
    rw [textBefore_eq h1, hinput, hkept]
  refine ⟨hclean, ?_⟩
  intro ctx' file' after hline' hfile' hcontents' hcolumn' hnone'
  have hinput' : unsavedInput ctx' = file'.contents := by rw [unsavedInput, hfile']
  have h1' : 1 ≤ ctx'.line.toNat := by rwa [hline']
  have hlen : ((lines file.contents).take (ctx.line.toNat - 1)).length = ctx.line.toNat - 1 := by
    rw [List.length_take]
    omega
  rw [hclean] at hcontents'
  rw [← hlen] at hnone'
  obtain ⟨someLine', hat, hbefore, hkept'⟩ := keptLine_of_anchor hmem hfree hk.1 hk.2.2.1 hk32
    hcontents' hcolumn' hnone'
  rw [hlen, ← hline', ← hinput'] at hat
  rw [hlen, ← hline', ← hinput'] at hbefore
  rw [← cursorLine?_eq h1'] at hat
  rw [getOffset_found hat, textBefore_eq h1', hbefore, hkept', hline', ← hclean]
  rfl

/-- A buffer of three lines with the cursor behind `.r` on the second. -/
def anchorContext : CompletionContext :=
  { sourceFilename := lit "a", line := 2, column := 7, flags := []
    unsavedFiles := [{ contents := lit "let x\nx = y.re + z\nz", fileName := lit "a" }] }

theorem completion_anchor_dot :
    ∃ offset cleanFile, getOffset anchorContext = .ok (offset, cleanFile) ∧
      cleanFile = lit "let x\nx = y." := by
  obtain ⟨offset, cleanFile, hok, _, hrest⟩ := completion_anchor
    (show anchorContext.unsavedFiles.find? (fun f => f.fileName = anchorContext.sourceFilename) =
      some { contents := lit "let x\nx = y.re + z\nz", fileName := lit "a" } by decide)
    (by decide) (by decide)
  have hlast : LastSeparator (lit "x = y.re + z") anchorContext.column.toNat 5 := by
    refine ⟨by decide, by decide, by decide, fun j hkj hjc => ?_⟩
    have hj : j = 6 ∨ j = 7 := by
      have hc : anchorContext.column.toNat = 7 := rfl
      omega
    rcases hj with rfl | rfl
    · decide
    · decide
  exact ⟨offset, cleanFile, hok, ((hrest (by decide)).2 _ 5 (by decide) hlast).1⟩

/-! ## Text beyond the cursor -/

/-- Two contexts with the cursor in one place whose buffers agree on the lines
before the cursor's and on that line up to the column and with it. -/
def SameUpToCursor (ctx ctx' : CompletionContext) : Prop :=
  ctx'.line = ctx.line ∧ ctx'.column = ctx.column ∧
    (lines (unsavedInput ctx')).take (ctx.line.toNat - 1) =
      (lines (unsavedInput ctx)).take (ctx.line.toNat - 1) ∧
    ∃ someLine someLine', (lines (unsavedInput ctx))[ctx.line.toNat - 1]? = some someLine ∧
      (lines (unsavedInput ctx'))[ctx.line.toNat - 1]? = some someLine' ∧
      someLine'.take (ctx.column.toNat + 1) = someLine.take (ctx.column.toNat + 1)

/-- The partial file and its offset stay at or before the cursor, and depend on
nothing beyond it. -/
def WithinCursor (ctx : CompletionContext) (someLine : Str) : Prop :=
  (∃ offset cleanFile, getOffset ctx = .ok (offset, cleanFile) ∧
    cleanFile.length ≤ (unlines ((lines (unsavedInput ctx)).take (ctx.line.toNat - 1))).length +
      min (ctx.column.toNat + 1) someLine.length ∧
    offset.toNat ≤ (unlines ((lines (unsavedInput ctx)).take (ctx.line.toNat - 1))).length +
      min (ctx.column.toNat + 1) someLine.length) ∧
  ∀ ctx', SameUpToCursor ctx ctx' → getOffset ctx' = getOffset ctx

/-- With a separator at or before the column, or a line that the column is beyond,
what is kept of the line is settled before the cursor. -/
theorem keptLine_congr {someLine someLine' : Str} {column : UInt32}
    (h : (∃ k, 1 ≤ k ∧ k ≤ column.toNat ∧ Separator someLine k) ∨
      someLine.length ≤ column.toNat)
    (hagree : someLine'.take (column.toNat + 1) = someLine.take (column.toNat + 1)) :
    keptLine someLine' column = keptLine someLine column := by
  rcases h with hsep | hshort
  · obtain ⟨k, h1, hkc, hk, hlast⟩ := exists_lastSeparator hsep
    have hlast' : LastSeparator someLine' column.toNat k := by
      refine ⟨h1, hkc, (separator_congr (by omega) hagree).mpr hk, fun j hkj hjc hj => ?_⟩
      exact hlast j hkj hjc ((separator_congr (by omega) hagree).mp hj)
    rw [keptLine_of_lastSeparator hlast', keptLine_of_lastSeparator ⟨h1, hkc, hk, hlast⟩]
    have hmod : (k + 1) % UInt32.size ≤ column.toNat + 1 :=
      Nat.le_trans (Nat.mod_le _ _) (by omega)
    have htake := congrArg (List.take ((k + 1) % UInt32.size)) hagree
    rwa [List.take_take, List.take_take, Nat.min_eq_left hmod] at htake
  · -- The two lines are as long as each other, so they agree to their end.
    have hlen := congrArg List.length hagree
    rw [List.length_take, List.length_take] at hlen
    rw [List.take_of_length_le (by omega), List.take_of_length_le (by omega)] at hagree
    rw [hagree]

theorem keptLine_length_le {someLine : Str} {column : UInt32}
    (h : (∃ k, 1 ≤ k ∧ k ≤ column.toNat ∧ Separator someLine k) ∨
      someLine.length ≤ column.toNat) :
    (keptLine someLine column).length ≤ min (column.toNat + 1) someLine.length := by
  have hle : (keptLine someLine column).length ≤ someLine.length := (kept_isPrefix _ _).length_le
  rcases h with hsep | hshort
  · obtain ⟨k, hk⟩ := exists_lastSeparator hsep
    have hkc := hk.2.1
    rw [keptLine_of_lastSeparator hk, List.length_take] at hle ⊢
    have hmod : (k + 1) % UInt32.size ≤ k + 1 := Nat.mod_le _ _
    omega
  · omega

/-- The context with the cursor's line one character longer and last. -/
def longerLine (ctx : CompletionContext) (someLine : Str) : CompletionContext :=
  { ctx with unsavedFiles :=
    [{ contents := unlines ((lines (unsavedInput ctx)).take (ctx.line.toNat - 1)) ++
        (someLine ++ [nul]), fileName := ctx.sourceFilename }] }

theorem longerLine_spec {ctx : CompletionContext} {someLine : Str}
    (hline : (lines (unsavedInput ctx))[ctx.line.toNat - 1]? = some someLine) :
    (lines (unsavedInput (longerLine ctx someLine))).take (ctx.line.toNat - 1) =
        (lines (unsavedInput ctx)).take (ctx.line.toNat - 1) ∧
      (lines (unsavedInput (longerLine ctx someLine)))[ctx.line.toNat - 1]? =
        some (someLine ++ [nul]) := by
  have hbefore : ∀ l ∈ (lines (unsavedInput ctx)).take (ctx.line.toNat - 1), newline ∉ l :=
    fun l hl => not_mem_of_mem_lines (List.mem_of_mem_take hl)
  have hfree : newline ∉ someLine ++ [nul] := by
    rw [List.mem_append, not_or]
    exact ⟨not_mem_of_mem_lines (List.mem_of_getElem? hline), by decide⟩
  have hinput : unsavedInput (longerLine ctx someLine) =
      unlines ((lines (unsavedInput ctx)).take (ctx.line.toNat - 1)) ++ (someLine ++ [nul]) :=
    unsavedInput_singleton rfl
  have hlen : ((lines (unsavedInput ctx)).take (ctx.line.toNat - 1)).length =
      ctx.line.toNat - 1 := by
    have hlt := (List.getElem?_eq_some_iff.mp hline).1
    rw [List.length_take]
    omega
  have htake := lines_unlines_take hbefore (someLine ++ [nul])
  have hget := lines_unlines_getElem? hbefore (List.append_ne_nil_of_right_ne_nil someLine
    (List.cons_ne_nil nul []))
  rw [hlen] at htake hget
  rw [hinput]
  refine ⟨htake, ?_⟩
  rw [hget, List.takeWhile_eq_self_iff.mpr (ne_newline_of_not_mem hfree)]

/-- The partial file stays within the cursor exactly when a separator is at an
index from 1 to the column, or the column is beyond the line. -/
theorem withinCursor_iff {ctx : CompletionContext} {someLine : Str} (h1 : 1 ≤ ctx.line.toNat)
    (hline : (lines (unsavedInput ctx))[ctx.line.toNat - 1]? = some someLine) :
    WithinCursor ctx someLine ↔
      (∃ k, 1 ≤ k ∧ k ≤ ctx.column.toNat ∧ Separator someLine k) ∨
        someLine.length ≤ ctx.column.toNat := by
  have hcursor : cursorLine? ctx = some someLine := by rw [cursorLine?_eq h1, hline]
  constructor
  · intro ⟨_, hsame⟩
    by_contra hnot
    rw [not_or, Nat.not_le] at hnot
    obtain ⟨hnone, hlong⟩ := hnot
    -- One more character at the end of the line is beyond the column and is kept.
    obtain ⟨htake, hget⟩ := longerLine_spec hline
    have hagree : (someLine ++ [nul]).take (ctx.column.toNat + 1) =
        someLine.take (ctx.column.toNat + 1) := List.take_append_of_le_length (by omega)
    have hgo := hsame (longerLine ctx someLine)
      ⟨rfl, rfl, htake, someLine, someLine ++ [nul], hline, hget, hagree⟩
    have hnosep : ∀ k, 1 ≤ k → k ≤ ctx.column.toNat → ¬ Separator someLine k :=
      fun k hk1 hkc hk => hnone ⟨k, hk1, hkc, hk⟩
    have hnosep' : ∀ k, 1 ≤ k → k ≤ ctx.column.toNat → ¬ Separator (someLine ++ [nul]) k :=
      fun k hk1 hkc hk => hnosep k hk1 hkc ((separator_congr (by omega) hagree).mp hk)
    have h1' : 1 ≤ (longerLine ctx someLine).line.toNat := h1
    have hcursor' : cursorLine? (longerLine ctx someLine) = some (someLine ++ [nul]) :=
      (cursorLine?_eq h1').trans hget
    have hbefore : textBefore (longerLine ctx someLine) = textBefore ctx := by
      rw [textBefore_eq h1, textBefore_eq h1']
      exact congrArg unlines htake
    rw [getOffset_found hcursor, getOffset_found hcursor', keptLine_of_no_separator hnosep,
      hbefore] at hgo
    have hkept : keptLine (someLine ++ [nul]) (longerLine ctx someLine).column =
        someLine ++ [nul] := keptLine_of_no_separator hnosep'
    rw [hkept] at hgo
    have hfile := congrArg (fun r => r.toOption.map fun p => p.2.length) hgo
    simp [withOffset, Except.toOption] at hfile
  · intro h
    have hlen := keptLine_length_le h
    have hbound : (textBefore ctx ++ keptLine someLine ctx.column).length ≤
        (unlines ((lines (unsavedInput ctx)).take (ctx.line.toNat - 1))).length +
          min (ctx.column.toNat + 1) someLine.length := by
      rw [List.length_append, textBefore_eq h1]
      omega
    refine ⟨⟨_, _, getOffset_found hcursor, hbound, ?_⟩, ?_⟩
    · rw [UInt32.toNat_ofNat']
      exact Nat.le_trans (Nat.mod_le _ _) hbound
    · intro ctx' ⟨hl, hc, hbefore, l, l', hat, hat', hagree⟩
      obtain rfl : someLine = l := Option.some.inj (hline.symm.trans hat)
      have h1' : 1 ≤ ctx'.line.toNat := by rwa [hl]
      rw [← hl] at hat' hbefore
      rw [← cursorLine?_eq h1'] at hat'
      rw [getOffset_found hat', getOffset_found hcursor, textBefore_eq h1', hbefore, hl,
        ← textBefore_eq h1, hc, keptLine_congr h hagree]

/-- The cursor on the first of two letters: the partial file has both. -/
def firstLetter : CompletionContext :=
  { sourceFilename := lit "a", line := 1, column := 0, flags := []
    unsavedFiles := [{ contents := lit "ab", fileName := lit "a" }] }

theorem firstLetter_beyond_cursor :
    ¬ ∀ (ctx : CompletionContext) (someLine : Str), 1 ≤ ctx.line.toNat →
      (lines (unsavedInput ctx))[ctx.line.toNat - 1]? = some someLine →
      WithinCursor ctx someLine := by
  intro h
  obtain ⟨⟨offset, cleanFile, hok, hle, _⟩, _⟩ :=
    h firstLetter (lit "ab") (by decide) (by decide)
  have hgo : getOffset firstLetter = .ok (2, lit "ab") := by decide
  rw [hgo, Except.ok.injEq, Prod.mk.injEq] at hok
  rw [← hok.2] at hle
  exact absurd hle (by decide)

theorem withinCursor_iff_firstLetter :
    WithinCursor firstLetter (lit "ab") ↔
      (∃ k, 1 ≤ k ∧ k ≤ firstLetter.column.toNat ∧ Separator (lit "ab") k) ∨
        (lit "ab").length ≤ firstLetter.column.toNat :=
  withinCursor_iff (by decide) (by decide)

end Completer
end SSVim
