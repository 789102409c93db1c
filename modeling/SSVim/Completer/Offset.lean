/-
`GetOffset`: the partial file and the byte offset a completion request carries.

The buffer of the source file is cut at the cursor.  Lines before the cursor's
are kept with their newline.  On the cursor's line the scan runs backward from
the column to a space, a dot or index 0, and the line is kept up to there.  The
scan is over a `Nat` counter, which is the `unsigned` loop variable: it stops at
0 and so never wraps.

What this file proves is which faults the function has.  Every index is in
range for every buffer, line and column, and the assertion is the one fault.
-/
import SSVim.Completer.Context

namespace SSVim
namespace Completer

/-- The contents of the first unsaved file with the name, and the empty string
when there is none. -/
def unsavedInput (ctx : CompletionContext) : Str :=
  match ctx.unsavedFiles.find? fun f => f.fileName = ctx.sourceFilename with
  | some f => f.contents
  | none => []

/-- The character at `i`, or NUL beyond the end of the line. -/
def someChar (someLine : Str) (i : Nat) : Except Fault UInt8 :=
  if i < someLine.length then charAt someLine i else .ok nul

/-- The part of the cursor's line that is kept when the scan stops at `i`.
`i + 1` is computed in `unsigned`. -/
def partialLine (someLine : Str) : Nat → Except Fault Str
  | 0 => .ok someLine
  | i + 1 =>
    if i + 1 < someLine.length then substr someLine 0 ((i + 1 + 1) % UInt32.size) else .ok []

/-- Enumerate from the column to an interesting point. -/
def scanBack (someLine : Str) : Nat → Except Fault Str
  | 0 => do
    let _ ← someChar someLine 0
    partialLine someLine 0
  | i + 1 => do
    let c ← someChar someLine (i + 1)
    if c = space ∨ c = dot then partialLine someLine (i + 1) else scanBack someLine i

/-- The loop over the lines, from `currentLine` and what `CleanFile` holds.
Leaving it without meeting the cursor's line leaves the offset at 0. -/
def scanLines (line column : UInt32) : List Str → UInt32 → Str → Except Fault (UInt32 × Str)
  | [], _, cleanFile => .ok (0, cleanFile)
  | someLine :: rest, currentLine, cleanFile =>
    if currentLine + 1 = line then do
      let kept ← scanBack someLine column.toNat
      let cleanFile := cleanFile ++ kept
      return (UInt32.ofNat cleanFile.length, cleanFile)
    else scanLines line column rest (currentLine + 1) (cleanFile ++ someLine ++ [newline])

/-- Get a clean file and offset for completion.  Both callers pass offset 0 and
an empty file in. -/
def getOffset (ctx : CompletionContext) : Except Fault (UInt32 × Str) :=
  if (unsavedInput ctx).length = 0 then .error (.assertion "Missing unsaved file")
  else scanLines ctx.line ctx.column (lines (unsavedInput ctx)) 0 []

/-! ## Faults -/

/-- The character the scan looks at, as a value. -/
def lookAt (someLine : Str) (i : Nat) : UInt8 := (someLine[i]?).getD nul

theorem someChar_eq (someLine : Str) (i : Nat) :
    someChar someLine i = .ok (lookAt someLine i) := by
  by_cases h : i < someLine.length
  · rw [someChar, if_pos h, charAt_of_lt h, lookAt, List.getElem?_eq_getElem h, Option.getD_some]
  · rw [someChar, if_neg h, lookAt, List.getElem?_eq_none (by omega), Option.getD_none]

/-- What is kept of the line, as a value. -/
def kept (someLine : Str) : Nat → Str
  | 0 => someLine
  | i + 1 => if i + 1 < someLine.length then someLine.take ((i + 1 + 1) % UInt32.size) else []

theorem partialLine_eq (someLine : Str) (i : Nat) :
    partialLine someLine i = .ok (kept someLine i) := by
  cases i with
  | zero => rfl
  | succ i =>
    by_cases h : i + 1 < someLine.length
    · rw [partialLine, if_pos h, substr_zero, kept, if_pos h]
    · rw [partialLine, if_neg h, kept, if_neg h]

/-- Where the backward scan stops. -/
def stop (someLine : Str) : Nat → Nat
  | 0 => 0
  | i + 1 =>
    if lookAt someLine (i + 1) = space ∨ lookAt someLine (i + 1) = dot then i + 1
    else stop someLine i

/-- The scan reads no character out of range, whatever the column. -/
theorem scanBack_eq (someLine : Str) (i : Nat) :
    scanBack someLine i = .ok (kept someLine (stop someLine i)) := by
  induction i with
  | zero =>
    rw [scanBack, someChar_eq]
    exact partialLine_eq someLine 0
  | succ i ih =>
    rw [scanBack, someChar_eq, stop]
    show (if _ then _ else _) = _
    by_cases h : lookAt someLine (i + 1) = space ∨ lookAt someLine (i + 1) = dot
    · rw [if_pos h, if_pos h, partialLine_eq]
    · rw [if_neg h, if_neg h, ih]

theorem scanLines_ok (line column : UInt32) (ls : List Str) (currentLine : UInt32)
    (cleanFile : Str) : ∃ result, scanLines line column ls currentLine cleanFile = .ok result := by
  induction ls generalizing currentLine cleanFile with
  | nil => exact ⟨_, rfl⟩
  | cons someLine rest ih =>
    by_cases h : currentLine + 1 = line
    · rw [scanLines, if_pos h, scanBack_eq]
      exact ⟨_, rfl⟩
    · rw [scanLines, if_neg h]
      exact ih _ _

theorem getOffset_of_ne_nil {ctx : CompletionContext} (h : unsavedInput ctx ≠ []) :
    getOffset ctx = scanLines ctx.line ctx.column (lines (unsavedInput ctx)) 0 [] := by
  have hlen : ¬ (unsavedInput ctx).length = 0 := by
    rwa [List.length_eq_zero_iff]
  rw [getOffset, if_neg hlen]

theorem getOffset_ok {ctx : CompletionContext} (h : unsavedInput ctx ≠ []) :
    ∃ result, getOffset ctx = .ok result := by
  rw [getOffset_of_ne_nil h]
  exact scanLines_ok _ _ _ _ _

theorem getOffset_empty {ctx : CompletionContext} (h : unsavedInput ctx = []) :
    getOffset ctx = .error (.assertion "Missing unsaved file") := by
  rw [getOffset, h]
  rfl

/-- The endpoints pass one unsaved file, named as the source file, so the lookup
finds it and yields its contents. -/
theorem unsavedInput_singleton {ctx : CompletionContext} {contents : Str}
    (h : ctx.unsavedFiles = [{ contents := contents, fileName := ctx.sourceFilename }]) :
    unsavedInput ctx = contents := by
  rw [unsavedInput, h]
  simp

end Completer
end SSVim
