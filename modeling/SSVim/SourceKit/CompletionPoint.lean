/-
Where a completion request says its completion point is.

`key.offset` is what `GetOffset` wrote to `*offset` and `key.sourcetext` is what a C
string carries of `CleanFile`.  The two agree when the loop met the cursor's line
and nothing cut the text short.  The loop writes the offset only where it returns,
so for a line that the buffer does not have the offset is that of an empty text.
-/
import SSVim.Completer.CleanFile
import SSVim.Completer.Service

namespace SSVim
namespace SourceKit

open Completer

/-- The completion point is the end of the transmitted text, which begins the buffer. -/
def PointAtEnd (request : Request) (buffer : Str) : Prop :=
  request.int64D .offset = (request.stringD .sourceText).length ∧
    request.stringD .sourceText <+: buffer

/-- How much of the cursor's line comes before the completion point: up to the last
separator and with it, or all of it. -/
inductive LineEnd (someLine : Str) (column : UInt32) : Nat → Prop where
  | separator {k : Nat} (h : LastSeparator someLine column.toNat k) :
      LineEnd someLine column ((k + 1) % UInt32.size)
  | line (h : ∀ k, 1 ≤ k → k ≤ column.toNat → ¬ Separator someLine k) :
      LineEnd someLine column someLine.length

/-- The first `n` bytes of the buffer arrive whole and `n` is their offset: they have
no NUL and `n` is an `unsigned`.  When it is not, the offset is `n` reduced, and a NUL
that follows as many bytes puts the end of the text there. -/
def Arrives (buffer : Str) (n : Nat) : Prop :=
  NulFree (buffer.take (n % UInt32.size)) ∧
    (n < UInt32.size ∨ buffer[n % UInt32.size]? = some nul)

/-- With the cursor's line the text before the completion point arrives, and without
it the buffer starts with a NUL, so that nothing does. -/
def PointInBuffer (ctx : CompletionContext) : Prop :=
  (cursorLine? ctx = none → (unsavedInput ctx)[0]? = some nul) ∧
    ∀ someLine, cursorLine? ctx = some someLine → ∀ n, LineEnd someLine ctx.column n →
      Arrives (unsavedInput ctx) ((textBefore ctx).length + n)

theorem keptLine_length {someLine : Str} {column : UInt32} {k : Nat}
    (h : LastSeparator someLine column.toNat k) :
    (keptLine someLine column).length = (k + 1) % UInt32.size := by
  have hlt := h.2.2.1.lt_length
  have hmod : (k + 1) % UInt32.size ≤ k + 1 := Nat.mod_le _ _
  rw [keptLine_of_lastSeparator h, List.length_take]
  omega

theorem lineEnd_iff {someLine : Str} {column : UInt32} {n : Nat} :
    LineEnd someLine column n ↔ n = (keptLine someLine column).length := by
  constructor
  · intro h
    cases h with
    | separator h => rw [keptLine_length h]
    | line h => rw [keptLine_of_no_separator h]
  · intro h
    subst h
    by_cases hsep : ∃ k, 1 ≤ k ∧ k ≤ column.toNat ∧ Separator someLine k
    · obtain ⟨k, hk⟩ := exists_lastSeparator hsep
      rw [keptLine_length hk]
      exact LineEnd.separator hk
    · have hnone : ∀ k, 1 ≤ k → k ≤ column.toNat → ¬ Separator someLine k :=
        fun k h1 hkc hk => hsep ⟨k, h1, hkc, hk⟩
      rw [keptLine_of_no_separator hnone]
      exact LineEnd.line hnone

/-! ## The text a C string carries -/

/-- The offset of a text and what arrives of it agree when its bytes arrive. -/
theorem offset_eq_iff {text buffer : Str} (h : text <+: buffer) :
    (UInt32.ofNat text.length).toNat = (cstr text).length ↔ Arrives buffer text.length := by
  obtain ⟨rest, rfl⟩ := h
  have hle : text.length % UInt32.size ≤ text.length := Nat.mod_le _ _
  have htake : (text ++ rest).take (text.length % UInt32.size) =
      text.take (text.length % UInt32.size) := List.take_append_of_le_length hle
  rw [UInt32.toNat_ofNat', eq_comm]
  show (cstr text).length = text.length % UInt32.size ↔ _
  rw [cstr_length_eq_iff hle, Arrives, htake]
  by_cases hlt : text.length < UInt32.size
  · rw [Nat.mod_eq_of_lt hlt]
    simp [hlt]
  · have hpos : 0 < UInt32.size := by decide
    have hmod : text.length % UInt32.size < text.length :=
      Nat.lt_of_lt_of_le (Nat.mod_lt _ hpos) (Nat.le_of_not_lt hlt)
    rw [List.getElem?_append_left hmod]
    simp [hlt, Nat.ne_of_lt hmod]

/-! ## The request -/

/-- The point of a completion request, read off the partial file it carries. -/
theorem pointAtEnd_iff {ctx : CompletionContext} {offset : UInt32} {cleanFile : Str}
    (h : getOffset ctx = .ok (offset, cleanFile)) (u : RequestUID) :
    (∃ request, completionRequest u ctx = .ok request ∧
        PointAtEnd request (unsavedInput ctx)) ↔
      offset.toNat = (cstr cleanFile).length ∧ cstr cleanFile <+: unsavedInput ctx := by
  have hrequest : completionRequest u ctx = .ok (codeCompleteRequest u ctx.sourceFilename offset
      cleanFile ctx.compilerArgs none) := by
    rw [completionRequest, h]
    rfl
  rw [hrequest]
  constructor
  · intro h
    obtain ⟨request, hok, hpoint⟩ := h
    cases hok
    rw [PointAtEnd, codeCompleteRequest_offset, codeCompleteRequest_sourceText] at hpoint
    exact ⟨Int.ofNat.inj hpoint.1, hpoint.2⟩
  · intro h
    obtain ⟨hoffset, hbegins⟩ := h
    refine ⟨_, rfl, ?_⟩
    rw [PointAtEnd, codeCompleteRequest_offset, codeCompleteRequest_sourceText, hoffset]
    exact ⟨rfl, hbegins⟩

/-- Both completion requests have their point at the end of their text exactly when
the buffer has the cursor's line and the text before the point arrives, or has not
and starts with a NUL. -/
theorem completionPoint_iff (filename : Str) (line column : Int32)
    (unsavedFiles : List UnsavedFile) (flags : List Str)
    (hne : unsavedInput (completionContext filename line column unsavedFiles flags) ≠ []) :
    (∀ u, u = RequestUID.codeCompleteOpen ∨ u = RequestUID.codeCompleteUpdate →
      ∃ request,
        completionRequest u (completionContext filename line column unsavedFiles flags) =
            .ok request ∧
          PointAtEnd request
            (unsavedInput (completionContext filename line column unsavedFiles flags))) ↔
      PointInBuffer (completionContext filename line column unsavedFiles flags) := by
  generalize completionContext filename line column unsavedFiles flags = ctx at hne ⊢
  -- The two requests differ in their uid only.
  have hboth : ∀ {offset : UInt32} {cleanFile : Str}, getOffset ctx = .ok (offset, cleanFile) →
      ((∀ u, u = RequestUID.codeCompleteOpen ∨ u = RequestUID.codeCompleteUpdate →
          ∃ request, completionRequest u ctx = .ok request ∧
            PointAtEnd request (unsavedInput ctx)) ↔
        offset.toNat = (cstr cleanFile).length ∧ cstr cleanFile <+: unsavedInput ctx) := by
    intro offset cleanFile hok
    constructor
    · intro h
      exact (pointAtEnd_iff hok _).mp (h _ (Or.inl rfl))
    · intro h u _
      exact (pointAtEnd_iff hok u).mpr h
  cases hcursor : cursorLine? ctx with
  | none =>
    rw [hboth (getOffset_missing hne hcursor), PointInBuffer, hcursor, ← unlines_lines_head hne]
    constructor
    · intro ⟨hzero, _⟩
      refine ⟨fun _ => ?_, fun someLine hsome => nomatch hsome⟩
      have hend := ((cstr_length_eq_iff (Nat.zero_le _)).mp hzero.symm).2
      rcases hend with hend | hend
      · rw [lines_of_ne_nil hne, unlines_cons, List.length_append, List.length_cons] at hend
        omega
      · exact hend
    · intro ⟨hnul, _⟩
      have hzero : (cstr (unlines (lines (unsavedInput ctx)))).length = 0 :=
        (cstr_length_eq_iff (Nat.zero_le _)).mpr ⟨List.not_mem_nil, Or.inr (hnul rfl)⟩
      rw [List.length_eq_zero_iff.mp hzero]
      exact ⟨rfl, List.nil_prefix⟩
  | some someLine =>
    have hok : getOffset ctx =
        .ok (UInt32.ofNat (textBefore ctx ++ keptLine someLine ctx.column).length,
          textBefore ctx ++ keptLine someLine ctx.column) := getOffset_found hcursor
    have hbegins := cleanFile_isPrefix hcursor
    rw [hboth hok, PointInBuffer, hcursor, offset_eq_iff hbegins, List.length_append]
    constructor
    · intro ⟨harrives, _⟩
      refine ⟨(fun hnone => nomatch hnone), fun someLine' hsome n hn => ?_⟩
      cases hsome
      rw [lineEnd_iff] at hn
      rwa [hn]
    · intro ⟨_, hpoint⟩
      exact ⟨hpoint someLine rfl _ (lineEnd_iff.mpr rfl),
        List.IsPrefix.trans (cstr_isPrefix _) hbegins⟩

/-- The cursor on the line after the last of a buffer of one line, as the test driver
puts it: the text is the whole buffer with a newline more and the offset is 0. -/
theorem pastLastLine_point :
    ¬ ∀ (filename : Str) (line column : Int32) (unsavedFiles : List UnsavedFile)
        (flags : List Str),
      unsavedInput (completionContext filename line column unsavedFiles flags) ≠ [] →
      ∀ u, u = RequestUID.codeCompleteOpen ∨ u = RequestUID.codeCompleteUpdate →
        ∃ request,
          completionRequest u (completionContext filename line column unsavedFiles flags) =
              .ok request ∧
            PointAtEnd request
              (unsavedInput (completionContext filename line column unsavedFiles flags)) := by
  intro h
  obtain ⟨request, hrequest, hoffset, _⟩ :=
    h (lit "a") 2 0 [{ contents := lit "x", fileName := lit "a" }] [] (by decide)
      .codeCompleteOpen (Or.inl rfl)
  have hgo : (completionRequest .codeCompleteOpen (completionContext (lit "a") 2 0
      [{ contents := lit "x", fileName := lit "a" }] [])).toOption.map
        (fun r => (r.int64D .offset, r.stringD .sourceText)) = some (0, lit "x\n") := by
    decide
  rw [hrequest] at hgo
  have hpoint := Option.some.inj hgo
  rw [Prod.mk.injEq] at hpoint
  rw [hpoint.1, hpoint.2] at hoffset
  exact absurd hoffset (by decide)

theorem completionPoint_iff_pastLastLine :
    (∀ u, u = RequestUID.codeCompleteOpen ∨ u = RequestUID.codeCompleteUpdate →
      ∃ request,
        completionRequest u (completionContext (lit "a") 2 0
            [{ contents := lit "x", fileName := lit "a" }] []) = .ok request ∧
          PointAtEnd request (unsavedInput (completionContext (lit "a") 2 0
            [{ contents := lit "x", fileName := lit "a" }] []))) ↔
      PointInBuffer (completionContext (lit "a") 2 0
        [{ contents := lit "x", fileName := lit "a" }] []) :=
  completionPoint_iff (lit "a") 2 0 [{ contents := lit "x", fileName := lit "a" }] [] (by decide)

end SourceKit
end SSVim
