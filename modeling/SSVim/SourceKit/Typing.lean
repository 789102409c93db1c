/-
Completions while an identifier is typed.

The partial file ends at the last separator before the cursor, so it stays the same while
the user types on, and with it the name and the offset of the completion session.  The
first call opens the session for the text up to the separator, and every later one is
answered from it.
-/
import SSVim.Completer.Cursor
import SSVim.SourceKit.CompletionSession

namespace SSVim
namespace SourceKit

open Completer

/-- The place behind a separator in a file: the lines before it, and its own line up to the
separator and with it. -/
structure Anchor where
  filename : Str
  flags : List Str
  before : List Str
  stem : Str
  before_lines : ∀ l ∈ before, newline ∉ l
  stem_line : newline ∉ stem
  stem_length : 2 ≤ stem.length
  stem_separator : Separator stem (stem.length - 1)
  stem_size : stem.length < UInt32.size

namespace Anchor

/-- The buffer up to the anchor. -/
def text (anchor : Anchor) : Str := unlines anchor.before ++ anchor.stem

/-- The request that opens the session of the anchor. -/
def request (anchor : Anchor) : Request :=
  codeCompleteRequest .codeCompleteOpen anchor.filename (UInt32.ofNat anchor.text.length)
    anchor.text (completionContext anchor.filename 0 0 [] anchor.flags).compilerArgs none

/-- The cursor of the call is behind the anchor with no other separator in between. -/
structure Typing (anchor : Anchor) (call : CompletionCall) : Prop where
  filename : call.filename = anchor.filename
  flags : call.flags = anchor.flags
  line : call.line.toUInt32.toNat = anchor.before.length + 1
  column : anchor.stem.length - 1 ≤ call.column.toUInt32.toNat
  buffer : ∃ file after, call.unsavedFiles.find? (fun f => f.fileName = call.filename) = some file ∧
    file.contents = anchor.text ++ after ∧
    ∀ someLine, (lines file.contents)[anchor.before.length]? = some someLine →
      ∀ j, anchor.stem.length - 1 < j → j ≤ call.column.toUInt32.toNat → ¬ Separator someLine j

section
variable {anchor : Anchor} {call : CompletionCall}

theorem Typing.getOffset (h : anchor.Typing call) :
    getOffset call.ctx = .ok (withOffset anchor.text) := by
  obtain ⟨file, after, hfile, hcontents, hnone⟩ := h.buffer
  have hlength := anchor.stem_length
  have hsize := anchor.stem_size
  have hfirst : call.ctx.unsavedFiles.find? (fun f => f.fileName = call.ctx.sourceFilename) =
      some file := hfile
  have hinput : unsavedInput call.ctx = file.contents := by rw [unsavedInput, hfirst]
  have hline : call.ctx.line.toNat = anchor.before.length + 1 := h.line
  have h1 : 1 ≤ call.ctx.line.toNat := by omega
  have htake : anchor.stem.take (anchor.stem.length - 1 + 1) = anchor.stem :=
    List.take_of_length_le (by omega)
  have hsplit : file.contents =
      unlines anchor.before ++ anchor.stem.take (anchor.stem.length - 1 + 1) ++ after := by
    rw [htake, hcontents, text]
  obtain ⟨someLine, hat, hbefore, hkept⟩ := keptLine_of_anchor anchor.before_lines
    anchor.stem_line (by omega) anchor.stem_separator (by omega) hsplit h.column hnone
  have hcursor : cursorLine? call.ctx = some someLine := by
    rw [cursorLine?_eq h1, hinput, hline, Nat.add_sub_cancel, hat]
  rw [getOffset_found hcursor, textBefore_eq h1, hinput, hline, Nat.add_sub_cancel, hbefore]
  show Except.ok (withOffset (_ ++ keptLine someLine call.column.toUInt32)) = _
  rw [hkept, htake, text]

theorem Typing.opening (h : anchor.Typing call) : call.opening = .ok anchor.request := by
  rw [CompletionCall.opening, completionRequest, h.getOffset]
  show Except.ok (codeCompleteRequest .codeCompleteOpen call.filename
    (UInt32.ofNat anchor.text.length) anchor.text call.ctx.compilerArgs none) = _
  rw [request, CompletionContext.compilerArgs, CompletionContext.compilerArgs, h.filename]
  show Except.ok (codeCompleteRequest _ _ _ _
    (if call.flags.length = 0 then defaultOSXArgs else call.flags) none) = _
  rw [h.flags]
  rfl

end

end Anchor

section
variable {anchor : Anchor} {calls : List CompletionCall} {results : Request → Str}

open CompletionSessions

theorem openings_typing (h : ∀ call ∈ calls, anchor.Typing call) :
    ∀ a ∈ openings calls, a = anchor.request := by
  induction calls with
  | nil => exact fun a ha => by cases ha
  | cons call calls ih =>
    obtain ⟨hcall, hcalls⟩ := List.forall_mem_cons.mp h
    rw [openings, hcall.opening]
    exact List.forall_mem_cons.mpr ⟨rfl, ih hcalls⟩

/-- A call is answered from the session that it or an earlier call has opened. -/
theorem history_typing (h : ∀ call ∈ calls, anchor.Typing call) {seen : List Request}
    {s : CompletionSessions} (hs : StoresFirst results seen s)
    (hseen : ∀ a ∈ seen, a = anchor.request) :
    history (send results) calls s =
      calls.map fun _ => (anchor.request, results anchor.request) := by
  induction calls generalizing seen s with
  | nil => rfl
  | cons call calls ih =>
    obtain ⟨hcall, hcalls⟩ := List.forall_mem_cons.mp h
    obtain ⟨updating, hu, huid, huuid, hkey⟩ := opening_updating hcall.opening
    have hopened := send_open_first hs huid
    have hupdated := send_update_first hopened huuid
    have hall : ∀ a ∈ seen ++ [anchor.request], a = anchor.request := by
      rw [List.forall_mem_append]
      exact ⟨hseen, List.forall_mem_singleton.mpr rfl⟩
    have hfind : ((seen ++ [anchor.request]).find? fun a =>
        sessionKey a = sessionKey updating) = some anchor.request := by
      obtain ⟨a, ha⟩ : ∃ a, ((seen ++ [anchor.request]).find? fun a =>
          sessionKey a = sessionKey updating) = some a :=
        Option.isSome_iff_exists.mp (by simp [hkey])
      rw [ha, hall a (List.mem_of_find?_eq_some ha)]
    have hlast : lastResponse (send results) anchor.request updating s =
        some (results anchor.request) := by
      rw [lastResponse, hupdated, hfind]
      rfl
    simp only [history, hcall.opening, candidates_of_opening (send results) s hcall.opening hu,
      hlast, hupdated, Option.getD_some, List.map_cons]
    rw [ih hcalls hopened hall]

end

/-- While an identifier is typed behind a separator, every completion returns what
sourcekitd computes for the text up to the separator, and when requests fail it returns that
or the fallback. -/
theorem typing_results (anchor : Anchor) {calls : List CompletionCall}
    (h : ∀ call ∈ calls, anchor.Typing call) (results : Request → Str) :
    history (CompletionSessions.send results) calls (CompletionSessions.start []) =
        calls.map (fun _ => (anchor.request, results anchor.request)) ∧
      ∀ outages, ∀ e ∈ history (CompletionSessions.send results) calls
          (CompletionSessions.start outages),
        e.2 = results anchor.request ∨ e.2 = emptyCompletions := by
  constructor
  · have hstart : CompletionSessions.StoresFirst results [] (.start []) :=
      ⟨rfl, fun k => AList.lookup_empty k⟩
    exact history_typing h hstart (List.forall_mem_nil _)
  · intro outages e he
    have hstart : CompletionSessions.StoredFrom results [] (.start outages) := by
      intro k r hr
      rw [CompletionSessions.start, AList.lookup_empty] at hr
      cases hr
    by_cases hempty : e.2 = emptyCompletions
    · exact Or.inr hempty
    · obtain ⟨a, ha, -, hr⟩ := (history_stored hstart e he).2 hempty
      rw [List.nil_append] at ha
      exact Or.inl (by rw [hr, openings_typing h a ha])

/-- Behind `x = y.` on the second line. -/
def memberAnchor : Anchor where
  filename := lit "a"
  flags := []
  before := [lit "let x"]
  stem := lit "x = y."
  before_lines := by decide
  stem_line := by decide
  stem_length := by decide
  stem_separator := by decide
  stem_size := by decide

/-- The user types `re` between two calls. -/
def memberCalls : List CompletionCall :=
  [{ filename := lit "a", line := 2, column := 5, flags := []
     unsavedFiles := [{ contents := lit "let x\nx = y.", fileName := lit "a" }] },
   { filename := lit "a", line := 2, column := 7, flags := []
     unsavedFiles := [{ contents := lit "let x\nx = y.re", fileName := lit "a" }] }]

theorem memberCalls_typing : ∀ call ∈ memberCalls, memberAnchor.Typing call := by
  refine List.forall_mem_cons.mpr ⟨?_, List.forall_mem_singleton.mpr ?_⟩
  · refine ⟨rfl, rfl, by decide, by decide, _, [], rfl, by decide,
      fun someLine _ j hj hcolumn => ?_⟩
    have hlast : memberAnchor.stem.length - 1 = 5 := by decide
    have hcursor : j ≤ 5 := hcolumn.trans (by decide)
    omega
  · refine ⟨rfl, rfl, by decide, by decide, _, lit "re", rfl, by decide,
      fun someLine hline j hj hcolumn => ?_⟩
    have hlast : memberAnchor.stem.length - 1 = 5 := by decide
    have hcursor : j ≤ 7 := hcolumn.trans (by decide)
    have hline' : someLine = lit "x = y.re" := by
      have hat : (lines (lit "let x\nx = y.re"))[1]? = some (lit "x = y.re") := by decide
      exact Option.some.inj (hline.symm.trans hat)
    obtain rfl | rfl : j = 6 ∨ j = 7 := by omega
    · rw [hline']
      decide
    · rw [hline']
      decide

theorem memberCalls_results :
    history (CompletionSessions.send fun request => request.stringD .sourceText) memberCalls
        (CompletionSessions.start []) =
      [(memberAnchor.request, lit "let x\nx = y."), (memberAnchor.request, lit "let x\nx = y.")] :=
  (typing_results memberAnchor memberCalls_typing fun request => request.stringD .sourceText).1

end SourceKit
end SSVim
