/-
The program that completion and diagnostics ask sourcekitd about.

Both calls are given one file name, one list of buffers and one list of flags.
Completion puts the default arguments in for an empty list and diagnostics does so
after dropping the file name, so they differ when the file name is all there is.
Completion looks its buffer up by name and diagnostics takes the first.
-/
import SSVim.Completer.Service

namespace SSVim
namespace Completer

open SourceKit

/-- The compiler arguments of a request other than the file name. -/
def argumentsBut (name : Str) (request : Request) : Option (List Str) :=
  match request.get? .compilerArgs with
  | some (.array items) => some (items.filter fun arg => arg ≠ cstr name)
  | _ => none

/-- The flags that were given, or the default arguments for none, other than the
file name. -/
def givenArguments (name : Str) (flags : List Str) : List Str :=
  ((if flags = [] then defaultOSXArgs else flags).map cstr).filter fun arg => arg ≠ cstr name

/-- A completion and a diagnostics request are about one program: besides the file
name both carry the given arguments in order, and the text of the second is the
contents of an entry whose contents the first is cut from. -/
def SameProgram (filename : Str) (line column : Int32) (unsavedFiles : List UnsavedFile)
    (flags : List Str) (u v : RequestUID) : Prop :=
  ∃ completion diagnostics,
    completionRequest u (completionContext filename line column unsavedFiles flags) =
        .ok completion ∧
      editorRequest v (diagnosticsContext filename unsavedFiles flags) = .ok diagnostics ∧
      argumentsBut filename completion = some (givenArguments filename flags) ∧
      argumentsBut filename diagnostics = some (givenArguments filename flags) ∧
      ∃ file ∈ unsavedFiles,
        unsavedInput (completionContext filename line column unsavedFiles flags) =
            file.contents ∧
          diagnostics.stringD .sourceText = cstr file.contents

/-- The flags are not the file name alone, however often, and the first entry with the
file name has contents, of which a C string carries what it carries of the first
entry's. -/
def OneProgram (filename : Str) (unsavedFiles : List UnsavedFile) (flags : List Str) : Prop :=
  (flags = [] ∨ ∃ f ∈ flags, f ≠ filename) ∧
    ∃ first file, unsavedFiles[0]? = some first ∧
      unsavedFiles.find? (fun f => f.fileName = filename) = some file ∧
      file.contents ≠ [] ∧ cstr first.contents = cstr file.contents

/-! ## Arguments -/

/-- Dropping the file name before the arguments become C strings drops nothing that
is left after it is dropped from those. -/
theorem diagnosticFlags_filter (filename : Str) (flags : List Str) :
    ((diagnosticFlagsFromFlags filename flags).map cstr).filter (fun arg => arg ≠ cstr filename) =
      (flags.map cstr).filter fun arg => arg ≠ cstr filename := by
  induction flags with
  | nil => rfl
  | cons f flags ih =>
    rw [diagnosticFlagsFromFlags] at ih ⊢
    by_cases hf : f = filename
    · subst hf
      simpa using ih
    · rw [List.filter_cons_of_pos (by simpa using hf), List.map_cons, List.map_cons,
        List.filter_cons, List.filter_cons, ih]

theorem argumentsBut_array {name : Str} {request : Request} {args : List Str}
    (h : request.get? .compilerArgs = some (argumentArray name args)) :
    argumentsBut name request =
      some ((args.map cstr).filter fun arg => arg ≠ cstr name) := by
  rw [argumentsBut, h]
  simp [argumentArray]

/-- Some default argument is left whatever the file name. -/
theorem defaultArguments_ne_nil (name : Str) :
    (defaultOSXArgs.map cstr).filter (fun arg => arg ≠ name) ≠ [] := by
  intro hnil
  rw [List.filter_eq_nil_iff] at hnil
  have hsdk := hnil (lit "-sdk") (by decide)
  have htarget := hnil (lit "-target") (by decide)
  rw [decide_eq_true_eq, ne_eq, not_not] at hsdk htarget
  exact absurd (hsdk.trans htarget.symm) (by decide)

theorem diagnosticFlags_eq_nil {filename : Str} {flags : List Str} :
    diagnosticFlagsFromFlags filename flags = [] ↔ ∀ f ∈ flags, f = filename := by
  rw [diagnosticFlagsFromFlags, List.filter_eq_nil_iff]
  simp

theorem completion_arguments (filename : Str) (line column : Int32)
    (unsavedFiles : List UnsavedFile) (flags : List Str) :
    ((completionContext filename line column unsavedFiles flags).compilerArgs.map cstr).filter
        (fun arg => arg ≠ cstr filename) =
      givenArguments filename flags := by
  rw [givenArguments, CompletionContext.compilerArgs]
  simp only [completionContext, List.length_eq_zero_iff]

/-- Diagnostics carries the given arguments unless every flag is the file name. -/
theorem diagnostics_arguments (filename : Str) (unsavedFiles : List UnsavedFile)
    (flags : List Str) :
    ((diagnosticsContext filename unsavedFiles flags).compilerArgs.map cstr).filter
        (fun arg => arg ≠ cstr filename) =
      givenArguments filename flags ↔ flags = [] ∨ ∃ f ∈ flags, f ≠ filename := by
  rw [givenArguments, CompletionContext.compilerArgs]
  simp only [diagnosticsContext, List.length_eq_zero_iff, diagnosticFlags_eq_nil]
  by_cases hflags : flags = []
  · subst hflags
    simp
  · by_cases hall : ∀ f ∈ flags, f = filename
    · -- Diagnostics has no flag left and takes the default arguments.
      have hnil : (flags.map cstr).filter (fun arg => arg ≠ cstr filename) = [] := by
        rw [List.filter_eq_nil_iff]
        intro arg harg
        obtain ⟨f, hf, rfl⟩ := List.mem_map.mp harg
        simp [hall f hf]
      rw [if_pos hall, if_neg hflags, hnil]
      constructor
      · intro h
        exact absurd h (defaultArguments_ne_nil _)
      · intro h
        rcases h with h | ⟨f, hf, hne⟩
        · exact absurd h hflags
        · exact absurd (hall f hf) hne
    · rw [if_neg hall, if_neg hflags, diagnosticFlags_filter]
      simp only [true_iff]
      right
      by_contra hnone
      exact hall fun f hf => by_contra fun hne => hnone ⟨f, hf, hne⟩

/-! ## The two calls -/

theorem completionRequest_args {ctx : CompletionContext} {u : RequestUID} {request : Request}
    (h : completionRequest u ctx = .ok request) :
    request.get? .compilerArgs =
      some (argumentArray ctx.sourceFilename ctx.compilerArgs) := by
  obtain ⟨⟨offset, cleanFile⟩, _, hr⟩ := bind_eq_ok h
  cases hr
  exact codeCompleteRequest_compilerArgs ..

theorem completionRequest_ok_iff {ctx : CompletionContext} {u : RequestUID} :
    (∃ request, completionRequest u ctx = .ok request) ↔ unsavedInput ctx ≠ [] := by
  constructor
  · intro ⟨request, hr⟩ hnil
    rw [completionRequest_empty hnil] at hr
    cases hr
  · intro hne
    exact completionRequest_ok hne u

/-- Completion and diagnostics are about one program exactly when not every flag is the
file name and the first entry's contents are those of the first with the file name. -/
theorem sameProgram_iff (filename : Str) (line column : Int32)
    (unsavedFiles : List UnsavedFile) (flags : List Str)
    (hfile : ∃ f ∈ unsavedFiles, f.fileName = filename ∧ f.contents ≠ []) :
    (∀ u v, u = RequestUID.codeCompleteOpen ∨ u = RequestUID.codeCompleteUpdate →
      v = RequestUID.editorOpen ∨ v = RequestUID.editorReplaceText →
      SameProgram filename line column unsavedFiles flags u v) ↔
      OneProgram filename unsavedFiles flags := by
  obtain ⟨f, hf, hname, _⟩ := hfile
  obtain ⟨first, hfirst⟩ : ∃ first, unsavedFiles[0]? = some first :=
    ⟨_, List.getElem?_eq_getElem (List.length_pos_of_mem hf)⟩
  obtain ⟨file, hfind⟩ : ∃ file, unsavedFiles.find? (fun f => f.fileName = filename) =
      some file := by
    cases hfind : unsavedFiles.find? (fun f => f.fileName = filename) with
    | some file => exact ⟨file, rfl⟩
    | none => exact absurd hname (by simpa using List.find?_eq_none.mp hfind f hf)
  have hinput : unsavedInput (completionContext filename line column unsavedFiles flags) =
      file.contents := by
    have hfind' : (completionContext filename line column unsavedFiles flags).unsavedFiles.find?
        (fun f => f.fileName = (completionContext filename line column unsavedFiles
          flags).sourceFilename) = some file := hfind
    rw [unsavedInput, hfind']
  have heditor : ∀ v, editorRequest v (diagnosticsContext filename unsavedFiles flags) =
      .ok (basicRequest v filename first.contents
        (diagnosticsContext filename unsavedFiles flags).compilerArgs) := by
    intro v
    rw [editorRequest]
    simp only [diagnosticsContext, hfirst]
  constructor
  · intro h
    obtain ⟨completion, diagnostics, hc, hd, _, hargs, file', _, hcontents, htext⟩ :=
      h _ _ (Or.inl rfl) (Or.inl rfl)
    rw [heditor] at hd
    cases hd
    rw [argumentsBut_array (basicRequest_compilerArgs ..), Option.some.injEq,
      diagnostics_arguments] at hargs
    rw [basicRequest_sourceText] at htext
    have hne := completionRequest_ok_iff.mp ⟨completion, hc⟩
    rw [hinput] at hne hcontents
    exact ⟨hargs, first, file, hfirst, hfind, hne, by rw [htext, hcontents]⟩
  · intro h u v _ _
    obtain ⟨hflags, first', file', hfirst', hfind', hne, hcontents⟩ := h
    obtain rfl : first = first' := Option.some.inj (hfirst.symm.trans hfirst')
    obtain rfl : file = file' := Option.some.inj (hfind.symm.trans hfind')
    obtain ⟨completion, hc⟩ := (completionRequest_ok_iff (u := u)).mpr (hinput ▸ hne)
    refine ⟨completion, _, hc, heditor v, ?_, ?_, file, List.mem_of_find?_eq_some hfind, hinput, ?_⟩
    · have hargs := argumentsBut_array (completionRequest_args hc)
      exact hargs.trans (congrArg some (completion_arguments filename line column _ flags))
    · rw [argumentsBut_array (basicRequest_compilerArgs ..)]
      exact congrArg some ((diagnostics_arguments filename unsavedFiles flags).mpr hflags)
    · rw [basicRequest_sourceText, hcontents]

/-- With the file name as the one flag completion sends no other argument and
diagnostics the default ones. -/
theorem sameProgram_fileNameFlag :
    ¬ ∀ (filename : Str) (line column : Int32) (unsavedFiles : List UnsavedFile)
        (flags : List Str),
      (∃ f ∈ unsavedFiles, f.fileName = filename ∧ f.contents ≠ []) →
      ∀ u v, u = RequestUID.codeCompleteOpen ∨ u = RequestUID.codeCompleteUpdate →
        v = RequestUID.editorOpen ∨ v = RequestUID.editorReplaceText →
        SameProgram filename line column unsavedFiles flags u v := by
  intro h
  obtain ⟨completion, diagnostics, _, hd, _, hargs, _⟩ :=
    h (lit "a") 1 0 [{ contents := lit "x", fileName := lit "a" }] [lit "a"]
      ⟨_, List.mem_cons_self, rfl, by decide⟩ .codeCompleteOpen .editorOpen
      (Or.inl rfl) (Or.inl rfl)
  have hgo : (editorRequest .editorOpen (diagnosticsContext (lit "a")
      [{ contents := lit "x", fileName := lit "a" }] [lit "a"])).toOption.map
        (argumentsBut (lit "a")) = some (some (defaultOSXArgs.map cstr)) := by
    decide
  rw [hd] at hgo
  rw [show argumentsBut (lit "a") diagnostics = _ from Option.some.inj hgo] at hargs
  exact absurd hargs (by decide)

theorem sameProgram_iff_noFlags :
    (∀ u v, u = RequestUID.codeCompleteOpen ∨ u = RequestUID.codeCompleteUpdate →
      v = RequestUID.editorOpen ∨ v = RequestUID.editorReplaceText →
      SameProgram (lit "a") 1 0 [{ contents := lit "x", fileName := lit "a" }] [] u v) ↔
      OneProgram (lit "a") [{ contents := lit "x", fileName := lit "a" }] [] :=
  sameProgram_iff (lit "a") 1 0 [{ contents := lit "x", fileName := lit "a" }] []
    ⟨_, List.mem_cons_self, rfl, by decide⟩

end Completer
end SSVim
