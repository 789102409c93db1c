/-
The request body that the integration tests post, and what the server reads of it.

The scalar fields are put under their names.  The flags are put one after the other
at the empty path of one node, so each replaces the data of that node, which never
gets a child.  The reader takes the flags from the children.
-/
import SSVim.Json.Build
import SSVim.Server.Endpoint

namespace SSVim
namespace Client

open Json Server

/-- `flagsOut`. -/
def flagsOut (flags : List Str) : PTree :=
  flags.foldl (fun flagsOut f => flagsOut.put (lit "") f) (.node [] [])

/-- `out`. -/
def completionOut (line column : Int32) (fileName contents : Str) (flags : List Str) : PTree :=
  let out := PTree.node [] []
  let out := out.put (lit "line") (intText line)
  let out := out.put (lit "column") (intText column)
  let out := out.put (lit "file_name") fileName
  let out := out.put (lit "contents") contents
  out.addChild (lit "flags") (flagsOut flags)

def makeCompletionPostBody (line column : Int32) (fileName contents : Str) (flags : List Str) :
    Except Fault Str :=
  writeJson (completionOut line column fileName contents flags) true

/-- The last flag is all that is left of the list. -/
theorem flagsOut_eq (flags : List Str) : flagsOut flags = leaf (flags.getLastD []) := by
  have hfold : ∀ data, flags.foldl (fun flagsOut f => flagsOut.put (lit "") f) (.node data []) =
      leaf (flags.getLastD data) := by
    induction flags with
    | nil => exact fun data => rfl
    | cons f flags ih =>
      intro data
      rw [List.foldl_cons, List.getLastD_cons, ← ih f]
      rfl
  exact hfold []

section
variable (line column : Int32) (fileName contents : Str) (flags : List Str)

theorem completionOut_eq :
    completionOut line column fileName contents flags =
      .node [] [(lit "line", leaf (intText line)), (lit "column", leaf (intText column)),
        (lit "file_name", leaf fileName), (lit "contents", leaf contents),
        (lit "flags", leaf (flags.getLastD []))] := by
  rw [completionOut, flagsOut_eq]
  rfl

theorem completionOut_verifies :
    verifyJson 0 (completionOut line column fileName contents flags) = true := by
  rw [completionOut_eq]
  simp [verifyJson, verifyChildren, verifyJson_leaf]

/-- Every field is found under its name. -/
theorem completionOut_getChild :
    (completionOut line column fileName contents flags).getChild "line" =
        .ok (leaf (intText line)) ∧
      (completionOut line column fileName contents flags).getChild "column" =
        .ok (leaf (intText column)) ∧
      (completionOut line column fileName contents flags).getChild "file_name" =
        .ok (leaf fileName) ∧
      (completionOut line column fileName contents flags).getChild "contents" =
        .ok (leaf contents) ∧
      (completionOut line column fileName contents flags).getChild "flags" =
        .ok (leaf (flags.getLastD [])) := by
  rw [completionOut_eq]
  exact ⟨rfl, rfl, rfl, rfl, rfl⟩

theorem completionFields_of_read {body : Str}
    (h : readJson body = .ok (completionOut line column fileName contents flags)) :
    completionFields body =
      .ok { fileName := fileName, column := column, line := line, contents := contents,
            flags := [] } := by
  obtain ⟨hline, hcolumn, hname, hcontents, hflags⟩ :=
    completionOut_getChild line column fileName contents flags
  rw [completionFields, readJSONPostBody, h]
  dsimp only [bind, Except.bind]
  rw [PTree.getString_of_child hname, PTree.getInt_of_child hcolumn (streamInt_intText column),
    PTree.getInt_of_child hline (streamInt_intText line), PTree.getString_of_child hcontents,
    PTree.asVector_of_child hflags]
  rfl

end

/-- Every string of the tree is encoded when the arguments are. -/
theorem completionOut_encoded (line column : Int32) {fileName contents : Str} {flags : List Str}
    (hname : Encoded fileName) (hcontents : Encoded contents) (hflags : ∀ f ∈ flags, Encoded f) :
    (completionOut line column fileName contents flags).All Encoded := by
  have hlast : Encoded (flags.getLastD []) := by
    cases hlast : flags.getLast? with
    | none =>
      rw [List.getLastD_eq_getLast?, hlast]
      exact .nil
    | some f =>
      rw [List.getLastD_eq_getLast?, hlast]
      exact hflags f (List.mem_of_getLast? hlast)
  rw [completionOut_eq]
  simp only [PTree.All, AllChildren]
  refine ⟨.nil, lit_encoded rfl, leaf_all (intText_encoded line), lit_encoded rfl,
    leaf_all (intText_encoded column), lit_encoded rfl, leaf_all hname, lit_encoded rfl,
    leaf_all hcontents, lit_encoded rfl, leaf_all hlast, trivial⟩

/-- The body is read back with every field but the flags, of which none is left. -/
theorem postBody_fields (line column : Int32) {fileName contents : Str} {flags : List Str}
    (hname : ValidUtf8 fileName) (hcontents : ValidUtf8 contents)
    (hflags : ∀ f ∈ flags, ValidUtf8 f) :
    ∃ body, makeCompletionPostBody line column fileName contents flags = .ok body ∧
      completionFields body =
        .ok { fileName := fileName, column := column, line := line, contents := contents,
              flags := [] } := by
  have hencoded := completionOut_encoded line column hname.encoded hcontents.encoded
    fun f hf => (hflags f hf).encoded
  obtain ⟨body, hbody, hread⟩ := readJson_writeJson
    (completionOut_verifies line column fileName contents flags) hencoded true
  exact ⟨body, hbody, completionFields_of_read line column fileName contents flags hread⟩

/-- The body carries what it was made of exactly when there are no flags. -/
theorem postBody_roundTrip_iff (line column : Int32) {fileName contents : Str} {flags : List Str}
    (hname : ValidUtf8 fileName) (hcontents : ValidUtf8 contents)
    (hflags : ∀ f ∈ flags, ValidUtf8 f) :
    (∃ body, makeCompletionPostBody line column fileName contents flags = .ok body ∧
      completionFields body =
        .ok { fileName := fileName, column := column, line := line, contents := contents,
              flags := flags }) ↔ flags = [] := by
  obtain ⟨body, hbody, hfields⟩ := postBody_fields line column hname hcontents hflags
  constructor
  · intro ⟨body', hbody', hfields'⟩
    obtain rfl : body = body' := Except.ok.inj (hbody.symm.trans hbody')
    rw [hfields, Except.ok.injEq, CompletionFields.mk.injEq] at hfields'
    exact hfields'.2.2.2.2.symm
  · intro hnone
    subst hnone
    exact ⟨body, hbody, hfields⟩

/-- A body with one flag, which the server reads as a body with none. -/
theorem postBody_oneFlag :
    ¬ ∀ (line column : Int32) (fileName contents : Str) (flags : List Str),
      ValidUtf8 fileName → ValidUtf8 contents → (∀ f ∈ flags, ValidUtf8 f) →
      ∃ body, makeCompletionPostBody line column fileName contents flags = .ok body ∧
        completionFields body =
          .ok { fileName := fileName, column := column, line := line, contents := contents,
                flags := flags } := by
  intro h
  have hname : ValidUtf8 (lit "a") := ⟨['a'], by decide⟩
  have hcontents : ValidUtf8 (lit "x") := ⟨['x'], by decide⟩
  have hflags : ∀ f ∈ [lit "-v"], ValidUtf8 f :=
    List.forall_mem_singleton.mpr ⟨['-', 'v'], by decide⟩
  obtain ⟨body, hbody, hfields⟩ := h 1 0 (lit "a") (lit "x") [lit "-v"] hname hcontents hflags
  obtain ⟨body', hbody', hfields'⟩ := postBody_fields 1 0 hname hcontents hflags
  obtain rfl : body = body' := Except.ok.inj (hbody.symm.trans hbody')
  rw [hfields', Except.ok.injEq, CompletionFields.mk.injEq] at hfields
  exact List.cons_ne_nil _ _ hfields.2.2.2.2.symm

theorem postBody_roundTrip_iff_oneFlag :
    (∃ body, makeCompletionPostBody 1 0 (lit "a") (lit "x") [lit "-v"] = .ok body ∧
      completionFields body =
        .ok { fileName := lit "a", column := 0, line := 1, contents := lit "x",
              flags := [lit "-v"] }) ↔ [lit "-v"] = [] :=
  postBody_roundTrip_iff 1 0 ⟨['a'], by decide⟩ ⟨['x'], by decide⟩
    (List.forall_mem_singleton.mpr ⟨['-', 'v'], by decide⟩)

end Client
end SSVim
