/-
The trees that the reader can build, and what becomes of them in the writer.

A document has data only where it has no members, and the bytes of its strings are
`Encoded` however they were spelled.  These two facts describe the trees that are read,
and with an empty root they describe the trees that survive being written and read.
-/
import SSVim.Json.Unicode

namespace SSVim
namespace Json

/-! ## Strings -/

theorem feedCodepoint_encoded (c : Char) {s : Str} (hs : Encoded s) :
    Encoded (feedCodepoint c.toNat ++ s) := by
  rw [feedCodepoint_char]
  exact hs.char c

theorem Piece.encoded {text units s : Str} (h : Piece text units) (hs : Encoded s) :
    Encoded (units ++ s) := by
  cases h with
  | plain _ hhigh => exact .ascii hhigh hs
  | multibyte hlead hunits => exact .multibyte hlead hunits hs
  | escape h => exact .ascii (escapeUnit_ascii _ _ h).1 hs
  | codepoint hquad hlow hhigh =>
    obtain ⟨c, rfl⟩ := hquad.char hlow hhigh
    exact feedCodepoint_encoded c hs
  | surrogates hquad hquad' hstray hhigh hlow =>
    obtain ⟨c, hcombine, -⟩ := hquad.surrogates hquad' hhigh hlow
    rw [hcombine]
    exact feedCodepoint_encoded c hs

theorem Chars.encoded {text units : Str} (h : Chars text units) : Encoded units := by
  induction h with
  | nil => exact .nil
  | cons hpiece _ ih => exact hpiece.encoded ih

/-! ## Trees -/

theorem verifyChildren_iff {depth : Nat} {children : List (Str × PTree)} :
    verifyChildren depth children = true ↔
      ∀ child ∈ children, verifyJson (depth + 1) child.2 = true := by
  induction children with
  | nil => exact ⟨fun _ => nofun, fun _ => rfl⟩
  | cons child children ih =>
    rw [verifyChildren, Bool.and_eq_true, ih, List.forall_mem_cons]

theorem verifyJson_iff {depth : Nat} {data : Str} {children : List (Str × PTree)} :
    verifyJson depth (.node data children) = true ↔
      (depth = 0 → data = []) ∧ (children ≠ [] → data = []) ∧
        ∀ child ∈ children, verifyJson (depth + 1) child.2 = true := by
  rw [← verifyChildren_iff]
  refine ⟨verifyJson_node, fun h => ?_⟩
  obtain ⟨hroot, hboth, hchildren⟩ := h
  rw [verifyJson, hchildren, Bool.and_true]
  cases data with
  | nil => simp
  | cons b data =>
    have hdepth : depth ≠ 0 := fun h => List.cons_ne_nil b data (hroot h)
    have hnil : children = [] := by
      by_contra hne
      exact List.cons_ne_nil b data (hboth hne)
    simp [hdepth, hnil]

/-- What every tree of the reader is like: it can stand below the root, and at the root when
it has no data. -/
structure Canonical (pt : PTree) : Prop where
  encoded : pt.All Encoded
  below : ∀ depth, verifyJson (depth + 1) pt = true
  root : pt.data = [] → verifyJson 0 pt = true

theorem Canonical.leaf {data : Str} (h : Encoded data) : Canonical (leaf data) where
  encoded := leaf_all h
  below depth := verifyJson_leaf depth data
  root hdata := verifyJson_iff.mpr ⟨fun _ => hdata, fun _ => hdata, nofun⟩

theorem fold_canonical : Fold (fun _ => True) Encoded Canonical where
  ascii _ _ _ _ := trivial
  chars _ _ _ h _ := ⟨h.encoded, .leaf h.encoded, trivial⟩
  plain _ h := .leaf (encoded_of_ascii h)
  unnamed := .nil
  node _ h := {
    encoded := all_node.mpr ⟨.nil, fun item hitem => ⟨(h item hitem).1, (h item hitem).2.encoded⟩⟩
    below := fun depth => verifyJson_iff.mpr
      ⟨fun _ => rfl, fun _ => rfl, fun item hitem => (h item hitem).2.below (depth + 1)⟩
    root := fun _ => verifyJson_iff.mpr
      ⟨fun _ => rfl, fun _ => rfl, fun item hitem => (h item hitem).2.below 0⟩ }

theorem canonical_of_readJson {s : Str} {pt : PTree} (h : readJson s = .ok pt) : Canonical pt :=
  fold_canonical.document (document_of_readJson h) trivial

/-- A node below the root is read back by itself. -/
theorem readJson_writeJsonHelper {pt : PTree} (hall : pt.All Encoded)
    (hverify : verifyJson 1 pt = true) (pretty : Bool) :
    readJson (writeJsonHelper pretty 1 pt) = .ok pt := by
  have hread := (reads pretty _).1 1 pt [] hverify hall (le_refl _)
  have hintro : skipIntroduction (writeJsonHelper pretty 1 pt) = writeJsonHelper pretty 1 pt := by
    obtain ⟨data, children⟩ := pt
    rw [writeJsonHelper]
    split
    · rfl
    · split <;> rfl
  rw [List.append_nil] at hread
  rw [readJson, parseDocument, hintro, hread]
  rfl

/-- The trees that some text is read as. -/
theorem readable_iff (pt : PTree) :
    (∃ s, readJson s = .ok pt) ↔ pt.All Encoded ∧ verifyJson 1 pt = true := by
  constructor
  · rintro ⟨s, hs⟩
    have hpt := canonical_of_readJson hs
    exact ⟨hpt.encoded, hpt.below 0⟩
  · rintro ⟨hall, hverify⟩
    exact ⟨_, readJson_writeJsonHelper hall hverify false⟩

/-- The trees that survive being written and read, whatever the layout.  Of those that were
read, it is the ones without data at the root. -/
theorem writeJson_readJson_iff (pt : PTree) (pretty : Bool) :
    ((∃ text, writeJson pt pretty = .ok text ∧ readJson text = .ok pt) ↔
        pt.All Encoded ∧ verifyJson 0 pt = true) ∧
      ((∃ s, readJson s = .ok pt) →
        ((∃ text, writeJson pt pretty = .ok text ∧ readJson text = .ok pt) ↔ pt.data = [])) := by
  have hsurvives : (∃ text, writeJson pt pretty = .ok text ∧ readJson text = .ok pt) ↔
      pt.All Encoded ∧ verifyJson 0 pt = true := by
    constructor
    · rintro ⟨text, hwrite, hread⟩
      refine ⟨(canonical_of_readJson hread).encoded, ?_⟩
      unfold writeJson at hwrite
      split at hwrite
      next hverify => exact hverify
      · cases hwrite
    · rintro ⟨hall, hverify⟩
      exact readJson_writeJson hverify hall pretty
  refine ⟨hsurvives, fun hread => ?_⟩
  obtain ⟨s, hs⟩ := hread
  have hpt := canonical_of_readJson hs
  rw [hsurvives]
  constructor
  · rintro ⟨-, hroot⟩
    obtain ⟨data, children⟩ := pt
    exact (verifyJson_iff.mp hroot).1 rfl
  · intro hdata
    exact ⟨hpt.encoded, hpt.root hdata⟩

end Json
end SSVim
