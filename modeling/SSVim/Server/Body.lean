/-
The request bodies of the two endpoints, from the bytes to the fields.

What an endpoint accepts is said of the document that the body denotes.  A request that no
clause here admits is one that ends the server.
-/
import SSVim.Json.Getters
import SSVim.Json.Unicode
import SSVim.Server.Ending

namespace SSVim
namespace Server

open Completer Json

/-- A child with the name has the text as its data. -/
def HasText (pt : PTree) (key : String) (text : Str) : Prop :=
  ∃ child, FirstChild pt key child ∧ child.data = text

def HasInt (pt : PTree) (key : String) (n : Int32) : Prop :=
  ∃ child, FirstChild pt key child ∧ IntText child.data n

/-- A child with the name has children, of whatever names, with these data. -/
def HasTexts (pt : PTree) (key : String) (texts : List Str) : Prop :=
  ∃ child, FirstChild pt key child ∧ child.children.map (fun item => item.2.data) = texts

structure CompletionsBody (body : Str) (fields : CompletionFields) (pt : PTree) : Prop where
  document : Document body pt
  fileName : HasText pt "file_name" fields.fileName
  column : HasInt pt "column" fields.column
  line : HasInt pt "line" fields.line
  contents : HasText pt "contents" fields.contents
  flags : HasTexts pt "flags" fields.flags

structure DiagnosticsBody (body : Str) (fields : DiagnosticsFields) (pt : PTree) : Prop where
  document : Document body pt
  fileName : HasText pt "file_name" fields.fileName
  contents : HasText pt "contents" fields.contents
  flags : HasTexts pt "flags" fields.flags

section
variable {body : Str}

theorem completionFields_iff {fields : CompletionFields} :
    completionFields body = .ok fields ↔ ∃ pt, CompletionsBody body fields pt := by
  constructor
  · intro h
    obtain ⟨pt, hread, h⟩ := bind_eq_ok h
    obtain ⟨fileName, hfile, h⟩ := bind_eq_ok h
    obtain ⟨column, hcolumn, h⟩ := bind_eq_ok h
    obtain ⟨line, hline, h⟩ := bind_eq_ok h
    obtain ⟨contents, hcontents, h⟩ := bind_eq_ok h
    obtain ⟨flags, hflags, h⟩ := bind_eq_ok h
    cases h
    exact ⟨pt,
      { document := readJson_iff.mp hread
        fileName := PTree.getString_iff.mp hfile
        column := PTree.getInt_iff.mp hcolumn
        line := PTree.getInt_iff.mp hline
        contents := PTree.getString_iff.mp hcontents
        flags := PTree.asVector_iff.mp hflags }⟩
  · rintro ⟨pt, h⟩
    rw [completionFields, readJSONPostBody, readJson_iff.mpr h.document]
    dsimp only [bind, Except.bind]
    rw [PTree.getString_iff.mpr h.fileName, PTree.getInt_iff.mpr h.column,
      PTree.getInt_iff.mpr h.line, PTree.getString_iff.mpr h.contents,
      PTree.asVector_iff.mpr h.flags]
    rfl

theorem diagnosticsFields_iff {fields : DiagnosticsFields} :
    diagnosticsFields body = .ok fields ↔ ∃ pt, DiagnosticsBody body fields pt := by
  constructor
  · intro h
    obtain ⟨pt, hread, h⟩ := bind_eq_ok h
    obtain ⟨fileName, hfile, h⟩ := bind_eq_ok h
    obtain ⟨contents, hcontents, h⟩ := bind_eq_ok h
    obtain ⟨flags, hflags, h⟩ := bind_eq_ok h
    cases h
    exact ⟨pt,
      { document := readJson_iff.mp hread
        fileName := PTree.getString_iff.mp hfile
        contents := PTree.getString_iff.mp hcontents
        flags := PTree.asVector_iff.mp hflags }⟩
  · rintro ⟨pt, h⟩
    rw [diagnosticsFields, readJSONPostBody, readJson_iff.mpr h.document]
    dsimp only [bind, Except.bind]
    rw [PTree.getString_iff.mpr h.fileName, PTree.getString_iff.mpr h.contents,
      PTree.asVector_iff.mpr h.flags]
    rfl

/-! ## UTF-8 -/

section
variable {P : Str → Prop} {pt : PTree} {key : String}

theorem HasText.all {text : Str} (h : HasText pt key text) (hall : pt.All P) : P text := by
  obtain ⟨child, hchild, rfl⟩ := h
  exact all_data (hchild.all hall)

theorem HasTexts.all {texts : List Str} (h : HasTexts pt key texts) (hall : pt.All P) :
    ∀ text ∈ texts, P text := by
  obtain ⟨child, hchild, rfl⟩ := h
  intro text htext
  obtain ⟨item, hitem, rfl⟩ := List.mem_map.mp htext
  exact all_data (all_children (hchild.all hall) item hitem)

end

/-- What the endpoints read from a body in UTF-8 is in UTF-8. -/
theorem fields_validUtf8 (h : ValidUtf8 body) :
    (∀ fields, completionFields body = .ok fields →
      ValidUtf8 fields.fileName ∧ ValidUtf8 fields.contents ∧
        ∀ flag ∈ fields.flags, ValidUtf8 flag) ∧
    ∀ fields, diagnosticsFields body = .ok fields →
      ValidUtf8 fields.fileName ∧ ValidUtf8 fields.contents ∧
        ∀ flag ∈ fields.flags, ValidUtf8 flag := by
  refine ⟨fun fields hfields => ?_, fun fields hfields => ?_⟩
  · obtain ⟨pt, hbody⟩ := completionFields_iff.mp hfields
    have hall := readJson_validUtf8 h (readJson_iff.mpr hbody.document)
    exact ⟨hbody.fileName.all hall, hbody.contents.all hall, hbody.flags.all hall⟩
  · obtain ⟨pt, hbody⟩ := diagnosticsFields_iff.mp hfields
    have hall := readJson_validUtf8 h (readJson_iff.mpr hbody.document)
    exact ⟨hbody.fileName.all hall, hbody.contents.all hall, hbody.flags.all hall⟩

/-- A letter as its own bytes, the same letter escaped, and a pair of surrogates in a flag. -/
def unicodeBody : Str :=
  lit "\x7b\"file_name\":\"" ++ [0xc3, 0xa9] ++
    lit ("\",\"line\":1,\"column\":2,\"contents\":\"\\u00e9.\"," ++
      "\"flags\":[\"-D\\ud83d\\ude00\"]\x7d")

def unicodeFields : CompletionFields :=
  { fileName := [0xc3, 0xa9], column := 2, line := 1, contents := [0xc3, 0xa9] ++ lit ".",
    flags := [lit "-D" ++ [0xf0, 0x9f, 0x98, 0x80]] }

theorem unicodeBody_validUtf8 :
    completionFields unicodeBody = .ok unicodeFields ∧
      ValidUtf8 unicodeFields.fileName ∧ ValidUtf8 unicodeFields.contents ∧
        ∀ flag ∈ unicodeFields.flags, ValidUtf8 flag := by
  have hbody : ValidUtf8 unicodeBody :=
    ⟨("\x7b\"file_name\":\"é\",\"line\":1,\"column\":2,\"contents\":\"\\u00e9.\"," ++
      "\"flags\":[\"-D\\ud83d\\ude00\"]\x7d").toList, by decide +kernel⟩
  have hfields : completionFields unicodeBody = .ok unicodeFields := by
    decide +kernel
  exact ⟨hfields, (fields_validUtf8 hbody).1 _ hfields⟩

end

/-! ## The requests that the server outlives -/

end Server
end SSVim
