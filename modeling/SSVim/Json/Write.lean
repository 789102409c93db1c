/-
`write_json`: how the property tree library writes a tree as JSON text.

Every value is written as a string.  A node below the root is a string when it has no
children, an array when no child has a name, and an object otherwise, and the root is
always an object.  A tree that has data where this writes none is refused.
-/
import SSVim.Json.Read

namespace SSVim
namespace Json

/-! ## Strings -/

def hexdigits : Str := lit "0123456789ABCDEF"

def hexdigit (d : Nat) : UInt8 := (hexdigits[d]?).getD nul

/-- What `create_escapes` appends for one character. -/
def createEscape (c : UInt8) : Str :=
  if c = 0x20 ∨ c = 0x21 ∨ (0x23 ≤ c ∧ c ≤ 0x2e) ∨ (0x30 ≤ c ∧ c ≤ 0x5b) ∨ 0x5d ≤ c then [c]
  else if c = 0x08 then [backslash, letter 'b']
  else if c = 0x0c then [backslash, letter 'f']
  else if c = 0x0a then [backslash, letter 'n']
  else if c = 0x0d then [backslash, letter 'r']
  else if c = 0x09 then [backslash, letter 't']
  else if c = letter '/' then [backslash, letter '/']
  else if c = quote then [backslash, quote]
  else if c = backslash then [backslash, backslash]
  else
    let u := c.toNat
    [backslash, letter 'u', hexdigit (u / 4096), hexdigit (u % 4096 / 256),
      hexdigit (u % 256 / 16), hexdigit (u % 16)]

def createEscapes (s : Str) : Str := s.flatMap createEscape

/-- A string value or a name. -/
def quoted (s : Str) : Str := quote :: (createEscapes s ++ [quote])

theorem quoted_append (s rest : Str) :
    quoted s ++ rest = quote :: (createEscapes s ++ quote :: rest) := by
  rw [quoted, List.cons_append, List.append_assoc, List.singleton_append]

/-! ## Values -/

/-- White space that is written only when the text is to be read by people. -/
def whenPretty (pretty : Bool) (s : Str) : Str := if pretty then s else []

def indentation (indent : Nat) : Str := List.replicate (4 * indent) space

/-- The comma after an element that is not the last. -/
def separator (rest : List (Str × PTree)) : Str := if rest.isEmpty then [] else [comma]

mutual

def writeJsonHelper (pretty : Bool) : Nat → PTree → Str
  | indent, .node data children =>
    if 0 < indent ∧ children.isEmpty then quoted data
    else if 0 < indent ∧ children.all fun child => child.1.isEmpty then
      openBracket :: (whenPretty pretty [newline] ++ (writeElements pretty indent children ++
        (whenPretty pretty (indentation indent) ++ [closeBracket])))
    else
      openBrace :: (whenPretty pretty [newline] ++ (writeMembers pretty indent children ++
        (whenPretty pretty (indentation indent) ++ [closeBrace])))

def writeElements (pretty : Bool) : Nat → List (Str × PTree) → Str
  | _, [] => []
  | indent, (_, child) :: rest =>
    whenPretty pretty (indentation (indent + 1)) ++
      (writeJsonHelper pretty (indent + 1) child ++
        (separator rest ++ (whenPretty pretty [newline] ++ writeElements pretty indent rest)))

def writeMembers (pretty : Bool) : Nat → List (Str × PTree) → Str
  | _, [] => []
  | indent, (key, child) :: rest =>
    whenPretty pretty (indentation (indent + 1)) ++
      (quoted key ++ (colon :: (whenPretty pretty [space] ++
        (writeJsonHelper pretty (indent + 1) child ++
          (separator rest ++ (whenPretty pretty [newline] ++ writeMembers pretty indent rest))))))

end

mutual

/-- Whether the tree has no data that JSON text does not have: none at the root, and
none beside children. -/
def verifyJson : Nat → PTree → Bool
  | depth, .node data children =>
    !(depth == 0 && !data.isEmpty) && !(!data.isEmpty && !children.isEmpty) &&
      verifyChildren depth children

def verifyChildren : Nat → List (Str × PTree) → Bool
  | _, [] => true
  | depth, (_, child) :: rest => verifyJson (depth + 1) child && verifyChildren depth rest

end

def writeJson (pt : PTree) (pretty : Bool) : Except Fault Str :=
  if verifyJson 0 pt then .ok (writeJsonHelper pretty 0 pt ++ [newline])
  else .error (.exception "ptree contains data that cannot be represented in JSON format")

theorem verifyJson_leaf (depth : Nat) (data : Str) : verifyJson (depth + 1) (leaf data) = true := by
  simp [leaf, verifyJson, verifyChildren]

/-! ## What is written, by the shape of the node -/

section
variable (pretty : Bool) (indent : Nat)

theorem writeJsonHelper_leaf (hi : 0 < indent) (data : Str) :
    writeJsonHelper pretty indent (.node data []) = quoted data := by
  rw [writeJsonHelper, if_pos ⟨hi, rfl⟩]

theorem writeJsonHelper_array (hi : 0 < indent) (data : Str) {children : List (Str × PTree)}
    (hne : children ≠ []) (hall : ∀ child ∈ children, child.1 = []) :
    writeJsonHelper pretty indent (.node data children) =
      openBracket :: (whenPretty pretty [newline] ++ (writeElements pretty indent children ++
        (whenPretty pretty (indentation indent) ++ [closeBracket]))) := by
  have hall' : (children.all fun child => child.1.isEmpty) = true := by
    rw [List.all_eq_true]
    intro child hchild
    rw [hall child hchild]
    rfl
  rw [writeJsonHelper, if_neg, if_pos ⟨hi, hall'⟩]
  rw [List.isEmpty_iff]
  exact fun h => hne h.2

theorem writeJsonHelper_object (data : Str) {children : List (Str × PTree)}
    (h : indent = 0 ∨ ∃ child ∈ children, child.1 ≠ []) :
    writeJsonHelper pretty indent (.node data children) =
      openBrace :: (whenPretty pretty [newline] ++ (writeMembers pretty indent children ++
        (whenPretty pretty (indentation indent) ++ [closeBrace]))) := by
  have hleaf : ¬ (0 < indent ∧ children.isEmpty = true) := by
    rw [List.isEmpty_iff]
    intro ⟨hi, hnil⟩
    rcases h with h | ⟨child, hchild, _⟩
    · omega
    · rw [hnil] at hchild
      cases hchild
  have harray : ¬ (0 < indent ∧ (children.all fun child => child.1.isEmpty) = true) := by
    rw [List.all_eq_true]
    intro ⟨hi, hall⟩
    rcases h with h | ⟨child, hchild, hne⟩
    · omega
    · exact hne (List.isEmpty_iff.mp (hall child hchild))
  rw [writeJsonHelper, if_neg hleaf, if_neg harray]

end

/-- The file name and the flags of a request as they are written. -/
example : writeJson (.node [] [(lit "f", leaf (lit "a/b")), (lit "g", .node [] [([], leaf [])])])
    false = .ok (lit "\x7b\"f\":\"a\\/b\",\"g\":[\"\"]\x7d\n") := by decide

end Json
end SSVim
