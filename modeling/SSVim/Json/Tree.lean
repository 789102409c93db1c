/-
`boost::property_tree::ptree` as the endpoints read it.

A node has data and named children, and a JSON document is a tree of them: an
object has the members as children, an array has children without names, and
everything else is data.  Several children may share a name, and a lookup finds
the first.
-/
import SSVim.Text

namespace SSVim
namespace Json

inductive PTree where
  | node (data : Str) (children : List (Str × PTree))

/-! ## Numbers read from a stream -/

/-- `std::isspace` in the C locale. -/
def isSpace (c : UInt8) : Bool := c == 32 || (9 ≤ c && c ≤ 13)

def isDigit (c : UInt8) : Bool := 48 ≤ c && c ≤ 57

def digitsValue (digits : Str) : Nat := digits.foldl (fun n d => 10 * n + (d.toNat - 48)) 0

def minusSign : UInt8 := 45
def plusSign : UInt8 := 43

/-- The sign in front of a number, `true` for a minus. -/
def takeSign : Str → Bool × Str
  | [] => (false, [])
  | c :: s =>
    if c = minusSign then (true, s) else if c = plusSign then (false, s) else (false, c :: s)

/-- `iss >> e` for an `int`, and then only white space up to the end. -/
def streamInt (data : Str) : Option Int32 :=
  let (negative, s) := takeSign (data.dropWhile isSpace)
  let digits := s.takeWhile isDigit
  let rest := s.dropWhile isDigit
  let value : Int := if negative then -digitsValue digits else digitsValue digits
  if digits = [] then none
  else if value < -0x80000000 ∨ 0x80000000 ≤ value then none
  else if rest.all isSpace then some (Int32.ofInt value)
  else none

/-! ## Reading a tree -/

namespace PTree

def data : PTree → Str
  | node data _ => data

def children : PTree → List (Str × PTree)
  | node _ children => children

/-- `get_child` with a path of one fragment. -/
def getChild (pt : PTree) (key : String) : Except Fault PTree :=
  match pt.children.lookup (lit key) with
  | some child => .ok child
  | none => .error (.exception ("No such node (" ++ key ++ ")"))

/-- `get<std::string>`. -/
def getString (pt : PTree) (key : String) : Except Fault Str := do
  let child ← pt.getChild key
  return child.data

/-- `get<int>`. -/
def getInt (pt : PTree) (key : String) : Except Fault Int32 := do
  let child ← pt.getChild key
  match streamInt child.data with
  | some value => return value
  | none => .error (.exception "conversion of data to type \"i\" failed")

/-- `as_vector<std::string>`. -/
def asVector (pt : PTree) (key : String) : Except Fault (List Str) := do
  let child ← pt.getChild key
  return child.children.map fun item => item.2.data

section
variable {pt child : PTree} {key : String}

theorem getString_of_child (h : pt.getChild key = .ok child) :
    pt.getString key = .ok child.data := by
  rw [getString, h]
  rfl

theorem getInt_of_child {value : Int32} (h : pt.getChild key = .ok child)
    (hvalue : streamInt child.data = some value) : pt.getInt key = .ok value := by
  rw [getInt, h]
  dsimp only [bind, Except.bind]
  rw [hvalue]
  rfl

theorem asVector_of_child (h : pt.getChild key = .ok child) :
    pt.asVector key = .ok (child.children.map fun item => item.2.data) := by
  rw [asVector, h]
  rfl

end

end PTree

/-- Any number of blanks may stand around an integer. -/
example : streamInt (lit " -12 ") = some (-12) := by decide

end Json
end SSVim
