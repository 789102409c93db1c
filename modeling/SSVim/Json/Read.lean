/-
`read_json`: the recursive descent parser of the property tree library on bytes.

The parser never goes back, so each function takes what is left of the input and
returns what it leaves.  The callbacks build the tree while it is parsed, and
here each function returns the part of the tree it read.  Values nest, so the
functions that read values take fuel.  `Consumes` says at once how many bytes a
function uses up and that it does not run out of fuel, and with twice as much fuel
as there are bytes no value does.
-/
import SSVim.Json.Tree

namespace SSVim
namespace Json

inductive ReadError where
  /-- A `json_parser_error`. -/
  | parse (message : String)
  | outOfFuel
  deriving DecidableEq, Repr

def fail {α : Type} (message : String) : Except ReadError α := .error (.parse message)

/-! ## The encoding -/

def isWs (c : UInt8) : Bool := c == 32 || c == 9 || c == 10 || c == 13

def quote : UInt8 := 34
def backslash : UInt8 := 92
def comma : UInt8 := 44
def colon : UInt8 := 58
def openBracket : UInt8 := 91
def closeBracket : UInt8 := 93
def openBrace : UInt8 := 123
def closeBrace : UInt8 := 125

def letter (c : Char) : UInt8 := c.toNat.toUInt8

def decodeHexdigit (c : UInt8) : Option Nat :=
  if 48 ≤ c ∧ c ≤ 57 then some (c.toNat - 48)
  else if 65 ≤ c ∧ c ≤ 70 then some (c.toNat - 55)
  else if 97 ≤ c ∧ c ≤ 102 then some (c.toNat - 87)
  else none

def isTrail (c : UInt8) : Bool := c &&& 0xc0 == 0x80

/-- How many bytes follow a lead byte from `0x80` on. -/
def trailTable (c : UInt8) : Option Nat :=
  if c < 0xc0 then none
  else if c < 0xe0 then some 1
  else if c < 0xf0 then some 2
  else if c < 0xf8 then some 3
  else none

def trail (unmasked : Nat) : UInt8 := (0x80 ||| (unmasked &&& 0x3f)).toUInt8

def feedCodepoint (codepoint : Nat) : Str :=
  if codepoint ≤ 0x7f then [codepoint.toUInt8]
  else if codepoint ≤ 0x7ff then [(0xc0 ||| (codepoint >>> 6)).toUInt8, trail codepoint]
  else if codepoint ≤ 0xffff then
    [(0xe0 ||| (codepoint >>> 12)).toUInt8, trail (codepoint >>> 6), trail codepoint]
  else if codepoint ≤ 0x10ffff then
    [(0xf0 ||| (codepoint >>> 18)).toUInt8, trail (codepoint >>> 12), trail (codepoint >>> 6),
      trail codepoint]
  else []

/-- A byte order mark is skipped with whatever two bytes follow its first. -/
def skipIntroduction : Str → Str
  | [] => []
  | c :: s => if c = 0xef then s.drop 2 else c :: s

/-! ## Strings -/

def takeTrailing : Nat → Str → Except ReadError (Str × Str)
  | 0, s => .ok ([], s)
  | _ + 1, [] => fail "invalid code sequence"
  | n + 1, c :: s =>
    if isTrail c then do
      let (units, s) ← takeTrailing n s
      return (c :: units, s)
    else fail "invalid code sequence"

/-- `transcode_codepoint`, with its first byte taken. -/
def transcodeCodepoint (c : UInt8) (s : Str) : Except ReadError (Str × Str) :=
  if c ≤ 0x7f then
    if c < 0x20 then fail "invalid code sequence" else .ok ([c], s)
  else
    match trailTable c with
    | none => fail "invalid code sequence"
    | some trailing => do
      let (units, s) ← takeTrailing trailing s
      return (c :: units, s)

/-- `parse_hex_quad`, with `n` of its digits to go. -/
def parseHexQuad : Nat → Nat → Str → Except ReadError (Nat × Str)
  | 0, codepoint, s => .ok (codepoint, s)
  | _ + 1, _, [] => fail "invalid escape sequence"
  | n + 1, codepoint, c :: s =>
    match decodeHexdigit c with
    | none => fail "invalid escape sequence"
    | some value => parseHexQuad n (codepoint * 16 + value) s

def expect (c : UInt8) (message : String) : Str → Except ReadError (Unit × Str)
  | [] => fail message
  | c' :: s => if c' = c then .ok ((), s) else fail message

def isSurrogateHigh (codepoint : Nat) : Bool := codepoint &&& 0xfc00 == 0xd800
def isSurrogateLow (codepoint : Nat) : Bool := codepoint &&& 0xfc00 == 0xdc00

def combineSurrogates (high low : Nat) : Nat :=
  0x010000 + (((high &&& 0x3ff) <<< 10) ||| (low &&& 0x3ff))

def parseCodepointRef (s : Str) : Except ReadError (Str × Str) := do
  let (codepoint, s) ← parseHexQuad 4 0 s
  if isSurrogateLow codepoint then fail "invalid codepoint, stray low surrogate"
  else if isSurrogateHigh codepoint then do
    let (_, s) ← expect backslash "invalid codepoint, stray high surrogate" s
    let (_, s) ← expect (letter 'u') "expected codepoint reference after high surrogate" s
    let (low, s) ← parseHexQuad 4 0 s
    if isSurrogateLow low then return (feedCodepoint (combineSurrogates codepoint low), s)
    else fail "expected low surrogate after high surrogate"
  else return (feedCodepoint codepoint, s)

/-- The code unit of an escape of two characters. -/
def escapeUnit (c : UInt8) : Option UInt8 :=
  if c = quote then some 0x22
  else if c = backslash then some 0x5c
  else if c = letter '/' then some 0x2f
  else if c = letter 'b' then some 0x08
  else if c = letter 'f' then some 0x0c
  else if c = letter 'n' then some 0x0a
  else if c = letter 'r' then some 0x0d
  else if c = letter 't' then some 0x09
  else none

def parseEscape : Str → Except ReadError (Str × Str)
  | [] => fail "invalid escape sequence"
  | c :: s =>
    match escapeUnit c with
    | some unit => .ok ([unit], s)
    | none => if c = letter 'u' then parseCodepointRef s else fail "invalid escape sequence"

/-- The code units that one turn of the loop of `parse_string` adds. -/
def parsePiece (c : UInt8) (s : Str) : Except ReadError (Str × Str) :=
  if c = backslash then parseEscape s else transcodeCodepoint c s

/-- A string after its opening quote. -/
def parseString : Nat → Str → Except ReadError (Str × Str)
  | 0, _ => .error .outOfFuel
  | _ + 1, [] => fail "unterminated string"
  | n + 1, c :: s =>
    if c = quote then .ok ([], s)
    else do
      let (units, s) ← parsePiece c s
      let (more, s) ← parseString n s
      return (units ++ more, s)

/-! ## Numbers -/

/-- The digits a number goes on with. -/
def parseDigits (s : Str) : Str × Str := (s.takeWhile isDigit, s.dropWhile isDigit)

/-- At least one digit. -/
def expectDigits (message : String) (s : Str) : Except ReadError (Str × Str) :=
  match s.takeWhile isDigit with
  | [] => fail message
  | digits => .ok (digits, s.dropWhile isDigit)

def parseIntPart (message : String) : Str → Except ReadError (Str × Str)
  | [] => fail message
  | c :: s =>
    if c = letter '0' then .ok ([c], s)
    else if isDigit c then .ok (c :: (parseDigits s).1, (parseDigits s).2)
    else fail message

def parseFracPart : Str → Except ReadError (Str × Str)
  | [] => .ok ([], [])
  | c :: s =>
    if c = letter '.' then do
      let (digits, s) ← expectDigits "need at least one digit after '.'" s
      return (c :: digits, s)
    else .ok ([], c :: s)

/-- The sign of an exponent as it is written. -/
def exponentSign : Str → Str × Str
  | [] => ([], [])
  | c :: s => if c = plusSign ∨ c = minusSign then ([c], s) else ([], c :: s)

def parseExpPart : Str → Except ReadError (Str × Str)
  | [] => .ok ([], [])
  | c :: s =>
    if c = letter 'e' ∨ c = letter 'E' then do
      let (digits, rest) ← expectDigits "need at least one digit in exponent" (exponentSign s).2
      return (c :: ((exponentSign s).1 ++ digits), rest)
    else .ok ([], c :: s)

/-- The text of a number. -/
def parseUnsigned (message : String) (s : Str) : Except ReadError (Str × Str) := do
  let (intPart, s) ← parseIntPart message s
  let (fracPart, s) ← parseFracPart s
  let (expPart, s) ← parseExpPart s
  return (intPart ++ fracPart ++ expPart, s)

def parseNumber : Str → Except ReadError (Str × Str)
  | [] => fail "expected value"
  | c :: s =>
    if c = minusSign then do
      let (digits, s) ← parseUnsigned "expected digits after -" s
      return (c :: digits, s)
    else parseUnsigned "expected value" (c :: s)

/-! ## Values -/

def skipWs (s : Str) : Str := s.dropWhile isWs

/-- The rest of a word whose first letter is taken. -/
def expectWord (message : String) : Str → Str → Except ReadError (Unit × Str)
  | [], s => .ok ((), s)
  | c :: word, s => do
    let (_, s) ← expect c message s
    expectWord message word s

def leaf (data : Str) : PTree := .node data []

mutual

def parseValue : Nat → Str → Except ReadError (PTree × Str)
  | 0, _ => .error .outOfFuel
  | n + 1, s =>
    match skipWs s with
    | [] => fail "expected value"
    | c :: s =>
      if c = openBrace then
        match skipWs s with
        | [] => fail "expected key string"
        | c :: s =>
          if c = closeBrace then .ok (.node [] [], s)
          else do
            let (members, s) ← parseMembers n (c :: s)
            return (.node [] members, s)
      else if c = openBracket then
        match skipWs s with
        | [] => fail "expected value"
        | c :: s =>
          if c = closeBracket then .ok (.node [] [], s)
          else do
            let (elements, s) ← parseElements n (c :: s)
            return (.node [] elements, s)
      else if c = quote then do
        let (data, s) ← parseString (s.length + 1) s
        return (leaf data, s)
      else if c = letter 't' then do
        let (_, s) ← expectWord "expected 'true'" (lit "rue") s
        return (leaf (lit "true"), s)
      else if c = letter 'f' then do
        let (_, s) ← expectWord "expected 'false'" (lit "alse") s
        return (leaf (lit "false"), s)
      else if c = letter 'n' then do
        let (_, s) ← expectWord "expected 'null'" (lit "ull") s
        return (leaf (lit "null"), s)
      else do
        let (data, s) ← parseNumber (c :: s)
        return (leaf data, s)

/-- The elements of an array up to the bracket that closes it. -/
def parseElements : Nat → Str → Except ReadError (List (Str × PTree) × Str)
  | 0, _ => .error .outOfFuel
  | n + 1, s => do
    let (value, s) ← parseValue n s
    match skipWs s with
    | [] => fail "expected ']' or ','"
    | c :: s =>
      if c = comma then do
        let (elements, s) ← parseElements n s
        return (([], value) :: elements, s)
      else if c = closeBracket then .ok ([([], value)], s)
      else fail "expected ']' or ','"

/-- The members of an object up to the brace that closes it. -/
def parseMembers : Nat → Str → Except ReadError (List (Str × PTree) × Str)
  | 0, _ => .error .outOfFuel
  | n + 1, s => do
    let (_, s) ← expect quote "expected key string" (skipWs s)
    let (key, s) ← parseString (s.length + 1) s
    let (_, s) ← expect colon "expected ':'" (skipWs s)
    let (value, s) ← parseValue n s
    match skipWs s with
    | [] => fail "expected '\x7d' or ','"
    | c :: s =>
      if c = comma then do
        let (members, s) ← parseMembers n s
        return ((key, value) :: members, s)
      else if c = closeBrace then .ok ([(key, value)], s)
      else fail "expected '\x7d' or ','"

end

/-- `parse_value` and `finish`. -/
def parseDocument (s : Str) : Except ReadError PTree := do
  let (value, s) ← parseValue (2 * (skipIntroduction s).length + 1) (skipIntroduction s)
  if skipWs s = [] then return value else .error (.parse "garbage after data")

def readJson (s : Str) : Except Fault PTree :=
  match parseDocument s with
  | .ok pt => .ok pt
  | .error (.parse message) => .error (.exception message)
  | .error .outOfFuel => .error (.exception "out of fuel")

/-! ## Progress

The bound on the fuel counts two units for each byte: a value passes one to the
list it opens with a byte, and a list passes one to its first value. -/

/-- A function on `s` with result `r` has fuel enough and takes at least `k` bytes. -/
def Consumes {α : Type} (k : Nat) (s : Str) : Except ReadError (α × Str) → Prop
  | .ok (_, rest) => rest.length + k ≤ s.length
  | .error e => e ≠ .outOfFuel

section
variable {α β : Type} {k k' : Nat} {s s' : Str}

theorem Consumes.ok {a : α} (h : s'.length + k ≤ s.length) :
    Consumes k s (.ok (a, s')) := h

theorem Consumes.fail (message : String) :
    Consumes k s (fail message : Except ReadError (α × Str)) :=
  ReadError.noConfusion

theorem Consumes.bind {x : Except ReadError (α × Str)}
    {f : α × Str → Except ReadError (β × Str)} (hx : Consumes k s x)
    (hf : ∀ a rest, rest.length + k ≤ s.length → Consumes k' s (f (a, rest))) :
    Consumes k' s (x >>= f) := by
  cases x with
  | error e => exact hx
  | ok p => exact hf p.1 p.2 hx

theorem Consumes.weaken {r : Except ReadError (α × Str)} (h : Consumes k s r) (s' : Str)
    (k' : Nat) (hle : s.length + k' ≤ s'.length + k) : Consumes k' s' r := by
  cases r with
  | error e => exact h
  | ok p =>
    have hrest : p.2.length + k ≤ s.length := h
    show p.2.length + k' ≤ s'.length
    omega

end

theorem length_skipWs (s : Str) : (skipWs s).length ≤ s.length := List.length_dropWhile_le _ _

theorem takeTrailing_consumes (n : Nat) (s : Str) : Consumes 0 s (takeTrailing n s) := by
  induction n generalizing s with
  | zero => exact Consumes.ok (le_refl _)
  | succ n ih =>
    cases s with
    | nil => exact Consumes.fail _
    | cons c s =>
      rw [takeTrailing]
      split
      · refine ((ih s).weaken (c :: s) 0 ?_).bind fun units rest h => Consumes.ok h
        simp
      · exact Consumes.fail _

theorem transcodeCodepoint_consumes (c : UInt8) (s : Str) :
    Consumes 0 s (transcodeCodepoint c s) := by
  unfold transcodeCodepoint
  split
  · split
    · exact Consumes.fail _
    · exact Consumes.ok (le_refl _)
  · split
    · exact Consumes.fail _
    · exact (takeTrailing_consumes _ s).bind fun units rest h => Consumes.ok h

theorem parseHexQuad_consumes (n codepoint : Nat) (s : Str) :
    Consumes 0 s (parseHexQuad n codepoint s) := by
  induction n generalizing codepoint s with
  | zero => exact Consumes.ok (le_refl _)
  | succ n ih =>
    cases s with
    | nil => exact Consumes.fail _
    | cons c s =>
      rw [parseHexQuad]
      split
      · exact Consumes.fail _
      · refine (ih _ s).weaken (c :: s) 0 ?_
        simp

theorem expect_consumes (c : UInt8) (message : String) (s : Str) :
    Consumes 1 s (expect c message s) := by
  cases s with
  | nil => exact Consumes.fail _
  | cons c' s =>
    rw [expect]
    split
    · exact Consumes.ok (le_refl _)
    · exact Consumes.fail _

theorem parseCodepointRef_consumes (s : Str) : Consumes 0 s (parseCodepointRef s) := by
  unfold parseCodepointRef
  refine (parseHexQuad_consumes 4 0 s).bind fun codepoint s₁ h₁ => ?_
  dsimp only
  split
  · exact Consumes.fail _
  · split
    · refine ((expect_consumes _ _ s₁).weaken s 0 (by omega)).bind
        fun _ s₂ h₂ => ?_
      refine ((expect_consumes _ _ s₂).weaken s 0 (by omega)).bind
        fun _ s₃ h₃ => ?_
      refine ((parseHexQuad_consumes 4 0 s₃).weaken s 0 (by omega)).bind
        fun low s₄ h₄ => ?_
      dsimp only
      split
      · exact Consumes.ok h₄
      · exact Consumes.fail _
    · exact Consumes.ok h₁

theorem parseEscape_consumes (s : Str) : Consumes 0 s (parseEscape s) := by
  cases s with
  | nil => exact Consumes.fail _
  | cons c s =>
    rw [parseEscape]
    split
    · exact Consumes.ok (Nat.le_succ _)
    · split
      · exact (parseCodepointRef_consumes s).weaken (c :: s) 0 (Nat.le_succ _)
      · exact Consumes.fail _

theorem parsePiece_consumes (c : UInt8) (s : Str) : Consumes 0 s (parsePiece c s) := by
  unfold parsePiece
  split
  · exact parseEscape_consumes s
  · exact transcodeCodepoint_consumes c s

theorem parseString_consumes {n : Nat} {s : Str} (h : s.length < n) :
    Consumes 1 s (parseString n s) := by
  induction n generalizing s with
  | zero => omega
  | succ n ih =>
    cases s with
    | nil => exact Consumes.fail _
    | cons c s =>
      have hlen : (c :: s).length = s.length + 1 := rfl
      rw [parseString]
      split
      · exact Consumes.ok (le_refl _)
      · refine ((parsePiece_consumes c s).weaken (c :: s) 1 (by omega)).bind
          fun units s₁ h₁ => ?_
        exact ((ih (s := s₁) (by omega)).weaken (c :: s) 1 (by omega)).bind
          fun more s₂ h₂ => Consumes.ok h₂

theorem length_dropWhile_isDigit (s : Str) : (s.dropWhile isDigit).length ≤ s.length :=
  List.length_dropWhile_le _ _

theorem expectDigits_consumes (message : String) (s : Str) :
    Consumes 0 s (expectDigits message s) := by
  unfold expectDigits
  split
  · exact Consumes.fail _
  · exact Consumes.ok (length_dropWhile_isDigit s)

theorem parseIntPart_consumes (message : String) (s : Str) :
    Consumes 1 s (parseIntPart message s) := by
  cases s with
  | nil => exact Consumes.fail _
  | cons c s =>
    rw [parseIntPart]
    split
    · exact Consumes.ok (le_refl _)
    · split
      · exact Consumes.ok (Nat.succ_le_succ (length_dropWhile_isDigit s))
      · exact Consumes.fail _

theorem parseFracPart_consumes (s : Str) : Consumes 0 s (parseFracPart s) := by
  cases s with
  | nil => exact Consumes.ok (le_refl _)
  | cons c s =>
    rw [parseFracPart]
    split
    · refine ((expectDigits_consumes _ s).weaken (c :: s) 0 ?_).bind
        fun digits rest h => Consumes.ok h
      simp
    · exact Consumes.ok (le_refl _)

theorem length_exponentSign (s : Str) : (exponentSign s).2.length ≤ s.length := by
  cases s with
  | nil => exact le_refl _
  | cons c s =>
    rw [exponentSign]
    split
    · exact Nat.le_succ _
    · exact le_refl _

theorem parseExpPart_consumes (s : Str) : Consumes 0 s (parseExpPart s) := by
  cases s with
  | nil => exact Consumes.ok (le_refl _)
  | cons c s =>
    rw [parseExpPart]
    split
    · have hsign := length_exponentSign s
      have hlen : (c :: s).length = s.length + 1 := rfl
      refine ((expectDigits_consumes _ (exponentSign s).2).weaken (c :: s) 0
        (by omega)).bind fun digits rest h => Consumes.ok h
    · exact Consumes.ok (le_refl _)

theorem parseUnsigned_consumes (message : String) (s : Str) :
    Consumes 1 s (parseUnsigned message s) := by
  unfold parseUnsigned
  refine (parseIntPart_consumes message s).bind fun intPart s₁ h₁ => ?_
  refine ((parseFracPart_consumes s₁).weaken s 1 (by omega)).bind
    fun fracPart s₂ h₂ => ?_
  exact ((parseExpPart_consumes s₂).weaken s 1 (by omega)).bind
    fun expPart s₃ h₃ => Consumes.ok h₃

theorem parseNumber_consumes (s : Str) : Consumes 1 s (parseNumber s) := by
  cases s with
  | nil => exact Consumes.fail _
  | cons c s =>
    rw [parseNumber]
    split
    · refine ((parseUnsigned_consumes _ s).weaken (c :: s) 1 ?_).bind
        fun digits rest h => Consumes.ok h
      simp
    · exact parseUnsigned_consumes _ _

theorem expectWord_consumes (message : String) (word s : Str) :
    Consumes 0 s (expectWord message word s) := by
  induction word generalizing s with
  | nil => exact Consumes.ok (le_refl _)
  | cons c word ih =>
    rw [expectWord]
    refine (expect_consumes c message s).bind fun _ rest h => ?_
    exact (ih rest).weaken s 0 (by omega)

/-- Values, elements and members by induction on the fuel, which each of them
passes on one less. -/
theorem values_consume (n : Nat) :
    (∀ s : Str, 2 * s.length + 1 ≤ n → Consumes 1 s (parseValue n s)) ∧
    (∀ s : Str, 2 * s.length + 2 ≤ n → Consumes 1 s (parseElements n s)) ∧
    (∀ s : Str, 2 * s.length + 2 ≤ n → Consumes 1 s (parseMembers n s)) := by
  induction n with
  | zero => exact ⟨fun s h => by omega, fun s h => by omega, fun s h => by omega⟩
  | succ n ih =>
    obtain ⟨ihValue, ihElements, ihMembers⟩ := ih
    refine ⟨fun s h => ?_, fun s h => ?_, fun s h => ?_⟩
    · have hws := length_skipWs s
      rw [parseValue]
      split
      · exact Consumes.fail _
      next c s₁ heq =>
        have hlen : s₁.length + 1 ≤ s.length := by
          rw [heq] at hws
          exact hws
        have hws₁ := length_skipWs s₁
        split
        · split
          · exact Consumes.fail _
          next c₂ s₂ heq₂ =>
            rw [heq₂, List.length_cons] at hws₁
            split
            · exact Consumes.ok (by omega)
            · refine ((ihMembers (c₂ :: s₂) (by simp; omega)).weaken s 1
                (by simp; omega)).bind fun members s₃ h₃ => Consumes.ok h₃
        · split
          · split
            · exact Consumes.fail _
            next c₂ s₂ heq₂ =>
              rw [heq₂, List.length_cons] at hws₁
              split
              · exact Consumes.ok (by omega)
              · refine ((ihElements (c₂ :: s₂) (by simp; omega)).weaken s 1
                  (by simp; omega)).bind fun elements s₃ h₃ => Consumes.ok h₃
          · split
            · exact ((parseString_consumes (Nat.lt_succ_self s₁.length)).weaken s 1
                (by omega)).bind fun data s₂ h₂ => Consumes.ok h₂
            · split
              · exact ((expectWord_consumes _ _ s₁).weaken s 1
                  (by omega)).bind fun _ s₂ h₂ => Consumes.ok h₂
              · split
                · exact ((expectWord_consumes _ _ s₁).weaken s 1
                    (by omega)).bind fun _ s₂ h₂ => Consumes.ok h₂
                · split
                  · exact ((expectWord_consumes _ _ s₁).weaken s 1
                      (by omega)).bind fun _ s₂ h₂ => Consumes.ok h₂
                  · exact ((parseNumber_consumes (c :: s₁)).weaken s 1
                      (by simp; omega)).bind fun data s₂ h₂ => Consumes.ok h₂
    · rw [parseElements]
      refine (ihValue s (by omega)).bind fun value s₁ h₁ => ?_
      have hws := length_skipWs s₁
      dsimp only
      split
      · exact Consumes.fail _
      next c s₂ heq =>
        rw [heq, List.length_cons] at hws
        split
        · exact ((ihElements s₂ (by omega)).weaken s 1 (by omega)).bind
            fun elements s₃ h₃ => Consumes.ok h₃
        · split
          · exact Consumes.ok (by omega)
          · exact Consumes.fail _
    · rw [parseMembers]
      have hws := length_skipWs s
      refine ((expect_consumes _ _ (skipWs s)).weaken s 1 (by omega)).bind
        fun _ s₁ h₁ => ?_
      refine ((parseString_consumes (Nat.lt_succ_self s₁.length)).weaken s 2
        (by omega)).bind fun key s₂ h₂ => ?_
      have hws₂ := length_skipWs s₂
      refine ((expect_consumes _ _ (skipWs s₂)).weaken s 3 (by omega)).bind
        fun _ s₃ h₃ => ?_
      refine ((ihValue s₃ (by omega)).weaken s 4 (by omega)).bind
        fun value s₄ h₄ => ?_
      have hws₄ := length_skipWs s₄
      dsimp only
      split
      · exact Consumes.fail _
      next c s₅ heq =>
        rw [heq, List.length_cons] at hws₄
        split
        · exact ((ihMembers s₅ (by omega)).weaken s 1 (by omega)).bind
            fun members s₆ h₆ => Consumes.ok h₆
        · split
          · exact Consumes.ok (by omega)
          · exact Consumes.fail _

/-- Every document is read to its end or to an error that the library reports. -/
theorem parseDocument_ne_outOfFuel (s : Str) : parseDocument s ≠ .error .outOfFuel := by
  intro h
  unfold parseDocument at h
  have hvalue := (values_consume _).1 (skipIntroduction s) (le_refl _)
  cases hv : parseValue (2 * (skipIntroduction s).length + 1) (skipIntroduction s) with
  | error e =>
    rw [hv] at h hvalue
    exact hvalue (Except.error.inj h)
  | ok p =>
    rw [hv] at h
    replace h : (if skipWs p.2 = [] then Except.ok p.1
      else .error (.parse "garbage after data")) = .error ReadError.outOfFuel := h
    split at h
    · cases h
    · cases h

theorem readJson_error {s : Str} {fault : Fault} (h : readJson s = .error fault) :
    ∃ message, parseDocument s = .error (.parse message) ∧ fault = .exception message := by
  unfold readJson at h
  split at h
  · cases h
  next message hp =>
    cases h
    exact ⟨message, hp, rfl⟩
  next hp => exact absurd hp (parseDocument_ne_outOfFuel s)

end Json
end SSVim
