/-
`read_json` of `write_json` of a tree is the tree.

The reader takes text as it comes from 0x80 on, as long as every lead byte is followed
by its trailing bytes, and the writer escapes nothing there.  So a string goes through
when it is `Encoded`, as UTF-8 is, and a tree when it verifies and all its strings do.
-/
import Mathlib.Data.List.DropRight
import SSVim.Json.Write

namespace SSVim
namespace Json

/-- A fact about every byte is checked on 256 values. -/
theorem forall_byte {P : UInt8 → Prop} (h : ∀ n : Fin 256, P (UInt8.ofNat n)) (b : UInt8) :
    P b := by
  have hb := h ⟨b.toNat, b.toNat_lt⟩
  rwa [show UInt8.ofNat b.toNat = b from UInt8.ofNat_toNat] at hb

/-! ## Encoded strings -/

/-- Every byte from `0x80` on is a lead byte or one of the trailing bytes it asks for. -/
inductive Encoded : Str → Prop where
  | nil : Encoded []
  | ascii {b : UInt8} {s : Str} (hb : b ≤ 0x7f) (hs : Encoded s) : Encoded (b :: s)
  | multibyte {b : UInt8} {units s : Str} (hlead : trailTable b = some units.length)
      (hunits : ∀ u ∈ units, isTrail u = true) (hs : Encoded s) : Encoded (b :: (units ++ s))

theorem encoded_of_ascii {s : Str} (h : ∀ b ∈ s, b ≤ 0x7f) : Encoded s := by
  induction s with
  | nil => exact .nil
  | cons b s ih =>
    rw [List.forall_mem_cons] at h
    exact .ascii h.1 (ih h.2)

theorem lit_encoded {s : String} (h : (s.toList.all fun c => c.toNat < 0x80) = true) :
    Encoded (lit s) := by
  refine encoded_of_ascii fun b hb => ?_
  obtain ⟨c, hc, rfl⟩ := List.mem_map.mp hb
  have hlt : c.toNat < 0x80 := of_decide_eq_true (List.all_eq_true.mp h c hc)
  rw [UInt8.le_iff_toNat_le, Nat.toUInt8, UInt8.toNat_ofNat', Nat.mod_eq_of_lt (by omega)]
  exact Nat.le_of_lt_succ hlt

/-- The bytes of a sequence of Unicode characters. -/
def ValidUtf8 (s : Str) : Prop := ∃ chars : List Char, s = chars.flatMap String.utf8EncodeChar

theorem trailTable_two : ∀ x < 32, trailTable (UInt8.ofNat (x + 192)) = some 1 := by decide

theorem trailTable_three : ∀ x < 16, trailTable (UInt8.ofNat (x + 224)) = some 2 := by decide

theorem trailTable_four : ∀ x < 8, trailTable (UInt8.ofNat (x + 240)) = some 3 := by decide

theorem isTrail_six : ∀ x < 64, isTrail (UInt8.ofNat (x + 128)) = true := by decide

theorem isTrail_sextet (x : Nat) : isTrail (UInt8.ofNat (x % 64 + 128)) = true :=
  isTrail_six _ (Nat.mod_lt _ (by decide))

/-- One more character, by the number of its bytes. -/
theorem Encoded.char (c : Char) {s : Str} (hs : Encoded s) :
    Encoded (String.utf8EncodeChar c ++ s) := by
  unfold String.utf8EncodeChar
  dsimp only
  split
  next h =>
    refine .ascii ?_ hs
    rw [UInt8.le_iff_toNat_le, UInt8.toNat_ofNat']
    exact Nat.le_trans (Nat.mod_le _ _) h
  · have htrail : ∀ x, ∀ u ∈ [UInt8.ofNat (x % 64 + 128)], isTrail u = true :=
      fun x => List.forall_mem_singleton.mpr (isTrail_sextet x)
    split
    · exact .multibyte (trailTable_two _ (Nat.mod_lt _ (by decide))) (htrail _) hs
    · split
      · exact .multibyte (trailTable_three _ (Nat.mod_lt _ (by decide)))
          (List.forall_mem_cons.mpr ⟨isTrail_sextet _, htrail _⟩) hs
      · exact .multibyte (trailTable_four _ (Nat.mod_lt _ (by decide)))
          (List.forall_mem_cons.mpr ⟨isTrail_sextet _,
            List.forall_mem_cons.mpr ⟨isTrail_sextet _, htrail _⟩⟩) hs

theorem ValidUtf8.encoded {s : Str} (h : ValidUtf8 s) : Encoded s := by
  obtain ⟨chars, rfl⟩ := h
  induction chars with
  | nil => exact .nil
  | cons c chars ih =>
    rw [List.flatMap_cons]
    exact ih.char c

/-! ## Strings -/

/-- How a byte below `0x80` is written: as itself, with a letter, or by its number. -/
theorem createEscape_cases : ∀ b : UInt8, b ≤ 0x7f →
    (createEscape b = [b] ∧ ¬ b < 0x20 ∧ b ≠ quote ∧ b ≠ backslash) ∨
    (createEscape b = [backslash, (createEscape b).getLastD nul] ∧
      escapeUnit ((createEscape b).getLastD nul) = some b) ∨
    (createEscape b = [backslash, letter 'u', hexdigit 0, hexdigit 0,
        hexdigit (b.toNat / 16), hexdigit (b.toNat % 16)] ∧ b.toNat < 0x20) := by
  refine forall_byte ?_
  decide +kernel

theorem createEscape_high : ∀ b : UInt8, ¬ b ≤ 0x7f → createEscape b = [b] := by
  refine forall_byte ?_
  decide +kernel

theorem decodeHexdigit_hexdigit : ∀ d < 16, decodeHexdigit (hexdigit d) = some d := by decide

theorem feedCodepoint_control : ∀ n < 0x20,
    isSurrogateLow n = false ∧ isSurrogateHigh n = false ∧ feedCodepoint n = [UInt8.ofNat n] := by
  decide

/-- What is written for a byte below `0x80` is read back as that byte. -/
theorem parsePiece_createEscape {b : UInt8} (hb : b ≤ 0x7f) :
    ∃ c written, createEscape b = c :: written ∧ c ≠ quote ∧
      ∀ rest, parsePiece c (written ++ rest) = .ok ([b], rest) := by
  rcases createEscape_cases b hb with ⟨hself, hlow, hquote, hslash⟩ | ⟨hletter, hunit⟩ |
    ⟨hnumber, hcontrol⟩
  · refine ⟨b, [], hself, hquote, fun rest => ?_⟩
    rw [parsePiece, if_neg hslash, transcodeCodepoint, if_pos hb, if_neg hlow]
    rfl
  · refine ⟨backslash, _, hletter, by decide, fun rest => ?_⟩
    rw [parsePiece, if_pos rfl]
    show parseEscape ((createEscape b).getLastD nul :: rest) = _
    rw [parseEscape, hunit]
  · refine ⟨backslash, _, hnumber, by decide, fun rest => ?_⟩
    obtain ⟨hlow, hhigh, hfeed⟩ := feedCodepoint_control b.toNat hcontrol
    have hquad : parseHexQuad 4 0 (hexdigit 0 :: hexdigit 0 :: hexdigit (b.toNat / 16) ::
        hexdigit (b.toNat % 16) :: rest) = .ok (b.toNat, rest) := by
      have hmod : b.toNat / 16 * 16 + b.toNat % 16 = b.toNat := Nat.div_add_mod' b.toNat 16
      simp only [parseHexQuad, decodeHexdigit_hexdigit 0 (by omega),
        decodeHexdigit_hexdigit (b.toNat / 16) (by omega),
        decodeHexdigit_hexdigit (b.toNat % 16) (by omega), Nat.zero_mul, Nat.zero_add, hmod]
    rw [parsePiece, if_pos rfl]
    show parseEscape (letter 'u' :: hexdigit 0 :: hexdigit 0 :: hexdigit (b.toNat / 16) ::
        hexdigit (b.toNat % 16) :: rest) = _
    rw [parseEscape, show escapeUnit (letter 'u') = none by decide]
    show (if letter 'u' = letter 'u' then parseCodepointRef _ else _) = _
    rw [if_pos rfl, parseCodepointRef, hquad]
    show (if isSurrogateLow b.toNat then _ else if isSurrogateHigh b.toNat then _ else _) = _
    rw [hlow, hhigh, hfeed, UInt8.ofNat_toNat]
    rfl

theorem takeTrailing_append {units : Str} (h : ∀ u ∈ units, isTrail u = true) (rest : Str) :
    takeTrailing units.length (units ++ rest) = .ok (units, rest) := by
  induction units with
  | nil => rfl
  | cons u units ih =>
    rw [List.forall_mem_cons] at h
    rw [List.length_cons, List.cons_append, takeTrailing, if_pos h.1, ih h.2]
    rfl

theorem createEscapes_high {units : Str} (h : ∀ u ∈ units, ¬ u ≤ 0x7f) (s : Str) :
    createEscapes (units ++ s) = units ++ createEscapes s := by
  induction units with
  | nil => rfl
  | cons u units ih =>
    rw [List.forall_mem_cons] at h
    rw [List.cons_append, createEscapes, List.flatMap_cons, createEscape_high u h.1]
    exact congrArg (u :: ·) (ih h.2)

theorem isTrail_high : ∀ u : UInt8, isTrail u = true → ¬ u ≤ 0x7f := by
  refine forall_byte ?_
  decide +kernel

theorem trailTable_high : ∀ b : UInt8, trailTable b ≠ none →
    ¬ b ≤ 0x7f ∧ b ≠ quote ∧ b ≠ backslash := by
  refine forall_byte ?_
  decide +kernel

/-- A string is read back up to the quote that ends it. -/
theorem parseString_createEscapes {s : Str} (h : Encoded s) (rest : Str) {n : Nat}
    (hn : (createEscapes s).length < n) :
    parseString n (createEscapes s ++ quote :: rest) = .ok (s, rest) := by
  induction h generalizing n with
  | nil =>
    obtain ⟨n, rfl⟩ : ∃ m, n = m + 1 := ⟨n - 1, by omega⟩
    rfl
  | @ascii b s hb hs ih =>
    -- One turn of the loop reads all that the escape of one byte wrote.
    obtain ⟨n, rfl⟩ : ∃ m, n = m + 1 := ⟨n - 1, by omega⟩
    obtain ⟨c, written, hescape, hquote, hpiece⟩ := parsePiece_createEscape hb
    rw [createEscapes, List.flatMap_cons, hescape] at hn ⊢
    have hlen : (createEscapes s).length < n := by
      rw [List.length_append, List.length_cons] at hn
      show (s.flatMap createEscape).length < n
      omega
    rw [List.cons_append, List.cons_append, List.append_assoc, parseString, if_neg hquote, hpiece]
    show (parseString n (createEscapes s ++ quote :: rest)).bind _ = _
    rw [ih hlen]
    rfl
  | @multibyte b units s hlead hunits hs ih =>
    obtain ⟨n, rfl⟩ : ∃ m, n = m + 1 := ⟨n - 1, by omega⟩
    obtain ⟨hhigh, hquote, hslash⟩ := trailTable_high b (by rw [hlead]; exact Option.some_ne_none _)
    have hescapes : createEscapes (b :: (units ++ s)) = b :: (units ++ createEscapes s) := by
      rw [← List.cons_append, createEscapes_high, List.cons_append]
      exact List.forall_mem_cons.mpr ⟨hhigh, fun u hu => isTrail_high u (hunits u hu)⟩
    rw [hescapes] at hn ⊢
    have hlen : (createEscapes s).length < n := by
      rw [List.length_cons, List.length_append] at hn
      omega
    rw [List.cons_append, List.append_assoc, parseString, if_neg hquote, parsePiece,
      if_neg hslash, transcodeCodepoint, if_neg hhigh, hlead]
    show ((takeTrailing units.length _).bind _).bind _ = _
    rw [takeTrailing_append hunits]
    show (parseString n (createEscapes s ++ quote :: rest)).bind _ = _
    rw [ih hlen]
    rfl

/-! ## White space -/

def Blank (s : Str) : Prop := ∀ b ∈ s, isWs b = true

theorem Blank.append {s s' : Str} (h : Blank s) (h' : Blank s') : Blank (s ++ s') := by
  intro b hb
  rcases List.mem_append.mp hb with hb | hb
  · exact h b hb
  · exact h' b hb

theorem blank_whenPretty (pretty : Bool) {s : Str} (h : Blank s) : Blank (whenPretty pretty s) := by
  cases pretty with
  | false => exact fun b hb => absurd hb List.not_mem_nil
  | true => exact h

theorem blank_newline (pretty : Bool) : Blank (whenPretty pretty [newline]) :=
  blank_whenPretty pretty (List.forall_mem_singleton.mpr rfl)

theorem blank_space (pretty : Bool) : Blank (whenPretty pretty [space]) :=
  blank_whenPretty pretty (List.forall_mem_singleton.mpr rfl)

theorem blank_indentation (pretty : Bool) (indent : Nat) :
    Blank (whenPretty pretty (indentation indent)) := by
  refine blank_whenPretty pretty fun b hb => ?_
  rw [List.eq_of_mem_replicate hb]
  rfl

theorem skipWs_append {lead : Str} (h : Blank lead) (s : Str) :
    skipWs (lead ++ s) = skipWs s := List.dropWhile_append_of_pos h

theorem skipWs_cons {c : UInt8} (h : isWs c = false) (s : Str) : skipWs (c :: s) = c :: s :=
  List.dropWhile_cons_of_neg (by rw [h]; exact Bool.false_ne_true)

theorem skipWs_skipWs (s : Str) : skipWs (skipWs s) = skipWs s := List.dropWhile_idempotent _ _

theorem parseValue_skipWs (n : Nat) (s : Str) : parseValue n (skipWs s) = parseValue n s := by
  cases n with
  | zero => rfl
  | succ n => rw [parseValue, parseValue, skipWs_skipWs]

theorem parseValue_append (n : Nat) {lead : Str} (h : Blank lead) (s : Str) :
    parseValue n (lead ++ s) = parseValue n s := by
  rw [← parseValue_skipWs, skipWs_append h, parseValue_skipWs]

theorem parseElements_skipWs (n : Nat) (s : Str) :
    parseElements n (skipWs s) = parseElements n s := by
  cases n with
  | zero => rfl
  | succ n => rw [parseElements, parseElements, parseValue_skipWs]

theorem parseMembers_skipWs (n : Nat) (s : Str) :
    parseMembers n (skipWs s) = parseMembers n s := by
  cases n with
  | zero => rfl
  | succ n => rw [parseMembers, parseMembers, skipWs_skipWs]

/-! ## What the reader makes of each shape -/

section
variable {n : Nat} {s rest lead : Str} {value : PTree}

theorem parseValue_quoted {data : Str} (h : Encoded data) :
    parseValue (n + 1) (quoted data ++ rest) = .ok (leaf data, rest) := by
  have hstring : parseString ((createEscapes data ++ quote :: rest).length + 1)
      (createEscapes data ++ quote :: rest) = .ok (data, rest) := by
    refine parseString_createEscapes h rest ?_
    rw [List.length_append]
    omega
  rw [quoted_append, parseValue, skipWs_cons (by decide)]
  dsimp only
  rw [if_neg (by decide), if_neg (by decide), if_pos rfl, hstring]
  rfl

theorem parseValue_array {c : UInt8} {s' : Str} {elements : List (Str × PTree)}
    (hhead : skipWs s = c :: s') (hc : c ≠ closeBracket)
    (h : parseElements n s = .ok (elements, rest)) :
    parseValue (n + 1) (openBracket :: s) = .ok (.node [] elements, rest) := by
  rw [← parseElements_skipWs, hhead] at h
  rw [parseValue, skipWs_cons (by decide)]
  dsimp only
  rw [if_neg (by decide), if_pos rfl, hhead]
  dsimp only
  rw [if_neg hc, h]
  rfl

theorem parseValue_object {c : UInt8} {s' : Str} {members : List (Str × PTree)}
    (hhead : skipWs s = c :: s') (hc : c ≠ closeBrace)
    (h : parseMembers n s = .ok (members, rest)) :
    parseValue (n + 1) (openBrace :: s) = .ok (.node [] members, rest) := by
  rw [← parseMembers_skipWs, hhead] at h
  rw [parseValue, skipWs_cons (by decide)]
  dsimp only
  rw [if_pos rfl, hhead]
  dsimp only
  rw [if_neg hc, h]
  rfl

theorem parseValue_emptyObject (hlead : Blank lead) :
    parseValue (n + 1) (openBrace :: (lead ++ closeBrace :: rest)) = .ok (.node [] [], rest) := by
  rw [parseValue, skipWs_cons (by decide)]
  dsimp only
  rw [if_pos rfl, skipWs_append hlead, skipWs_cons (by decide)]
  rfl

/-- What is left of a list after an item: the bracket that closes it, or a comma and the
items to come. -/
inductive GoesOn (close : UInt8) (parse : Str → Except ReadError (List (Str × PTree) × Str))
    (rest : Str) : Str → List (Str × PTree) → Prop where
  | close {lead : Str} (hlead : Blank lead) : GoesOn close parse rest (lead ++ close :: rest) []
  | comma {s : Str} {items : List (Str × PTree)} (hitems : parse s = .ok (items, rest)) :
      GoesOn close parse rest (comma :: s) items

theorem parseElements_item {after : Str} {elements : List (Str × PTree)}
    (h : parseValue n s = .ok (value, after))
    (hafter : GoesOn closeBracket (parseElements n) rest after elements) :
    parseElements (n + 1) s = .ok (([], value) :: elements, rest) := by
  rw [parseElements, h]
  dsimp only [bind, Except.bind]
  cases hafter with
  | close hlead =>
    rw [skipWs_append hlead, skipWs_cons (by decide)]
    rfl
  | comma hitems =>
    rw [skipWs_cons (by decide)]
    dsimp only
    rw [if_pos rfl, hitems]
    rfl

/-- The name of a member and its colon. -/
theorem expect_key {key : Str} (hkey : Encoded key) (hlead : Blank lead) :
    expect quote "expected key string" (skipWs (lead ++ (quoted key ++ colon :: s))) =
        .ok ((), createEscapes key ++ quote :: colon :: s) ∧
      parseString ((createEscapes key ++ quote :: colon :: s).length + 1)
        (createEscapes key ++ quote :: colon :: s) = .ok (key, colon :: s) ∧
      expect colon "expected ':'" (skipWs (colon :: s)) = .ok ((), s) := by
  refine ⟨?_, parseString_createEscapes hkey _ ?_, ?_⟩
  · rw [quoted_append, skipWs_append hlead, skipWs_cons (by decide), expect, if_pos rfl]
  · rw [List.length_append]
    omega
  · rw [skipWs_cons (by decide), expect, if_pos rfl]

theorem parseMembers_item {key after : Str} {members : List (Str × PTree)} (hkey : Encoded key)
    (hlead : Blank lead) (h : parseValue n s = .ok (value, after))
    (hafter : GoesOn closeBrace (parseMembers n) rest after members) :
    parseMembers (n + 1) (lead ++ (quoted key ++ colon :: s)) =
      .ok ((key, value) :: members, rest) := by
  obtain ⟨hquote, hstring, hcolon⟩ := expect_key hkey hlead (s := s)
  rw [parseMembers, hquote]
  dsimp only [bind, Except.bind]
  rw [hstring]
  dsimp only
  rw [hcolon]
  dsimp only
  rw [h]
  cases hafter with
  | close hlead' =>
    dsimp only
    rw [skipWs_append hlead', skipWs_cons (by decide)]
    rfl
  | comma hitems =>
    dsimp only
    rw [skipWs_cons (by decide)]
    dsimp only
    rw [if_pos rfl, hitems]
    rfl

end

/-! ## Trees -/

mutual

/-- Every name and all data of the tree satisfy `P`. -/
def PTree.All (P : Str → Prop) : PTree → Prop
  | .node data children => P data ∧ AllChildren P children

def AllChildren (P : Str → Prop) : List (Str × PTree) → Prop
  | [] => True
  | (key, child) :: rest => P key ∧ child.All P ∧ AllChildren P rest

end

theorem leaf_all {P : Str → Prop} {data : Str} (h : P data) : (leaf data).All P := by
  rw [leaf, PTree.All]
  exact ⟨h, trivial⟩

theorem verifyJson_node {depth : Nat} {data : Str} {children : List (Str × PTree)}
    (h : verifyJson depth (.node data children) = true) :
    (depth = 0 → data = []) ∧ (children ≠ [] → data = []) ∧
      verifyChildren depth children = true := by
  rw [verifyJson] at h
  simp only [Bool.and_eq_true, Bool.not_eq_true', Bool.and_eq_false_iff, beq_eq_false_iff_ne,
    Bool.not_eq_false', List.isEmpty_iff] at h
  obtain ⟨⟨hroot, hboth⟩, hchildren⟩ := h
  exact ⟨fun h0 => hroot.resolve_left fun hne => hne h0,
    fun hne => hboth.resolve_right hne, hchildren⟩

/-- A written value starts with a quote, a bracket or a brace. -/
theorem writeJsonHelper_head (pretty : Bool) (indent : Nat) (pt : PTree) :
    ∃ c written, writeJsonHelper pretty indent pt = c :: written ∧ isWs c = false ∧
      c ≠ closeBracket := by
  obtain ⟨data, children⟩ := pt
  rw [writeJsonHelper]
  split
  · exact ⟨quote, _, rfl, by decide, by decide⟩
  · split
    · exact ⟨openBracket, _, rfl, by decide, by decide⟩
    · exact ⟨openBrace, _, rfl, by decide, by decide⟩

theorem separator_nil : separator [] = [] := rfl

theorem separator_cons (child : Str × PTree) (children : List (Str × PTree)) :
    separator (child :: children) = [comma] := rfl

theorem skipWs_writeElements (pretty : Bool) (indent : Nat) (child : Str × PTree)
    (children : List (Str × PTree)) (s : Str) :
    ∃ c s', skipWs (writeElements pretty indent (child :: children) ++ s) = c :: s' ∧
      c ≠ closeBracket := by
  obtain ⟨c, written, hwritten, hws, hc⟩ := writeJsonHelper_head pretty (indent + 1) child.2
  rw [writeElements, List.append_assoc, skipWs_append (blank_indentation _ _), hwritten,
    List.cons_append, List.cons_append, skipWs_cons hws]
  exact ⟨c, _, rfl, hc⟩

theorem skipWs_writeMembers (pretty : Bool) (indent : Nat) (child : Str × PTree)
    (children : List (Str × PTree)) (s : Str) :
    ∃ s', skipWs (writeMembers pretty indent (child :: children) ++ s) = quote :: s' := by
  rw [writeMembers, List.append_assoc, skipWs_append (blank_indentation _ _), List.append_assoc,
    quoted_append, skipWs_cons (by decide)]
  exact ⟨_, rfl⟩

/-! ## The round trip

The fuel that `n` stands for is two units for each byte that is written, as for the
reader by itself. -/

def ReadsValues (pretty : Bool) (n : Nat) : Prop :=
  ∀ indent pt rest, verifyJson indent pt = true → pt.All Encoded →
    2 * (writeJsonHelper pretty indent pt).length + 1 ≤ n →
    parseValue n (writeJsonHelper pretty indent pt ++ rest) = .ok (pt, rest)

def ReadsElements (pretty : Bool) (n : Nat) : Prop :=
  ∀ indent child children lead lead' rest, verifyChildren indent (child :: children) = true →
    AllChildren Encoded (child :: children) → (∀ c ∈ child :: children, c.1 = []) →
    Blank lead → Blank lead' →
    2 * (writeElements pretty indent (child :: children)).length + 2 ≤ n →
    parseElements n (lead ++ (writeElements pretty indent (child :: children) ++
      (lead' ++ closeBracket :: rest))) = .ok (child :: children, rest)

def ReadsMembers (pretty : Bool) (n : Nat) : Prop :=
  ∀ indent child children lead lead' rest, verifyChildren indent (child :: children) = true →
    AllChildren Encoded (child :: children) → Blank lead → Blank lead' →
    2 * (writeMembers pretty indent (child :: children)).length + 2 ≤ n →
    parseMembers n (lead ++ (writeMembers pretty indent (child :: children) ++
      (lead' ++ closeBrace :: rest))) = .ok (child :: children, rest)

section
variable {pretty : Bool} {n : Nat}

theorem readsValues_succ (he : ReadsElements pretty n) (hm : ReadsMembers pretty n) :
    ReadsValues pretty (n + 1) := by
  intro indent ⟨data, children⟩ rest hverify ⟨hdata, hchildren⟩ hn
  obtain ⟨hroot, hboth, hbelow⟩ := verifyJson_node hverify
  cases children with
  | nil =>
    -- A node below the root is written as a string, and the root as an object.
    by_cases hi : 0 < indent
    · rw [writeJsonHelper_leaf pretty indent hi, parseValue_quoted hdata]
      rfl
    · have hzero : indent = 0 := by omega
      rw [writeJsonHelper_object pretty indent data (Or.inl hzero), hroot hzero, writeMembers,
        List.nil_append, List.cons_append, List.append_assoc, List.append_assoc,
        List.singleton_append, ← List.append_assoc]
      exact parseValue_emptyObject ((blank_newline _).append (blank_indentation _ _))
  | cons child children =>
    have hdata := hboth (List.cons_ne_nil _ _)
    subst hdata
    by_cases harray : 0 < indent ∧ ∀ c ∈ child :: children, c.1 = []
    · rw [writeJsonHelper_array pretty indent harray.1 [] (List.cons_ne_nil _ _) harray.2] at hn ⊢
      have hread := he indent child children (whenPretty pretty [newline])
        (whenPretty pretty (indentation indent)) rest hbelow hchildren harray.2
        (blank_newline _) (blank_indentation _ _) (by simp at hn; omega)
      obtain ⟨c, s', hhead, hc⟩ := skipWs_writeElements pretty indent child children
        (whenPretty pretty (indentation indent) ++ closeBracket :: rest)
      rw [← skipWs_append (blank_newline pretty)] at hhead
      rw [List.cons_append, List.append_assoc, List.append_assoc, List.append_assoc,
        List.singleton_append]
      exact parseValue_array hhead hc hread
    · have hobject : indent = 0 ∨ ∃ c ∈ child :: children, c.1 ≠ [] := by
        by_contra hno
        rw [not_or] at hno
        refine harray ⟨by omega, fun c hc => ?_⟩
        by_contra hne
        exact hno.2 ⟨c, hc, hne⟩
      rw [writeJsonHelper_object pretty indent [] hobject] at hn ⊢
      have hread := hm indent child children (whenPretty pretty [newline])
        (whenPretty pretty (indentation indent)) rest hbelow hchildren
        (blank_newline _) (blank_indentation _ _) (by simp at hn; omega)
      obtain ⟨s', hhead⟩ := skipWs_writeMembers pretty indent child children
        (whenPretty pretty (indentation indent) ++ closeBrace :: rest)
      rw [← skipWs_append (blank_newline pretty)] at hhead
      rw [List.cons_append, List.append_assoc, List.append_assoc, List.append_assoc,
        List.singleton_append]
      exact parseValue_object hhead (by decide) hread

theorem readsElements_succ (hv : ReadsValues pretty n) (he : ReadsElements pretty n) :
    ReadsElements pretty (n + 1) := by
  intro indent ⟨key, pt⟩ children lead lead' rest hverify ⟨_, hpt, hchildren⟩ hkeys hlead hlead' hn
  rw [verifyChildren, Bool.and_eq_true] at hverify
  have hkey : key = [] := hkeys _ List.mem_cons_self
  subst hkey
  rw [writeElements] at hn ⊢
  simp only [List.length_append] at hn
  have hvalue : ∀ after, parseValue n (lead ++ (whenPretty pretty (indentation (indent + 1)) ++
      (writeJsonHelper pretty (indent + 1) pt ++ after))) = .ok (pt, after) := by
    intro after
    rw [parseValue_append n hlead, parseValue_append n (blank_indentation _ _)]
    exact hv (indent + 1) pt after hverify.1 hpt (by omega)
  simp only [List.append_assoc]
  cases children with
  | nil =>
    rw [separator_nil, writeElements, List.nil_append, List.nil_append, ← List.append_assoc _ lead']
    exact parseElements_item (hvalue _) (.close ((blank_newline _).append hlead'))
  | cons child children =>
    rw [separator_cons, List.singleton_append]
    have hmore := he indent child children (whenPretty pretty [newline]) lead' rest hverify.2
      hchildren (fun c hc => hkeys c (List.mem_cons_of_mem _ hc)) (blank_newline _) hlead'
      (by rw [separator_cons, List.length_singleton] at hn; omega)
    exact parseElements_item (hvalue _) (.comma hmore)

theorem readsMembers_succ (hv : ReadsValues pretty n) (hm : ReadsMembers pretty n) :
    ReadsMembers pretty (n + 1) := by
  intro indent ⟨key, pt⟩ children lead lead' rest hverify ⟨hkey, hpt, hchildren⟩ hlead hlead' hn
  rw [verifyChildren, Bool.and_eq_true] at hverify
  rw [writeMembers] at hn ⊢
  simp only [List.length_append, List.length_cons] at hn
  have hlead := hlead.append (blank_indentation pretty (indent + 1))
  have hvalue : ∀ after, parseValue n (whenPretty pretty [space] ++
      (writeJsonHelper pretty (indent + 1) pt ++ after)) = .ok (pt, after) := by
    intro after
    rw [parseValue_append n (blank_space _)]
    exact hv (indent + 1) pt after hverify.1 hpt (by omega)
  simp only [List.append_assoc, List.cons_append]
  rw [← List.append_assoc lead]
  cases children with
  | nil =>
    rw [separator_nil, writeMembers, List.nil_append, List.nil_append, ← List.append_assoc _ lead']
    exact parseMembers_item hkey hlead (hvalue _) (.close ((blank_newline _).append hlead'))
  | cons child children =>
    rw [separator_cons, List.singleton_append]
    have hmore := hm indent child children (whenPretty pretty [newline]) lead' rest hverify.2
      hchildren (blank_newline _) hlead'
      (by rw [separator_cons, List.length_singleton] at hn; omega)
    exact parseMembers_item hkey hlead (hvalue _) (.comma hmore)

/-- By induction on the fuel, which a value passes on to the list that it opens and a
list to each value and to what is left of it. -/
theorem reads (pretty : Bool) (n : Nat) :
    ReadsValues pretty n ∧ ReadsElements pretty n ∧ ReadsMembers pretty n := by
  induction n with
  | zero =>
    refine ⟨?_, ?_, ?_⟩
    · intro indent pt rest _ _ hn
      omega
    · intro indent child children lead lead' rest _ _ _ _ _ hn
      omega
    · intro indent child children lead lead' rest _ _ _ _ hn
      omega
  | succ n ih =>
    obtain ⟨hv, he, hm⟩ := ih
    exact ⟨readsValues_succ he hm, readsElements_succ hv he, readsMembers_succ hv hm⟩

end

/-- The reader gives back every tree that is written. -/
theorem readJson_writeJson {pt : PTree} (hverify : verifyJson 0 pt = true) (hall : pt.All Encoded)
    (pretty : Bool) : ∃ text, writeJson pt pretty = .ok text ∧ readJson text = .ok pt := by
  refine ⟨_, if_pos hverify, ?_⟩
  have hintro : skipIntroduction (writeJsonHelper pretty 0 pt ++ [newline]) =
      writeJsonHelper pretty 0 pt ++ [newline] := by
    obtain ⟨data, children⟩ := pt
    rw [writeJsonHelper_object pretty 0 data (Or.inl rfl), List.cons_append, skipIntroduction,
      if_neg (by decide)]
  have hvalue : parseValue (2 * (writeJsonHelper pretty 0 pt ++ [newline]).length + 1)
      (writeJsonHelper pretty 0 pt ++ [newline]) = .ok (pt, [newline]) := by
    refine (reads pretty _).1 0 pt [newline] hverify hall ?_
    rw [List.length_append]
    omega
  rw [readJson, parseDocument, hintro, hvalue]
  rfl

end Json
end SSVim
