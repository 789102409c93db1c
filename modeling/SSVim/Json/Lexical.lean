/-
The numbers and the strings that the reader takes, as a grammar.

Each production relates a text to what it stands for, and for each of them there are two
lemmas: what the scanner takes is derived, and what is derived the scanner takes.  The
scanner is greedy and a number has no mark at its end, so the second needs a condition on
what follows.  Strings are looser than in JSON: bytes from 0x80 on only have to come with
the number of trailing bytes they ask for.
-/
import SSVim.Json.RoundTrip

namespace SSVim
namespace Json

/-- A function of the reader goes on with what the one before it returned. -/
theorem read_bind_eq_ok {α β : Type} {x : Except ReadError α} {f : α → Except ReadError β} {b : β}
    (h : x >>= f = .ok b) : ∃ a, x = .ok a ∧ f a = .ok b := by
  cases x with
  | error e => cases h
  | ok a => exact ⟨a, rfl, h⟩

/-! ## Numbers -/

def AllDigits (s : Str) : Prop := ∀ b ∈ s, isDigit b = true

inductive IntPart : Str → Prop where
  | zero : IntPart [letter '0']
  | digits {d : UInt8} {ds : Str} (hd : isDigit d = true) (hne : d ≠ letter '0')
      (hds : AllDigits ds) : IntPart (d :: ds)

inductive FracPart : Str → Prop where
  | absent : FracPart []
  | present {ds : Str} (hne : ds ≠ []) (hds : AllDigits ds) : FracPart (letter '.' :: ds)

inductive ExpPart : Str → Prop where
  | absent : ExpPart []
  | present {e : UInt8} {sign ds : Str} (he : e = letter 'e' ∨ e = letter 'E')
      (hsign : sign = [] ∨ sign = [plusSign] ∨ sign = [minusSign]) (hne : ds ≠ [])
      (hds : AllDigits ds) : ExpPart (e :: (sign ++ ds))

inductive Number : Str → Prop where
  | mk {sign int frac exp : Str} (hsign : sign = [] ∨ sign = [minusSign]) (hint : IntPart int)
      (hfrac : FracPart frac) (hexp : ExpPart exp) : Number (sign ++ (int ++ frac ++ exp))

/-- What a scanner that takes every digit leaves. -/
def NoDigit (s : Str) : Prop := ∀ c ∈ s.head?, isDigit c = false

/-- What may follow a number: nothing that the number could go on with. -/
def EndsNumber (s : Str) : Prop :=
  ∀ c ∈ s.head?, isDigit c = false ∧ c ≠ letter '.' ∧ c ≠ letter 'e' ∧ c ≠ letter 'E'

section
variable {s rest text : Str} {message : String}

theorem EndsNumber.noDigit (h : EndsNumber s) : NoDigit s := fun c hc => (h c hc).1

theorem takeWhile_append_rest (s : Str) : s.takeWhile isDigit ++ s.dropWhile isDigit = s :=
  List.takeWhile_append_dropWhile

theorem takeWhile_allDigits (s : Str) : AllDigits (s.takeWhile isDigit) :=
  fun _ hb => List.mem_takeWhile_imp hb

/-- A run of digits is taken up to what follows it. -/
theorem digits_append {ds : Str} (hds : AllDigits ds) (hrest : NoDigit rest) :
    (ds ++ rest).takeWhile isDigit = ds ∧ (ds ++ rest).dropWhile isDigit = rest := by
  rw [List.takeWhile_append_of_pos hds, List.dropWhile_append_of_pos hds]
  cases rest with
  | nil => exact ⟨List.append_nil _, rfl⟩
  | cons c rest =>
    have hc : ¬ isDigit c = true := by
      rw [hrest c rfl]
      exact Bool.false_ne_true
    rw [List.takeWhile_cons_of_neg hc, List.dropWhile_cons_of_neg hc]
    exact ⟨List.append_nil _, rfl⟩

theorem expectDigits_sound (h : expectDigits message s = .ok (text, rest)) :
    text ≠ [] ∧ AllDigits text ∧ s = text ++ rest := by
  unfold expectDigits at h
  split at h
  · cases h
  next hne =>
    cases h
    exact ⟨hne, takeWhile_allDigits s, (takeWhile_append_rest s).symm⟩

theorem expectDigits_complete (hne : text ≠ []) (hds : AllDigits text) (hrest : NoDigit rest) :
    expectDigits message (text ++ rest) = .ok (text, rest) := by
  obtain ⟨htake, hdrop⟩ := digits_append hds hrest
  unfold expectDigits
  rw [htake, hdrop]
  split
  · exact absurd rfl hne
  · rfl

theorem parseIntPart_sound (h : parseIntPart message s = .ok (text, rest)) :
    IntPart text ∧ s = text ++ rest := by
  cases s with
  | nil => cases h
  | cons c s =>
    rw [parseIntPart] at h
    split at h
    next hc =>
      cases h
      rw [hc]
      exact ⟨.zero, rfl⟩
    next hne =>
      split at h
      next hd =>
        cases h
        exact ⟨.digits hd hne (takeWhile_allDigits s),
          congrArg (c :: ·) (takeWhile_append_rest s).symm⟩
      · cases h

theorem parseIntPart_complete (ht : IntPart text) (hrest : NoDigit rest) :
    parseIntPart message (text ++ rest) = .ok (text, rest) := by
  cases ht with
  | zero => rfl
  | @digits d ds hd hne hds =>
    obtain ⟨htake, hdrop⟩ := digits_append hds hrest
    rw [List.cons_append, parseIntPart, if_neg hne, if_pos hd, parseDigits, htake, hdrop]

theorem parseFracPart_sound (h : parseFracPart s = .ok (text, rest)) :
    FracPart text ∧ s = text ++ rest := by
  cases s with
  | nil =>
    cases h
    exact ⟨.absent, rfl⟩
  | cons c s =>
    rw [parseFracPart] at h
    split at h
    next hc =>
      obtain ⟨⟨digits, rest'⟩, hdigits, h⟩ := read_bind_eq_ok h
      cases h
      obtain ⟨hne, hds, rfl⟩ := expectDigits_sound hdigits
      rw [hc]
      exact ⟨.present hne hds, rfl⟩
    · cases h
      exact ⟨.absent, rfl⟩

theorem parseFracPart_complete (ht : FracPart text) (hrest : NoDigit rest)
    (hdot : ∀ c ∈ rest.head?, c ≠ letter '.') :
    parseFracPart (text ++ rest) = .ok (text, rest) := by
  cases ht with
  | absent =>
    cases rest with
    | nil => rfl
    | cons c rest => rw [List.nil_append, parseFracPart, if_neg (hdot c rfl)]
  | @present ds hne hds =>
    rw [List.cons_append, parseFracPart, if_pos rfl, expectDigits_complete hne hds hrest]
    rfl

theorem exponentSign_sound (s : Str) :
    ((exponentSign s).1 = [] ∨ (exponentSign s).1 = [plusSign] ∨
      (exponentSign s).1 = [minusSign]) ∧ s = (exponentSign s).1 ++ (exponentSign s).2 := by
  cases s with
  | nil => exact ⟨Or.inl rfl, rfl⟩
  | cons c s =>
    rw [exponentSign]
    split
    next hc =>
      rcases hc with rfl | rfl
      · exact ⟨Or.inr (Or.inl rfl), rfl⟩
      · exact ⟨Or.inr (Or.inr rfl), rfl⟩
    · exact ⟨Or.inl rfl, rfl⟩

theorem isDigit_sign : isDigit plusSign = false ∧ isDigit minusSign = false := by decide

theorem exponentSign_complete {sign ds : Str}
    (hsign : sign = [] ∨ sign = [plusSign] ∨ sign = [minusSign]) (hds : AllDigits ds)
    (hne : ds ≠ []) (rest : Str) :
    exponentSign (sign ++ (ds ++ rest)) = (sign, ds ++ rest) := by
  rcases hsign with rfl | rfl | rfl
  · cases ds with
    | nil => exact absurd rfl hne
    | cons d ds =>
      have hd := hds d List.mem_cons_self
      rw [List.nil_append, List.cons_append, exponentSign, if_neg]
      rintro (rfl | rfl)
      · rw [isDigit_sign.1] at hd
        cases hd
      · rw [isDigit_sign.2] at hd
        cases hd
  · rfl
  · rfl

theorem parseExpPart_sound (h : parseExpPart s = .ok (text, rest)) :
    ExpPart text ∧ s = text ++ rest := by
  cases s with
  | nil =>
    cases h
    exact ⟨.absent, rfl⟩
  | cons c s =>
    rw [parseExpPart] at h
    split at h
    next hc =>
      obtain ⟨⟨digits, rest'⟩, hdigits, h⟩ := read_bind_eq_ok h
      cases h
      obtain ⟨hne, hds, hrest⟩ := expectDigits_sound hdigits
      obtain ⟨hsign, hs⟩ := exponentSign_sound s
      refine ⟨.present hc hsign hne hds, ?_⟩
      rw [hrest] at hs
      rw [List.cons_append, List.append_assoc, ← hs]
    · cases h
      exact ⟨.absent, rfl⟩

theorem parseExpPart_complete (ht : ExpPart text) (hrest : EndsNumber rest) :
    parseExpPart (text ++ rest) = .ok (text, rest) := by
  cases ht with
  | absent =>
    cases rest with
    | nil => rfl
    | cons c rest =>
      obtain ⟨-, -, he, hE⟩ := hrest c rfl
      rw [List.nil_append, parseExpPart, if_neg (not_or.mpr ⟨he, hE⟩)]
  | @present e sign ds he hsign hne hds =>
    rw [List.cons_append, List.append_assoc, parseExpPart, if_pos he,
      exponentSign_complete hsign hds hne, expectDigits_complete hne hds hrest.noDigit]
    rfl

theorem EndsNumber.append_fracPart (hrest : EndsNumber rest) {exp : Str} (hexp : ExpPart exp) :
    NoDigit (exp ++ rest) ∧ ∀ c ∈ (exp ++ rest).head?, c ≠ letter '.' := by
  cases hexp with
  | absent => exact ⟨hrest.noDigit, fun c hc => (hrest c hc).2.1⟩
  | present he =>
    rcases he with rfl | rfl
    · exact ⟨by rintro c ⟨⟩; decide, by rintro c ⟨⟩; decide⟩
    · exact ⟨by rintro c ⟨⟩; decide, by rintro c ⟨⟩; decide⟩

theorem noDigit_fracPart {frac after : Str} (hfrac : FracPart frac) (hafter : NoDigit after) :
    NoDigit (frac ++ after) := by
  cases hfrac with
  | absent => exact hafter
  | present => rintro c ⟨⟩; decide

theorem parseUnsigned_sound (h : parseUnsigned message s = .ok (text, rest)) :
    ∃ int frac exp, IntPart int ∧ FracPart frac ∧ ExpPart exp ∧ text = int ++ frac ++ exp ∧
      s = text ++ rest := by
  obtain ⟨⟨int, s₁⟩, hint, h⟩ := read_bind_eq_ok h
  obtain ⟨⟨frac, s₂⟩, hfrac, h⟩ := read_bind_eq_ok h
  obtain ⟨⟨exp, s₃⟩, hexp, h⟩ := read_bind_eq_ok h
  cases h
  obtain ⟨hi, rfl⟩ := parseIntPart_sound hint
  obtain ⟨hf, rfl⟩ := parseFracPart_sound hfrac
  obtain ⟨he, rfl⟩ := parseExpPart_sound hexp
  exact ⟨int, frac, exp, hi, hf, he, rfl, by simp only [List.append_assoc]⟩

theorem parseUnsigned_complete {int frac exp : Str} (hint : IntPart int) (hfrac : FracPart frac)
    (hexp : ExpPart exp) (hrest : EndsNumber rest) :
    parseUnsigned message (int ++ frac ++ exp ++ rest) = .ok (int ++ frac ++ exp, rest) := by
  obtain ⟨hdigit, hdot⟩ := hrest.append_fracPart hexp
  rw [List.append_assoc, List.append_assoc, parseUnsigned,
    parseIntPart_complete hint (noDigit_fracPart hfrac hdigit)]
  dsimp only [bind, Except.bind]
  rw [parseFracPart_complete hfrac hdigit hdot]
  dsimp only
  rw [parseExpPart_complete hexp hrest]
  rfl

theorem intPart_head {int : Str} (hint : IntPart int) :
    ∃ d ds, int = d :: ds ∧ isDigit d = true := by
  cases hint with
  | zero => exact ⟨_, _, rfl, rfl⟩
  | digits hd => exact ⟨_, _, rfl, hd⟩

theorem parseNumber_sound (h : parseNumber s = .ok (text, rest)) :
    Number text ∧ s = text ++ rest := by
  cases s with
  | nil => cases h
  | cons c s =>
    rw [parseNumber] at h
    split at h
    next hc =>
      obtain ⟨⟨digits, s₁⟩, hdigits, h⟩ := read_bind_eq_ok h
      cases h
      obtain ⟨int, frac, exp, hint, hfrac, hexp, rfl, rfl⟩ := parseUnsigned_sound hdigits
      rw [hc]
      exact ⟨.mk (Or.inr rfl) hint hfrac hexp, rfl⟩
    · obtain ⟨int, frac, exp, hint, hfrac, hexp, rfl, hs⟩ := parseUnsigned_sound h
      exact ⟨.mk (Or.inl rfl) hint hfrac hexp, hs⟩

theorem parseNumber_complete (ht : Number text) (hrest : EndsNumber rest) :
    parseNumber (text ++ rest) = .ok (text, rest) := by
  obtain @⟨sign, int, frac, exp, hsign, hint, hfrac, hexp⟩ := ht
  rcases hsign with rfl | rfl
  · have hall : parseUnsigned "expected value" (int ++ frac ++ exp ++ rest) =
        .ok (int ++ frac ++ exp, rest) := parseUnsigned_complete hint hfrac hexp hrest
    obtain ⟨d, ds, rfl, hd⟩ := intPart_head hint
    rw [List.nil_append]
    simp only [List.cons_append] at hall ⊢
    rw [parseNumber, if_neg, hall]
    rintro rfl
    rw [isDigit_sign.2] at hd
    cases hd
  · rw [List.append_assoc, List.singleton_append, parseNumber, if_pos rfl,
      parseUnsigned_complete hint hfrac hexp hrest]
    rfl

end

/-! ## Strings -/

/-- Four hexadecimal digits and the number they write. -/
inductive HexQuad : Str → Nat → Prop where
  | mk {a b c d : UInt8} {x y z w : Nat} (ha : decodeHexdigit a = some x)
      (hb : decodeHexdigit b = some y) (hc : decodeHexdigit c = some z)
      (hd : decodeHexdigit d = some w) : HexQuad [a, b, c, d] (((x * 16 + y) * 16 + z) * 16 + w)

/-- One character of a string as it is spelled, and its code units. -/
inductive Piece : Str → Str → Prop where
  | plain {c : UInt8} (hlow : ¬ c < 0x20) (hhigh : c ≤ 0x7f) (hquote : c ≠ quote)
      (hslash : c ≠ backslash) : Piece [c] [c]
  | multibyte {c : UInt8} {units : Str} (hlead : trailTable c = some units.length)
      (hunits : ∀ u ∈ units, isTrail u = true) : Piece (c :: units) (c :: units)
  | escape {c unit : UInt8} (h : escapeUnit c = some unit) : Piece [backslash, c] [unit]
  | codepoint {quad : Str} {n : Nat} (hquad : HexQuad quad n) (hlow : isSurrogateLow n = false)
      (hhigh : isSurrogateHigh n = false) :
      Piece (backslash :: letter 'u' :: quad) (feedCodepoint n)
  | surrogates {quad quad' : Str} {high low : Nat} (hquad : HexQuad quad high)
      (hquad' : HexQuad quad' low) (hstray : isSurrogateLow high = false)
      (hhigh : isSurrogateHigh high = true) (hlow : isSurrogateLow low = true) :
      Piece (backslash :: letter 'u' :: (quad ++ backslash :: letter 'u' :: quad'))
        (feedCodepoint (combineSurrogates high low))

/-- What stands between the quotes of a string, and its code units. -/
inductive Chars : Str → Str → Prop where
  | nil : Chars [] []
  | cons {text units more units' : Str} (h : Piece text units) (hmore : Chars more units') :
      Chars (text ++ more) (units ++ units')

section
variable {s rest text units : Str}

theorem parseHexQuad_succ {k codepoint n : Nat}
    (h : parseHexQuad (k + 1) codepoint s = .ok (n, rest)) :
    ∃ c v s', s = c :: s' ∧ decodeHexdigit c = some v ∧
      parseHexQuad k (codepoint * 16 + v) s' = .ok (n, rest) := by
  cases s with
  | nil => cases h
  | cons c s =>
    rw [parseHexQuad] at h
    split at h
    · cases h
    next v hv => exact ⟨c, v, s, rfl, hv, h⟩

theorem parseHexQuad_sound {n : Nat} (h : parseHexQuad 4 0 s = .ok (n, rest)) :
    ∃ quad, HexQuad quad n ∧ s = quad ++ rest := by
  obtain ⟨a, x, s, rfl, ha, h⟩ := parseHexQuad_succ h
  obtain ⟨b, y, s, rfl, hb, h⟩ := parseHexQuad_succ h
  obtain ⟨c, z, s, rfl, hc, h⟩ := parseHexQuad_succ h
  obtain ⟨d, w, s, rfl, hd, h⟩ := parseHexQuad_succ h
  cases h
  rw [Nat.zero_mul, Nat.zero_add]
  exact ⟨[a, b, c, d], .mk ha hb hc hd, rfl⟩

theorem parseHexQuad_complete {quad : Str} {n : Nat} (h : HexQuad quad n) (rest : Str) :
    parseHexQuad 4 0 (quad ++ rest) = .ok (n, rest) := by
  obtain ⟨ha, hb, hc, hd⟩ := h
  simp only [List.cons_append, List.nil_append, parseHexQuad, ha, hb, hc, hd, Nat.zero_mul,
    Nat.zero_add]

theorem expect_sound {c : UInt8} {message : String} {u : Unit}
    (h : expect c message s = .ok (u, rest)) : s = c :: rest := by
  cases s with
  | nil => cases h
  | cons c' s =>
    rw [expect] at h
    split at h
    next hc =>
      cases h
      rw [hc]
    · cases h

theorem expect_complete (c : UInt8) (message : String) (rest : Str) :
    expect c message (c :: rest) = .ok ((), rest) := if_pos rfl

theorem takeTrailing_sound {n : Nat} (h : takeTrailing n s = .ok (units, rest)) :
    units.length = n ∧ (∀ u ∈ units, isTrail u = true) ∧ s = units ++ rest := by
  induction n generalizing s units with
  | zero =>
    cases h
    exact ⟨rfl, fun u hu => (List.not_mem_nil hu).elim, rfl⟩
  | succ n ih =>
    cases s with
    | nil => cases h
    | cons c s =>
      rw [takeTrailing] at h
      split at h
      next hc =>
        obtain ⟨⟨units', s'⟩, htake, h⟩ := read_bind_eq_ok h
        cases h
        obtain ⟨hlen, hall, rfl⟩ := ih htake
        exact ⟨congrArg (· + 1) hlen, List.forall_mem_cons.mpr ⟨hc, hall⟩, rfl⟩
      · cases h

theorem parseCodepointRef_sound (h : parseCodepointRef s = .ok (units, rest)) :
    ∃ text, Piece (backslash :: letter 'u' :: text) units ∧ s = text ++ rest := by
  obtain ⟨⟨n, s₁⟩, hquad, hread⟩ := read_bind_eq_ok h
  obtain ⟨quad, hq, hs⟩ := parseHexQuad_sound hquad
  dsimp only at hread
  split at hread
  · cases hread
  next hstray =>
    rw [Bool.not_eq_true] at hstray
    split at hread
    next hhigh =>
      obtain ⟨⟨_, s₂⟩, hslash, hread⟩ := read_bind_eq_ok hread
      obtain ⟨⟨_, s₃⟩, hu, hread⟩ := read_bind_eq_ok hread
      obtain ⟨⟨low, s₄⟩, hquad', hread⟩ := read_bind_eq_ok hread
      obtain ⟨quad', hq', hs₃⟩ := parseHexQuad_sound hquad'
      have hs₁ := expect_sound hslash
      have hs₂ := expect_sound hu
      dsimp only at hread hs₁ hs₂ hs₃
      split at hread
      next hlow =>
        cases hread
        refine ⟨_, .surrogates hq hq' hstray hhigh hlow, ?_⟩
        rw [hs, hs₁, hs₂, hs₃]
        simp only [List.append_assoc, List.cons_append]
      · cases hread
    next hhigh =>
      rw [Bool.not_eq_true] at hhigh
      cases hread
      exact ⟨quad, .codepoint hq hstray hhigh, hs⟩

theorem parsePiece_sound {c : UInt8} (hc : c ≠ quote) (h : parsePiece c s = .ok (units, rest)) :
    ∃ text, Piece text units ∧ c :: s = text ++ rest := by
  unfold parsePiece at h
  split at h
  next hslash =>
    cases s with
    | nil => cases h
    | cons e s =>
      rw [parseEscape] at h
      split at h
      next unit hunit =>
        cases h
        rw [hslash]
        exact ⟨_, .escape hunit, rfl⟩
      · split at h
        next hu =>
          obtain ⟨text, hpiece, rfl⟩ := parseCodepointRef_sound h
          rw [hslash, hu]
          exact ⟨_, hpiece, rfl⟩
        · cases h
  next hslash =>
    unfold transcodeCodepoint at h
    split at h
    next hhigh =>
      split at h
      · cases h
      next hlow =>
        cases h
        exact ⟨_, .plain hlow hhigh hc hslash, rfl⟩
    · split at h
      · cases h
      next n hlead =>
        obtain ⟨⟨units', s'⟩, htake, h⟩ := read_bind_eq_ok h
        cases h
        obtain ⟨hlen, hall, rfl⟩ := takeTrailing_sound htake
        exact ⟨_, .multibyte (hlen.symm ▸ hlead) hall, rfl⟩

/-- A piece is read whole, and it does not start with the quote that ends a string. -/
theorem parsePiece_complete (h : Piece text units) :
    ∃ c more, text = c :: more ∧ c ≠ quote ∧
      ∀ rest, parsePiece c (more ++ rest) = .ok (units, rest) := by
  cases h with
  | @plain c hlow hhigh hquote hslash =>
    refine ⟨c, [], rfl, hquote, fun rest => ?_⟩
    rw [parsePiece, if_neg hslash, transcodeCodepoint, if_pos hhigh, if_neg hlow]
    rfl
  | @multibyte c units hlead hunits =>
    obtain ⟨hhigh, hquote, hslash⟩ := trailTable_high c (by rw [hlead]; exact Option.some_ne_none _)
    refine ⟨c, units, rfl, hquote, fun rest => ?_⟩
    rw [parsePiece, if_neg hslash, transcodeCodepoint, if_neg hhigh, hlead]
    dsimp only [bind, Except.bind]
    rw [takeTrailing_append hunits]
    rfl
  | @escape c unit h =>
    refine ⟨backslash, [c], rfl, by decide, fun rest => ?_⟩
    rw [parsePiece, if_pos rfl, List.singleton_append, parseEscape, h]
  | @codepoint quad n hquad hlow hhigh =>
    refine ⟨backslash, _, rfl, by decide, fun rest => ?_⟩
    rw [parsePiece, if_pos rfl, List.cons_append, parseEscape,
      show escapeUnit (letter 'u') = none by decide]
    dsimp only
    rw [if_pos rfl, parseCodepointRef, parseHexQuad_complete hquad]
    dsimp only [bind, Except.bind]
    rw [hlow, hhigh]
    rfl
  | @surrogates quad quad' high low hquad hquad' hstray hhigh hlow =>
    refine ⟨backslash, _, rfl, by decide, fun rest => ?_⟩
    rw [parsePiece, if_pos rfl, List.cons_append, parseEscape,
      show escapeUnit (letter 'u') = none by decide]
    dsimp only
    rw [if_pos rfl, parseCodepointRef, List.append_assoc, parseHexQuad_complete hquad]
    dsimp only [bind, Except.bind]
    rw [hstray, hhigh, List.cons_append, List.cons_append]
    simp only [Bool.false_eq_true, if_false, if_true, expect_complete]
    rw [parseHexQuad_complete hquad']
    dsimp only
    rw [if_pos hlow]
    rfl

theorem parseString_sound {n : Nat} (h : parseString n s = .ok (units, rest)) :
    ∃ text, Chars text units ∧ s = text ++ quote :: rest := by
  induction n generalizing s units with
  | zero => cases h
  | succ n ih =>
    cases s with
    | nil => cases h
    | cons c s =>
      rw [parseString] at h
      split at h
      next hc =>
        cases h
        rw [hc]
        exact ⟨[], .nil, rfl⟩
      next hc =>
        obtain ⟨⟨piece, s₁⟩, hpiece, h⟩ := read_bind_eq_ok h
        obtain ⟨⟨more, s₂⟩, hmore, h⟩ := read_bind_eq_ok h
        cases h
        obtain ⟨text, htext, hs⟩ := parsePiece_sound hc hpiece
        obtain ⟨text', htext', rfl⟩ := ih hmore
        exact ⟨text ++ text', .cons htext htext', by rw [hs, List.append_assoc]⟩

theorem parseString_complete {n : Nat} (h : Chars text units) (rest : Str)
    (hn : text.length < n) : parseString n (text ++ quote :: rest) = .ok (units, rest) := by
  induction h generalizing n with
  | nil =>
    obtain ⟨n, rfl⟩ : ∃ m, n = m + 1 := ⟨n - 1, by omega⟩
    rfl
  | @cons text units more units' hpiece hmore ih =>
    obtain ⟨n, rfl⟩ : ∃ m, n = m + 1 := ⟨n - 1, by omega⟩
    obtain ⟨c, text', rfl, hquote, hread⟩ := parsePiece_complete hpiece
    rw [List.cons_append, List.length_cons, List.length_append] at hn
    rw [List.append_assoc, List.cons_append, parseString, if_neg hquote, hread]
    dsimp only [bind, Except.bind]
    rw [ih (by omega)]
    rfl

end

end Json
end SSVim
