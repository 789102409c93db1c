/-
Unicode in the strings of a document.

A character may be written as it is, by a short escape, by the number of its code point,
or by the numbers of two surrogates.  In a document that is UTF-8 these are the only
spellings, and whichever is used the reader stores the character in UTF-8.
-/
import SSVim.Json.Grammar

namespace SSVim
namespace Json

open String (utf8EncodeChar)

/-! ## Code points -/

theorem lead_two : ∀ x < 32, 0xc0 ||| x = x + 0xc0 := by decide

theorem lead_three : ∀ x < 16, 0xe0 ||| x = x + 0xe0 := by decide

theorem lead_four : ∀ x < 8, 0xf0 ||| x = x + 0xf0 := by decide

theorem trail_bits : ∀ x < 64, 0x80 ||| x = x + 0x80 := by decide

theorem trail_eq (n : Nat) : trail n = UInt8.ofNat (n % 64 + 0x80) := by
  rw [trail, Nat.toUInt8, show 0x3f = 2 ^ 6 - 1 from rfl, Nat.and_two_pow_sub_one_eq_mod,
    trail_bits _ (Nat.mod_lt _ (by decide))]

/-- A code point is stored as UTF-8 has it. -/
theorem feedCodepoint_char (c : Char) : feedCodepoint c.toNat = utf8EncodeChar c := by
  have hbound : c.toNat < 0x110000 := by
    rcases c.valid with h | h
    · exact Nat.lt_trans h (by decide)
    · exact h.2
  unfold feedCodepoint utf8EncodeChar
  dsimp only
  show _ = if c.toNat ≤ 0x7f then [UInt8.ofNat c.toNat] else if c.toNat ≤ 0x7ff then
    [UInt8.ofNat (c.toNat / 64 % 32 + 0xc0), UInt8.ofNat (c.toNat % 64 + 0x80)]
    else if c.toNat ≤ 0xffff then [UInt8.ofNat (c.toNat / 4096 % 16 + 0xe0),
      UInt8.ofNat (c.toNat / 64 % 64 + 0x80), UInt8.ofNat (c.toNat % 64 + 0x80)]
    else [UInt8.ofNat (c.toNat / 262144 % 8 + 0xf0), UInt8.ofNat (c.toNat / 4096 % 64 + 0x80),
      UInt8.ofNat (c.toNat / 64 % 64 + 0x80), UInt8.ofNat (c.toNat % 64 + 0x80)]
  generalize c.toNat = n at hbound
  simp only [trail_eq, Nat.toUInt8, Nat.shiftRight_eq_div_pow, Nat.reducePow]
  split
  · rfl
  · split
    next h =>
      rw [lead_two _ (by omega), Nat.mod_eq_of_lt (a := n / 64) (by omega)]
    · split
      next h =>
        rw [lead_three _ (by omega), Nat.mod_eq_of_lt (a := n / 4096) (by omega)]
      · rw [if_pos (by omega), lead_four _ (by omega),
          Nat.mod_eq_of_lt (a := n / 262144) (by omega)]

/-! ## Surrogates -/

theorem high_bits {n bits : Nat} (h : (n &&& 0xfc00 == bits <<< 10) = true) :
    n / 1024 % 64 = bits := by
  have hshift : (n &&& 0xfc00) >>> 10 = (bits <<< 10) >>> 10 := by rw [beq_iff_eq.mp h]
  rw [Nat.shiftRight_and_distrib, Nat.shiftLeft_shiftRight, Nat.shiftRight_eq_div_pow] at hshift
  exact (Nat.and_two_pow_sub_one_eq_mod (n / 2 ^ 10) 6).symm.trans hshift

theorem isSurrogateHigh_range {n : Nat} (hn : n < 0x10000) (h : isSurrogateHigh n = true) :
    0xd800 ≤ n ∧ n < 0xdc00 := by
  have hbits : n / 1024 % 64 = 54 := high_bits h
  omega

theorem isSurrogateLow_range {n : Nat} (hn : n < 0x10000) (h : isSurrogateLow n = true) :
    0xdc00 ≤ n ∧ n < 0xe000 := by
  have hbits : n / 1024 % 64 = 55 := high_bits h
  omega

theorem isSurrogate_of_offset : ∀ x < 1024, isSurrogateHigh (0xd800 + x) = true ∧
    isSurrogateLow (0xd800 + x) = false ∧ isSurrogateLow (0xdc00 + x) = true := by
  decide +kernel

theorem combineSurrogates_eq {x y : Nat} (hx : x < 1024) (hy : y < 1024) :
    combineSurrogates (0xd800 + x) (0xdc00 + y) = 0x10000 + (x * 1024 + y) := by
  have hlow : ∀ base < 64, ∀ z < 1024, (1024 * base + z) &&& 0x3ff = z := by
    intro base _ z hz
    rw [show 0x3ff = 2 ^ 10 - 1 from rfl, Nat.and_two_pow_sub_one_eq_mod]
    omega
  rw [combineSurrogates, hlow 54 (by decide) x hx, hlow 55 (by decide) y hy,
    ← Nat.shiftLeft_add_eq_or_of_lt (i := 10) hy, Nat.shiftLeft_eq]

/-- A code point that is no surrogate is a character. -/
theorem exists_char {n : Nat} (hn : n < 0x110000) (h : n < 0xd800 ∨ 0xe000 ≤ n) :
    ∃ c : Char, c.toNat = n := by
  have hvalid : n.isValidChar := h.imp_right fun h => ⟨h, hn⟩
  refine ⟨Char.ofNat n, ?_⟩
  rw [Char.ofNat, dif_pos hvalid]
  exact UInt32.toNat_ofNatLT

theorem decodeHexdigit_lt : ∀ c : UInt8, ∀ v ∈ decodeHexdigit c, v < 16 ∧ c ≤ 0x7f := by
  refine forall_byte ?_
  decide +kernel

theorem trailTable_ne_zero : ∀ b : UInt8, trailTable b ≠ some 0 := by
  refine forall_byte ?_
  decide +kernel

theorem hexQuad_lt {quad : Str} {n : Nat} (h : HexQuad quad n) :
    n < 0x10000 ∧ ∀ b ∈ quad, b ≤ 0x7f := by
  obtain ⟨ha, hb, hc, hd⟩ := h
  obtain ⟨hx, ha⟩ := decodeHexdigit_lt _ _ ha
  obtain ⟨hy, hb⟩ := decodeHexdigit_lt _ _ hb
  obtain ⟨hz, hc⟩ := decodeHexdigit_lt _ _ hc
  obtain ⟨hw, hd⟩ := decodeHexdigit_lt _ _ hd
  simp only [List.forall_mem_cons]
  exact ⟨by omega, ha, hb, hc, hd, nofun⟩

theorem HexQuad.char {quad : Str} {n : Nat} (h : HexQuad quad n) (hlow : isSurrogateLow n = false)
    (hhigh : isSurrogateHigh n = false) : ∃ c : Char, c.toNat = n := by
  have hn := (hexQuad_lt h).1
  refine exists_char (by omega) ?_
  by_contra hno
  by_cases hdc : n < 0xdc00
  · obtain ⟨x, rfl⟩ : ∃ x, n = 0xd800 + x := ⟨n - 0xd800, by omega⟩
    rw [(isSurrogate_of_offset x (by omega)).1] at hhigh
    cases hhigh
  · obtain ⟨x, rfl⟩ : ∃ x, n = 0xdc00 + x := ⟨n - 0xdc00, by omega⟩
    rw [(isSurrogate_of_offset x (by omega)).2.2] at hlow
    cases hlow

/-- Two surrogates stand for a character beyond the first plane. -/
theorem HexQuad.surrogates {quad quad' : Str} {high low : Nat} (h : HexQuad quad high)
    (h' : HexQuad quad' low) (hhigh : isSurrogateHigh high = true)
    (hlow : isSurrogateLow low = true) :
    ∃ c : Char, combineSurrogates high low = c.toNat ∧ 0x10000 ≤ c.toNat ∧
      high = 0xd800 + (c.toNat - 0x10000) / 0x400 ∧
      low = 0xdc00 + (c.toNat - 0x10000) % 0x400 := by
  have hh := isSurrogateHigh_range (hexQuad_lt h).1 hhigh
  have hl := isSurrogateLow_range (hexQuad_lt h').1 hlow
  obtain ⟨x, rfl⟩ : ∃ x, high = 0xd800 + x := ⟨high - 0xd800, by omega⟩
  obtain ⟨y, rfl⟩ : ∃ y, low = 0xdc00 + y := ⟨low - 0xdc00, by omega⟩
  have hx : x < 1024 := by omega
  have hy : y < 1024 := by omega
  obtain ⟨c, hc⟩ := exists_char (n := 0x10000 + (x * 1024 + y)) (by omega) (by omega)
  refine ⟨c, (combineSurrogates_eq hx hy).trans hc.symm, ?_, ?_, ?_⟩ <;> omega

/-! ## Spellings -/

inductive Spelling : Char → Str → Prop where
  | plain {c : Char} (hlow : 0x20 ≤ c.toNat) (hquote : c ≠ '"') (hslash : c ≠ '\\') :
      Spelling c (utf8EncodeChar c)
  | escape {c : Char} {e : UInt8} (h : escapeUnit e = some c.toNat.toUInt8) (hc : c.toNat < 0x80) :
      Spelling c [backslash, e]
  | codepoint {c : Char} {quad : Str} (h : HexQuad quad c.toNat) :
      Spelling c (backslash :: letter 'u' :: quad)
  | surrogates {c : Char} {quad quad' : Str} (hc : 0x10000 ≤ c.toNat)
      (hhigh : HexQuad quad (0xd800 + (c.toNat - 0x10000) / 0x400))
      (hlow : HexQuad quad' (0xdc00 + (c.toNat - 0x10000) % 0x400)) :
      Spelling c (backslash :: letter 'u' :: (quad ++ backslash :: letter 'u' :: quad'))

section
variable {c : Char} {s text units : Str}

theorem utf8EncodeChar_ascii (hc : c.toNat ≤ 0x7f) : utf8EncodeChar c = [UInt8.ofNat c.toNat] := by
  rw [← feedCodepoint_char, feedCodepoint, if_pos hc, Nat.toUInt8]

theorem toNat_ofNat_ascii (hc : c.toNat ≤ 0x7f) : (UInt8.ofNat c.toNat).toNat = c.toNat := by
  rw [UInt8.toNat_ofNat', Nat.mod_eq_of_lt (by omega)]

/-- The bytes of a character are one byte below `0x80`, or a lead byte and the trailing
bytes it asks for. -/
theorem utf8EncodeChar_cases (c : Char) :
    (c.toNat ≤ 0x7f ∧ utf8EncodeChar c = [UInt8.ofNat c.toNat]) ∨
      ∃ b units, utf8EncodeChar c = b :: units ∧ trailTable b = some units.length ∧
        ∀ u ∈ units, isTrail u = true := by
  by_cases hc : c.toNat ≤ 0x7f
  · exact Or.inl ⟨hc, utf8EncodeChar_ascii hc⟩
  · refine Or.inr ?_
    have htrail : ∀ x, ∀ u ∈ [UInt8.ofNat (x % 64 + 128)], isTrail u = true :=
      fun x => List.forall_mem_singleton.mpr (isTrail_sextet x)
    have hne : ¬ c.val.toNat ≤ 0x7f := hc
    unfold utf8EncodeChar
    dsimp only
    rw [if_neg hne]
    split
    · exact ⟨_, _, rfl, trailTable_two _ (Nat.mod_lt _ (by decide)), htrail _⟩
    · split
      · exact ⟨_, _, rfl, trailTable_three _ (Nat.mod_lt _ (by decide)),
          List.forall_mem_cons.mpr ⟨isTrail_sextet _, htrail _⟩⟩
      · exact ⟨_, _, rfl, trailTable_four _ (Nat.mod_lt _ (by decide)),
          List.forall_mem_cons.mpr ⟨isTrail_sextet _,
            List.forall_mem_cons.mpr ⟨isTrail_sextet _, htrail _⟩⟩⟩

theorem Spelling.piece (h : Spelling c text) : Piece text (utf8EncodeChar c) := by
  cases h with
  | plain hlow hquote hslash =>
    rcases utf8EncodeChar_cases c with ⟨hc, henc⟩ | ⟨b, units, henc, hlead, hunits⟩
    · have hval := toNat_ofNat_ascii hc
      have hne : ∀ d : Char, c ≠ d → ∀ b : UInt8, b.toNat = d.toNat →
          UInt8.ofNat c.toNat ≠ b := by
        intro d hd b hb heq
        rw [heq, hb] at hval
        exact hd (Char.toNat_inj.mp hval.symm)
      rw [henc]
      refine .plain ?_ ?_ (hne _ hquote _ rfl) (hne _ hslash _ rfl)
      · rw [UInt8.lt_iff_toNat_lt, hval]
        exact Nat.not_lt.mpr hlow
      · rw [UInt8.le_iff_toNat_le, hval]
        exact hc
    · rw [henc]
      exact .multibyte hlead hunits
  | escape h hc =>
    rw [utf8EncodeChar_ascii (by omega)]
    exact .escape h
  | codepoint h =>
    have hlow : isSurrogateLow c.toNat = false := by
      rw [Bool.eq_false_iff]
      intro hs
      have hr := isSurrogateLow_range (hexQuad_lt h).1 hs
      rcases c.valid with hv | hv <;> simp only [Char.toNat] at hr <;> omega
    have hhigh : isSurrogateHigh c.toNat = false := by
      rw [Bool.eq_false_iff]
      intro hs
      have hr := isSurrogateHigh_range (hexQuad_lt h).1 hs
      rcases c.valid with hv | hv <;> simp only [Char.toNat] at hr <;> omega
    rw [← feedCodepoint_char]
    exact .codepoint h hlow hhigh
  | surrogates hc hhigh hlow =>
    have hbound : c.toNat < 0x110000 := by
      rcases c.valid with hv | hv <;> simp only [Char.toNat] <;> omega
    obtain ⟨hh, hs, -⟩ := isSurrogate_of_offset ((c.toNat - 0x10000) / 0x400) (by omega)
    obtain ⟨-, -, hl⟩ := isSurrogate_of_offset ((c.toNat - 0x10000) % 0x400) (by omega)
    have hcombine : combineSurrogates (0xd800 + (c.toNat - 0x10000) / 0x400)
        (0xdc00 + (c.toNat - 0x10000) % 0x400) = c.toNat := by
      rw [combineSurrogates_eq (by omega) (by omega)]
      omega
    rw [← feedCodepoint_char, ← hcombine]
    exact .surrogates hhigh hlow hs hh hl

/-! ## UTF-8 along a text -/

theorem ValidUtf8.nil : ValidUtf8 [] := ⟨[], rfl⟩

theorem ValidUtf8.char (c : Char) (h : ValidUtf8 s) : ValidUtf8 (utf8EncodeChar c ++ s) := by
  obtain ⟨chars, rfl⟩ := h
  exact ⟨c :: chars, rfl⟩

theorem validUtf8_cons {b : UInt8} (h : ValidUtf8 (b :: s)) :
    ∃ c rest, b :: s = utf8EncodeChar c ++ rest ∧ ValidUtf8 rest := by
  obtain ⟨chars, hchars⟩ := h
  cases chars with
  | nil => cases hchars
  | cons c chars => exact ⟨c, _, hchars, chars, rfl⟩

/-- A byte below `0x80` is a character by itself. -/
theorem ValidUtf8.of_ascii {b : UInt8} (hb : b ≤ 0x7f) (h : ValidUtf8 (b :: s)) :
    ValidUtf8 s := by
  obtain ⟨c, rest, heq, hrest⟩ := validUtf8_cons h
  rcases utf8EncodeChar_cases c with ⟨-, henc⟩ | ⟨b', units, henc, hlead, -⟩
  · rw [henc] at heq
    cases heq
    exact hrest
  · rw [henc] at heq
    cases heq
    exact absurd hb (trailTable_high b (by rw [hlead]; exact Option.some_ne_none _)).1

theorem ValidUtf8.of_asciis {lead : Str} (hlead : ∀ b ∈ lead, b ≤ 0x7f)
    (h : ValidUtf8 (lead ++ s)) : ValidUtf8 s := by
  induction lead with
  | nil => exact h
  | cons b lead ih =>
    rw [List.forall_mem_cons] at hlead
    exact ih hlead.2 (ValidUtf8.of_ascii hlead.1 h)

/-- A lead byte and as many bytes as it asks for are a character. -/
theorem ValidUtf8.of_lead {b : UInt8} {units : Str} (hlead : trailTable b = some units.length)
    (h : ValidUtf8 (b :: (units ++ s))) :
    (∃ c : Char, utf8EncodeChar c = b :: units ∧ 0x7f < c.toNat) ∧ ValidUtf8 s := by
  have hhigh := (trailTable_high b (by rw [hlead]; exact Option.some_ne_none _)).1
  obtain ⟨c, rest, heq, hrest⟩ := validUtf8_cons h
  rcases utf8EncodeChar_cases c with ⟨hc, henc⟩ | ⟨b', units', henc, hlead', -⟩
  · rw [henc, List.singleton_append] at heq
    obtain ⟨rfl, -⟩ := List.cons.inj heq
    refine absurd ?_ hhigh
    rw [UInt8.le_iff_toNat_le, toNat_ofNat_ascii hc]
    exact hc
  · rw [henc, List.cons_append] at heq
    obtain ⟨rfl, htail⟩ := List.cons.inj heq
    rw [hlead, Option.some.injEq] at hlead'
    obtain ⟨rfl, rfl⟩ := List.append_inj htail hlead'
    refine ⟨⟨c, henc, ?_⟩, hrest⟩
    by_contra hc
    have hone := congrArg List.length (henc.symm.trans (utf8EncodeChar_ascii (by omega)))
    have hzero : units.length = 0 := Nat.succ.inj hone
    rw [hzero] at hlead
    exact absurd hlead (trailTable_ne_zero b)

theorem exists_ascii {b : UInt8} (hb : b ≤ 0x7f) :
    ∃ c : Char, c.toNat = b.toNat ∧ utf8EncodeChar c = [b] := by
  rw [UInt8.le_iff_toNat_le] at hb
  replace hb : b.toNat ≤ 0x7f := hb
  obtain ⟨c, hc⟩ := exists_char (n := b.toNat) (by omega) (Or.inl (by omega))
  refine ⟨c, hc, ?_⟩
  rw [utf8EncodeChar_ascii (by omega), hc, UInt8.ofNat_toNat]

theorem escapeUnit_ascii : ∀ e : UInt8, ∀ unit ∈ escapeUnit e, unit ≤ 0x7f ∧ e ≤ 0x7f := by
  refine forall_byte ?_
  decide +kernel

/-- In UTF-8 text every piece spells one character, and what follows it is UTF-8. -/
theorem Piece.spelling (h : Piece text units) (hs : ValidUtf8 (text ++ s)) :
    (∃ c, Spelling c text ∧ units = utf8EncodeChar c) ∧ ValidUtf8 s := by
  cases h with
  | @plain b hlow hhigh hquote hslash =>
    obtain ⟨c, hc, henc⟩ := exists_ascii hhigh
    refine ⟨⟨c, ?_, henc.symm⟩, hs.of_ascii hhigh⟩
    rw [← henc]
    refine .plain ?_ ?_ ?_
    · rw [UInt8.lt_iff_toNat_lt, Nat.not_lt] at hlow
      exact hc ▸ hlow
    · rintro rfl
      exact hquote (UInt8.toNat_inj.mp hc.symm)
    · rintro rfl
      exact hslash (UInt8.toNat_inj.mp hc.symm)
  | @multibyte b units hlead hunits =>
    obtain ⟨⟨c, henc, hc⟩, hs⟩ := hs.of_lead hlead
    refine ⟨⟨c, ?_, henc.symm⟩, hs⟩
    rw [← henc]
    refine .plain (by omega) ?_ ?_
    · rintro rfl
      exact absurd hc (by decide)
    · rintro rfl
      exact absurd hc (by decide)
  | @escape e unit h =>
    obtain ⟨hunit, he⟩ := escapeUnit_ascii e unit h
    obtain ⟨c, hc, henc⟩ := exists_ascii hunit
    refine ⟨⟨c, .escape ?_ ?_, henc.symm⟩, (hs.of_ascii (by decide)).of_ascii he⟩
    · rw [hc, Nat.toUInt8, UInt8.ofNat_toNat, h]
    · rw [hc]
      exact Nat.lt_succ_of_le hunit
  | @codepoint quad n hquad hlow hhigh =>
    obtain ⟨c, rfl⟩ := hquad.char hlow hhigh
    refine ⟨⟨c, .codepoint hquad, feedCodepoint_char c⟩, hs.of_asciis ?_⟩
    simp only [List.forall_mem_cons]
    exact ⟨by decide, by decide, (hexQuad_lt hquad).2⟩
  | @surrogates quad quad' high low hquad hquad' hstray hhigh hlow =>
    obtain ⟨c, hcombine, hc, hhigh', hlow'⟩ := hquad.surrogates hquad' hhigh hlow
    rw [hcombine]
    rw [hhigh'] at hquad
    rw [hlow'] at hquad'
    refine ⟨⟨c, .surrogates hc hquad hquad', feedCodepoint_char c⟩, hs.of_asciis ?_⟩
    simp only [List.forall_mem_cons, List.forall_mem_append]
    exact ⟨by decide, by decide, (hexQuad_lt hquad).2, by decide, by decide, (hexQuad_lt hquad').2⟩

/-- `units` is the UTF-8 of characters that `text` spells. -/
def Spells (text units : Str) : Prop :=
  ∃ chars texts, List.Forall₂ Spelling chars texts ∧ text = texts.flatten ∧
    units = chars.flatMap utf8EncodeChar

theorem Spells.chars (h : Spells text units) : Chars text units := by
  obtain ⟨chars, texts, hall, rfl, rfl⟩ := h
  induction hall with
  | nil => exact .nil
  | cons hc _ ih =>
    rw [List.flatten_cons, List.flatMap_cons]
    exact .cons hc.piece ih

theorem Chars.spells (h : Chars text units) (hs : ValidUtf8 (text ++ s)) :
    Spells text units ∧ ValidUtf8 s := by
  induction h with
  | nil => exact ⟨⟨[], [], .nil, rfl, rfl⟩, hs⟩
  | cons hpiece _ ih =>
    rw [List.append_assoc] at hs
    obtain ⟨⟨c, hc, rfl⟩, hmore⟩ := hpiece.spelling hs
    obtain ⟨⟨chars, texts, hall, rfl, rfl⟩, hrest⟩ := ih hmore
    exact ⟨⟨c :: chars, _ :: texts, .cons hc hall, rfl, rfl⟩, hrest⟩

theorem Spells.validUtf8 (h : Spells text units) : ValidUtf8 units := by
  obtain ⟨chars, texts, -, -, rfl⟩ := h
  exact ⟨chars, rfl⟩

end

/-! ## Documents -/

theorem validUtf8_of_ascii {s : Str} (h : ∀ b ∈ s, b ≤ 0x7f) : ValidUtf8 s := by
  induction s with
  | nil => exact .nil
  | cons b s ih =>
    rw [List.forall_mem_cons] at h
    obtain ⟨c, -, henc⟩ := exists_ascii h.1
    have hchar := (ih h.2).char c
    rw [henc] at hchar
    exact hchar

/-- What is skipped in front of a UTF-8 document is one character. -/
theorem ValidUtf8.skipIntroduction {s : Str} (h : ValidUtf8 s) :
    ValidUtf8 (skipIntroduction s) := by
  cases s with
  | nil => exact h
  | cons b s =>
    rw [Json.skipIntroduction]
    split
    next hb =>
      obtain ⟨c, rest, heq, hrest⟩ := validUtf8_cons h
      rcases utf8EncodeChar_cases c with ⟨hc, henc⟩ | ⟨b', units, henc, hlead, -⟩
      · rw [henc, List.singleton_append] at heq
        obtain ⟨rfl, -⟩ := List.cons.inj heq
        have hval := toNat_ofNat_ascii hc
        rw [hb] at hval
        exact absurd (hval ▸ hc) (by decide)
      · rw [henc, List.cons_append] at heq
        obtain ⟨rfl, rfl⟩ := List.cons.inj heq
        rw [hb, show trailTable 0xef = some 2 by decide, Option.some.injEq] at hlead
        rw [hlead, List.drop_left]
        exact hrest
    · exact h

theorem fold_validUtf8 : Fold ValidUtf8 ValidUtf8 (PTree.All ValidUtf8) where
  ascii b s hb h := h.of_ascii hb
  chars text data s hchars h := by
    obtain ⟨hspells, hs⟩ := hchars.spells h
    exact ⟨hspells.validUtf8, leaf_all hspells.validUtf8, hs⟩
  plain data h := leaf_all (validUtf8_of_ascii h)
  unnamed := .nil
  node items h := all_node.mpr ⟨.nil, h⟩

/-- A UTF-8 document holds UTF-8 strings. -/
theorem readJson_validUtf8 {s : Str} {pt : PTree} (hs : ValidUtf8 s) (h : readJson s = .ok pt) :
    pt.All ValidUtf8 := fold_validUtf8.document (document_of_readJson h) hs.skipIntroduction

/-- A value that starts with a quote is a string. -/
theorem Value.string_cases {s : Str} {pt : PTree} (h : Value (quote :: s) pt) :
    ∃ text units, s = text ++ [quote] ∧ Chars text units ∧ pt = leaf units := by
  generalize heq : quote :: s = body at h
  cases h with
  | emptyObject | object | emptyArray | array =>
    exact absurd (List.cons.inj heq).1 (by decide)
  | string hchars => exact ⟨_, _, (List.cons.inj heq).2, hchars, rfl⟩
  | word h =>
    simp only [words, List.mem_cons, List.not_mem_nil, or_false] at h
    rcases h with rfl | rfl | rfl <;> exact absurd (List.cons.inj heq).1 (by decide)
  | number h =>
    obtain ⟨c, more, hc, hhead⟩ := number_head h
    obtain ⟨-, -, -, hquote, -⟩ := numeral_head c hhead
    exact absurd (List.cons.inj (heq.trans hc)).1.symm hquote

theorem readJson_string_chars {text : Str} {pt : PTree} :
    readJson (quote :: (text ++ [quote])) = .ok pt ↔
      ∃ units, Chars text units ∧ pt = leaf units := by
  have hintro : skipIntroduction (quote :: (text ++ [quote])) = quote :: (text ++ [quote]) := by
    rw [skipIntroduction, if_neg (by decide)]
  have hquote : ¬ isWs quote = true := by decide
  rw [readJson_iff, Document, hintro]
  constructor
  · intro h
    generalize heq : quote :: (text ++ [quote]) = s at h
    obtain @⟨lead, body, trail, pt, hlead, hbody, htrail⟩ := h
    -- White space in front would be in the place of the opening quote.
    cases lead with
    | cons b lead =>
      obtain ⟨rfl, -⟩ := List.cons.inj heq
      exact absurd (hlead quote List.mem_cons_self) hquote
    | nil =>
      obtain ⟨c, more, rfl, -, -⟩ := hbody.head
      rw [List.nil_append, List.cons_append] at heq
      obtain ⟨rfl, htail⟩ := List.cons.inj heq
      obtain ⟨text', units, rfl, hchars, rfl⟩ := hbody.string_cases
      -- White space behind would be in the place of the closing one.
      rcases List.eq_nil_or_concat trail with rfl | ⟨trail, b, rfl⟩
      · rw [List.append_nil] at htail
        rw [List.append_cancel_right htail]
        exact ⟨units, hchars, rfl⟩
      · rw [List.concat_eq_append] at htail htrail
        rw [← List.append_assoc] at htail
        obtain ⟨-, hb⟩ := List.append_inj' htail rfl
        obtain ⟨rfl, -⟩ := List.cons.inj hb
        exact absurd (htrail quote List.mem_concat_self) hquote
  · rintro ⟨units, hchars, rfl⟩
    have hblank : Blank [] := fun b hb => absurd hb List.not_mem_nil
    have hvalue := Padded.mk hblank (Value.string hchars) hblank
    rwa [List.nil_append, List.append_nil] at hvalue

/-- In UTF-8 text the reader takes every spelling of every character, and no other. -/
theorem readJson_string_iff {text : Str} (h : ValidUtf8 text) (pt : PTree) :
    readJson (quote :: (text ++ [quote])) = .ok pt ↔
      ∃ units, Spells text units ∧ pt = leaf units := by
  rw [readJson_string_chars]
  constructor
  · rintro ⟨units, hchars, rfl⟩
    refine ⟨units, (Chars.spells (s := []) hchars ?_).1, rfl⟩
    rw [List.append_nil]
    exact h
  · rintro ⟨units, hspells, rfl⟩
    exact ⟨units, hspells.chars, rfl⟩

/-- One letter in two spellings, its own bytes and the escape. -/
theorem twoSpellings_read :
    ∃ units, Spells ([0xc3, 0xa9] ++ lit "\\u00e9") units ∧
      leaf [0xc3, 0xa9, 0xc3, 0xa9] = leaf units :=
  (readJson_string_iff ⟨['é', '\\', 'u', '0', '0', 'e', '9'], by decide⟩ _).mp (by rfl)

end Json
end SSVim
