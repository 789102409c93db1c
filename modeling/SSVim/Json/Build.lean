/-
How a client builds a property tree: numbers written to a stream, `put` and `add_child`.

An `int` is put as its decimal text, which `get<int>` reads back.
-/
import Mathlib.Data.Nat.Digits.Defs
import SSVim.Json.RoundTrip

namespace SSVim
namespace Json

/-! ## Numbers written to a stream -/

/-- `oss << n` for an `unsigned`. -/
def decimal (n : Nat) : Str :=
  (if n = 0 then [0] else Nat.digits 10 n).reverse.map fun d => (48 + d).toUInt8

/-- `oss << n` for an `int`. -/
def intText (n : Int32) : Str :=
  if n.toInt < 0 then minusSign :: decimal n.toInt.natAbs else decimal n.toInt.natAbs

theorem digitsValue_map {digits : List Nat} (h : ∀ d ∈ digits, d < 10) :
    digitsValue (digits.reverse.map fun d => (48 + d).toUInt8) = Nat.ofDigits 10 digits := by
  induction digits with
  | nil => rfl
  | cons d digits ih =>
    rw [List.forall_mem_cons] at h
    have hd : ((48 + d).toUInt8.toNat) - 48 = d := by
      have hlt := h.1
      rw [Nat.toUInt8, UInt8.toNat_ofNat']
      omega
    have htail := ih h.2
    rw [digitsValue] at htail ⊢
    rw [List.reverse_cons, List.map_append, List.foldl_append, htail, Nat.ofDigits_cons,
      List.map_cons, List.map_nil, List.foldl_cons, List.foldl_nil, hd, Nat.add_comm]

theorem decimal_digits_lt (n : Nat) : ∀ d ∈ (if n = 0 then [0] else Nat.digits 10 n), d < 10 := by
  by_cases hn : n = 0
  · rw [if_pos hn]
    exact List.forall_mem_singleton.mpr (by decide)
  · rw [if_neg hn]
    exact fun d hd => Nat.digits_lt_base (by decide) hd

theorem digitsValue_decimal (n : Nat) : digitsValue (decimal n) = n := by
  rw [decimal, digitsValue_map (decimal_digits_lt n)]
  by_cases hn : n = 0
  · rw [if_pos hn, hn]
    rfl
  · rw [if_neg hn, Nat.ofDigits_digits]

theorem isDigit_of_lt : ∀ d < 10, isDigit (48 + d).toUInt8 = true := by decide

theorem decimal_isDigit (n : Nat) : ∀ b ∈ decimal n, isDigit b = true := by
  intro b hb
  rw [decimal, List.mem_map] at hb
  obtain ⟨d, hd, rfl⟩ := hb
  exact isDigit_of_lt d (decimal_digits_lt n d (List.mem_reverse.mp hd))

theorem decimal_ne_nil (n : Nat) : decimal n ≠ [] := by
  rw [decimal, ne_eq, List.map_eq_nil_iff, List.reverse_eq_nil_iff]
  by_cases hn : n = 0
  · rw [if_pos hn]
    exact List.cons_ne_nil _ _
  · rw [if_neg hn]
    exact Nat.digits_ne_nil_iff_ne_zero.mpr hn

theorem digit_starts : ∀ b : UInt8, isDigit b = true →
    isSpace b = false ∧ b ≠ minusSign ∧ b ≠ plusSign ∧ b ≤ 0x7f := by
  refine forall_byte ?_
  decide +kernel

/-- A number of digits only, behind its sign. -/
theorem streamInt_digits (value : Int) {text digits : Str} {negative : Bool}
    (hsign : takeSign (text.dropWhile isSpace) = (negative, digits)) (hne : digits ≠ [])
    (hdigits : ∀ b ∈ digits, isDigit b = true)
    (hvalue : value = if negative then -(digitsValue digits : Int) else digitsValue digits)
    (hrange : ¬ (value < -0x80000000 ∨ 0x80000000 ≤ value)) :
    streamInt text = some (Int32.ofInt value) := by
  have htake : digits.takeWhile isDigit = digits := List.takeWhile_eq_self_iff.mpr hdigits
  have hdrop : digits.dropWhile isDigit = [] := List.dropWhile_eq_nil_iff.mpr hdigits
  unfold streamInt
  rw [hsign]
  dsimp only
  rw [htake, hdrop, ← hvalue, if_neg hne, if_neg hrange]
  rfl

theorem streamInt_intText (n : Int32) : streamInt (intText n) = some n := by
  have hlow : -0x80000000 ≤ n.toInt := Int32.le_toInt n
  have hhigh : n.toInt < 0x80000000 := Int32.toInt_lt n
  have hrange : ¬ (n.toInt < -0x80000000 ∨ 0x80000000 ≤ n.toInt) := by omega
  have hvalue := digitsValue_decimal n.toInt.natAbs
  rw [intText]
  by_cases hneg : n.toInt < 0
  · rw [if_pos hneg]
    have hsign : takeSign ((minusSign :: decimal n.toInt.natAbs).dropWhile isSpace) =
        (true, decimal n.toInt.natAbs) := rfl
    rw [streamInt_digits n.toInt hsign (decimal_ne_nil _) (decimal_isDigit _)
      (by rw [if_pos rfl, hvalue]; omega) hrange, Int32.ofInt_toInt]
  · rw [if_neg hneg]
    have hsign : takeSign ((decimal n.toInt.natAbs).dropWhile isSpace) =
        (false, decimal n.toInt.natAbs) := by
      obtain ⟨c, cs, hc⟩ := List.exists_cons_of_ne_nil (decimal_ne_nil n.toInt.natAbs)
      have hdigit := decimal_isDigit n.toInt.natAbs c (by rw [hc]; exact List.mem_cons_self)
      obtain ⟨hspace, hminus, hplus, _⟩ := digit_starts c hdigit
      rw [hc, List.dropWhile_cons_of_neg (by rw [hspace]; exact Bool.false_ne_true), takeSign,
        if_neg hminus, if_neg hplus]
    rw [streamInt_digits n.toInt hsign (decimal_ne_nil _) (decimal_isDigit _)
      (by rw [if_neg Bool.false_ne_true, hvalue]; omega) hrange, Int32.ofInt_toInt]

theorem intText_encoded (n : Int32) : Encoded (intText n) := by
  have hdigits : ∀ b ∈ decimal n.toInt.natAbs, b ≤ 0x7f := fun b hb =>
    (digit_starts b (decimal_isDigit _ b hb)).2.2.2
  refine encoded_of_ascii fun b hb => ?_
  rw [intText] at hb
  by_cases hneg : n.toInt < 0
  · rw [if_pos hneg, List.mem_cons] at hb
    rcases hb with rfl | hb
    · decide
    · exact hdigits b hb
  · rw [if_neg hneg] at hb
    exact hdigits b hb

/-! ## Building a tree -/

namespace PTree

/-- `put_value`. -/
def putValue (value : Str) : PTree → PTree
  | node _ children => node value children

/-- The first child with the key gets the data, and a new one does when there is none. -/
def putFirst (key value : Str) : List (Str × PTree) → List (Str × PTree)
  | [] => [(key, leaf value)]
  | (k, child) :: rest =>
    if k = key then (k, child.putValue value) :: rest else (k, child) :: putFirst key value rest

/-- `put` with a path of at most one fragment.  The empty path is the node itself. -/
def put (pt : PTree) (path : Str) (value : Str) : PTree :=
  if path = [] then pt.putValue value
  else node pt.data (putFirst path value pt.children)

/-- `add_child` with a path of one fragment. -/
def addChild (pt : PTree) (key : Str) (child : PTree) : PTree :=
  node pt.data (pt.children ++ [(key, child)])

end PTree

end Json
end SSVim
