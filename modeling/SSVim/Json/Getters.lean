/-
What the getters of a tree take.

A lookup finds the first child of a name.  An integer is read through a stream, which
leaves out the white space around it, takes a sign of either kind and fails on a value
that does not fit.
-/
import SSVim.Json.Build
import SSVim.Json.Grammar

namespace SSVim
namespace Json

/-! ## Integers -/

/-- The texts that are read as an `int`. -/
inductive IntText : Str → Int32 → Prop where
  | mk {lead sign digits trail : Str} {n : Int32} (hlead : ∀ b ∈ lead, isSpace b = true)
      (hsign : sign = [] ∨ sign = [plusSign] ∨ sign = [minusSign]) (hne : digits ≠ [])
      (hdigits : AllDigits digits) (htrail : ∀ b ∈ trail, isSpace b = true)
      (hvalue : n.toInt = if sign = [minusSign] then -(digitsValue digits : Int)
        else digitsValue digits) :
      IntText (lead ++ (sign ++ (digits ++ trail))) n

theorem space_not_digit : ∀ b : UInt8, isSpace b = true → isDigit b = false := by
  refine forall_byte ?_
  decide +kernel

theorem takeSign_cases (s : Str) :
    ∃ sign rest, (sign = [] ∨ sign = [plusSign] ∨ sign = [minusSign]) ∧ s = sign ++ rest ∧
      takeSign s = (decide (sign = [minusSign]), rest) := by
  cases s with
  | nil => exact ⟨[], [], Or.inl rfl, rfl, rfl⟩
  | cons c s =>
    by_cases hminus : c = minusSign
    · subst hminus
      exact ⟨[minusSign], s, Or.inr (Or.inr rfl), rfl, rfl⟩
    · by_cases hplus : c = plusSign
      · subst hplus
        exact ⟨[plusSign], s, Or.inr (Or.inl rfl), rfl, rfl⟩
      · refine ⟨[], c :: s, Or.inl rfl, rfl, ?_⟩
        rw [takeSign, if_neg hminus, if_neg hplus]
        rfl

theorem takeSign_append {sign digits : Str} (rest : Str)
    (hsign : sign = [] ∨ sign = [plusSign] ∨ sign = [minusSign]) (hne : digits ≠ [])
    (hdigits : AllDigits digits) :
    takeSign (sign ++ (digits ++ rest)) = (decide (sign = [minusSign]), digits ++ rest) := by
  rcases hsign with rfl | rfl | rfl
  · obtain ⟨d, ds, rfl⟩ := List.exists_cons_of_ne_nil hne
    obtain ⟨-, hminus, hplus, -⟩ := digit_starts d (hdigits d List.mem_cons_self)
    rw [List.nil_append, List.cons_append, takeSign, if_neg hminus, if_neg hplus]
    rfl
  · rfl
  · rfl

/-- White space, a sign and digits are what the stream skips and takes. -/
theorem dropWhile_isSpace {lead sign digits : Str} (rest : Str)
    (hlead : ∀ b ∈ lead, isSpace b = true)
    (hsign : sign = [] ∨ sign = [plusSign] ∨ sign = [minusSign]) (hne : digits ≠ [])
    (hdigits : AllDigits digits) :
    (lead ++ (sign ++ (digits ++ rest))).dropWhile isSpace = sign ++ (digits ++ rest) := by
  rw [List.dropWhile_append_of_pos hlead]
  rcases hsign with rfl | rfl | rfl
  · obtain ⟨d, ds, rfl⟩ := List.exists_cons_of_ne_nil hne
    have hspace := (digit_starts d (hdigits d List.mem_cons_self)).1
    rw [List.nil_append, List.cons_append, List.dropWhile_cons_of_neg]
    rw [hspace]
    exact Bool.false_ne_true
  · rfl
  · rfl

theorem streamInt_complete {data : Str} {n : Int32} (h : IntText data n) :
    streamInt data = some n := by
  obtain ⟨hlead, hsign, hne, hdigits, htrail, hvalue⟩ := h
  rename_i lead sign digits trail
  have hrest : NoDigit trail := by
    intro c hc
    exact space_not_digit c (htrail c (List.mem_of_mem_head? hc))
  obtain ⟨htake, hdrop⟩ := digits_append hdigits hrest
  have hlow : -0x80000000 ≤ n.toInt := Int32.le_toInt n
  have hhigh : n.toInt < 0x80000000 := Int32.toInt_lt n
  have hrange : ¬ (n.toInt < -0x80000000 ∨ 0x80000000 ≤ n.toInt) := by omega
  have hall : trail.all isSpace = true := List.all_eq_true.mpr htrail
  unfold streamInt
  rw [dropWhile_isSpace trail hlead hsign hne hdigits, takeSign_append trail hsign hne hdigits]
  dsimp only
  rw [htake, hdrop, if_neg hne]
  simp only [decide_eq_true_eq, ← hvalue]
  rw [if_neg hrange, if_pos hall, Int32.ofInt_toInt]

theorem streamInt_sound {data : Str} {n : Int32} (h : streamInt data = some n) :
    IntText data n := by
  obtain ⟨sign, rest, hsign, hrest, htake⟩ := takeSign_cases (data.dropWhile isSpace)
  unfold streamInt at h
  rw [htake] at h
  dsimp only at h
  generalize hvalue : (if decide (sign = [minusSign]) = true then
    -(digitsValue (rest.takeWhile isDigit) : Int) else digitsValue (rest.takeWhile isDigit)) =
    value at h
  split at h
  · cases h
  next hne =>
    split at h
    · cases h
    next hrange =>
      split at h
      next hall =>
        have hdata : data = data.takeWhile isSpace ++
            (sign ++ (rest.takeWhile isDigit ++ rest.dropWhile isDigit)) := by
          rw [List.takeWhile_append_dropWhile, ← hrest, List.takeWhile_append_dropWhile]
        rw [hdata]
        refine .mk (fun b hb => List.mem_takeWhile_imp hb) hsign hne (takeWhile_allDigits rest)
          (List.all_eq_true.mp hall) ?_
        rw [← Option.some.inj h, Int32.toInt_ofInt_of_le (by omega) (by omega), ← hvalue]
        simp only [decide_eq_true_eq]
      · cases h

theorem streamInt_iff {data : Str} {n : Int32} : streamInt data = some n ↔ IntText data n :=
  ⟨streamInt_sound, streamInt_complete⟩

/-! ## Children -/

/-- The first child with the name. -/
def FirstChild (pt : PTree) (key : String) (child : PTree) : Prop :=
  ∃ front back, pt.children = front ++ (lit key, child) :: back ∧ ∀ item ∈ front, item.1 ≠ lit key

namespace PTree

section
variable {pt child : PTree} {key : String}

theorem getChild_iff : pt.getChild key = .ok child ↔ FirstChild pt key child := by
  have hlookup : pt.children.lookup (lit key) = some child ↔ FirstChild pt key child := by
    rw [List.lookup_eq_some_iff, FirstChild]
    simp only [bne_iff_ne, ne_comm]
  rw [← hlookup, getChild]
  cases pt.children.lookup (lit key) with
  | none => simp
  | some found => simp

theorem getString_iff {text : Str} :
    pt.getString key = .ok text ↔ ∃ child, FirstChild pt key child ∧ child.data = text := by
  constructor
  · intro h
    obtain ⟨child, hchild, heq⟩ := bind_eq_ok h
    cases heq
    exact ⟨child, getChild_iff.mp hchild, rfl⟩
  · rintro ⟨child, hchild, rfl⟩
    exact getString_of_child (getChild_iff.mpr hchild)

theorem getInt_iff {n : Int32} :
    pt.getInt key = .ok n ↔ ∃ child, FirstChild pt key child ∧ IntText child.data n := by
  constructor
  · intro h
    obtain ⟨child, hchild, hvalue⟩ := bind_eq_ok h
    refine ⟨child, getChild_iff.mp hchild, ?_⟩
    split at hvalue
    next value hread =>
      cases hvalue
      exact streamInt_iff.mp hread
    · cases hvalue
  · rintro ⟨child, hchild, hread⟩
    exact getInt_of_child (getChild_iff.mpr hchild) (streamInt_iff.mpr hread)

theorem asVector_iff {items : List Str} :
    pt.asVector key = .ok items ↔
      ∃ child, FirstChild pt key child ∧ child.children.map (fun item => item.2.data) = items := by
  constructor
  · intro h
    obtain ⟨child, hchild, heq⟩ := bind_eq_ok h
    cases heq
    exact ⟨child, getChild_iff.mp hchild, rfl⟩
  · rintro ⟨child, hchild, rfl⟩
    exact asVector_of_child (getChild_iff.mpr hchild)

end

end PTree

section
variable {P : Str → Prop} {pt child : PTree} {key : String}

theorem all_data (h : pt.All P) : P pt.data := by
  obtain ⟨data, children⟩ := pt
  exact (all_node.mp h).1

theorem all_children (h : pt.All P) : ∀ item ∈ pt.children, item.2.All P := by
  obtain ⟨data, children⟩ := pt
  exact fun item hitem => ((all_node.mp h).2 item hitem).2

theorem FirstChild.all (hc : FirstChild pt key child) (h : pt.All P) : child.All P := by
  obtain ⟨front, back, hchildren, -⟩ := hc
  have hmem : (lit key, child) ∈ pt.children := by
    rw [hchildren]
    exact List.mem_append_right front List.mem_cons_self
  exact all_children h _ hmem

end

end Json
end SSVim
