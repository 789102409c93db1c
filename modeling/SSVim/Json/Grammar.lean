/-
The documents that `read_json` accepts, as a grammar, and that it accepts no others.

The grammar says what text denotes what tree without a word on how text is read.  The
reader is shown sound and complete for it, so every text denotes one tree at most, and a
text that denotes none is an error.
-/
import SSVim.Json.Lexical

namespace SSVim
namespace Json

/-- The words a value may be. -/
def words : List Str := [lit "true", lit "false", lit "null"]

mutual

inductive Value : Str → PTree → Prop where
  | emptyObject {blank : Str} (hblank : Blank blank) :
      Value (openBrace :: (blank ++ [closeBrace])) (.node [] [])
  | object {text : Str} {members : List (Str × PTree)} (h : Members text members) :
      Value (openBrace :: (text ++ [closeBrace])) (.node [] members)
  | emptyArray {blank : Str} (hblank : Blank blank) :
      Value (openBracket :: (blank ++ [closeBracket])) (.node [] [])
  | array {text : Str} {elements : List (Str × PTree)} (h : Elements text elements) :
      Value (openBracket :: (text ++ [closeBracket])) (.node [] elements)
  | string {text data : Str} (h : Chars text data) : Value (quote :: (text ++ [quote])) (leaf data)
  | word {text : Str} (h : text ∈ words) : Value text (leaf text)
  | number {text : Str} (h : Number text) : Value text (leaf text)

/-- A value with the white space around it. -/
inductive Padded : Str → PTree → Prop where
  | mk {lead body trail : Str} {value : PTree} (hlead : Blank lead) (h : Value body value)
      (htrail : Blank trail) : Padded (lead ++ (body ++ trail)) value

inductive Elements : Str → List (Str × PTree) → Prop where
  | last {text : Str} {value : PTree} (h : Padded text value) : Elements text [([], value)]
  | more {text rest : Str} {value : PTree} {elements : List (Str × PTree)} (h : Padded text value)
      (hrest : Elements rest elements) :
      Elements (text ++ comma :: rest) (([], value) :: elements)

inductive Member : Str → Str × PTree → Prop where
  | mk {lead name trail text key : Str} {value : PTree} (hlead : Blank lead)
      (hname : Chars name key) (htrail : Blank trail) (h : Padded text value) :
      Member (lead ++ quote :: (name ++ quote :: (trail ++ colon :: text))) (key, value)

inductive Members : Str → List (Str × PTree) → Prop where
  | last {text : Str} {member : Str × PTree} (h : Member text member) : Members text [member]
  | more {text rest : Str} {member : Str × PTree} {members : List (Str × PTree)}
      (h : Member text member) (hrest : Members rest members) :
      Members (text ++ comma :: rest) (member :: members)

end

/-- A whole input, of which the reader skips the introduction. -/
def Document (s : Str) (pt : PTree) : Prop := Padded (skipIntroduction s) pt

/-! ## Going through a derivation

What is shown of every tree of the grammar is shown along its text from left to right,
with `V` what is known of the text to come. -/

/-- `T` holds of the leaves, and of a node when it holds of its children and `K` of their
names. -/
structure Fold (V K : Str → Prop) (T : PTree → Prop) : Prop where
  ascii : ∀ b s, b ≤ 0x7f → V (b :: s) → V s
  chars : ∀ text data s, Chars text data → V (text ++ s) → K data ∧ T (leaf data) ∧ V s
  plain : ∀ data, (∀ b ∈ data, b ≤ 0x7f) → T (leaf data)
  unnamed : K []
  node : ∀ items : List (Str × PTree), (∀ item ∈ items, K item.1 ∧ T item.2) → T (.node [] items)

theorem all_node {P : Str → Prop} {data : Str} {children : List (Str × PTree)} :
    (PTree.node data children).All P ↔ P data ∧ ∀ child ∈ children, P child.1 ∧ child.2.All P := by
  have hchildren : AllChildren P children ↔ ∀ child ∈ children, P child.1 ∧ child.2.All P := by
    induction children with
    | nil => exact ⟨fun _ => nofun, fun _ => trivial⟩
    | cons child children ih => rw [AllChildren, ih, List.forall_mem_cons, and_assoc]
  rw [PTree.All, hchildren]

theorem allDigits_ascii {ds : Str} (h : AllDigits ds) : ∀ b ∈ ds, b ≤ 0x7f := by
  have hdigit : ∀ b : UInt8, isDigit b = true → b ≤ 0x7f := by
    refine forall_byte ?_
    decide +kernel
  exact fun b hb => hdigit b (h b hb)

theorem forall_ascii {text : Str} (h : (text.all fun b => b ≤ 0x7f) = true) :
    ∀ b ∈ text, b ≤ 0x7f := by
  simpa using h

theorem number_ascii {text : Str} (h : Number text) : ∀ b ∈ text, b ≤ 0x7f := by
  obtain ⟨hsign, hint, hfrac, hexp⟩ := h
  simp only [List.forall_mem_append]
  refine ⟨?_, ⟨?_, ?_⟩, ?_⟩
  · rcases hsign with rfl | rfl <;> exact forall_ascii rfl
  · cases hint with
    | zero => exact forall_ascii rfl
    | digits hd _ hds => exact allDigits_ascii (List.forall_mem_cons.mpr ⟨hd, hds⟩)
  · cases hfrac with
    | absent => exact forall_ascii rfl
    | present _ hds => exact List.forall_mem_cons.mpr ⟨by decide, allDigits_ascii hds⟩
  · cases hexp with
    | absent => exact forall_ascii rfl
    | present he hsign _ hds =>
      refine List.forall_mem_cons.mpr ⟨?_, List.forall_mem_append.mpr ⟨?_, allDigits_ascii hds⟩⟩
      · rcases he with rfl | rfl <;> decide
      · rcases hsign with rfl | rfl | rfl <;> exact forall_ascii rfl

theorem words_ascii {text : Str} (h : text ∈ words) : ∀ b ∈ text, b ≤ 0x7f := by
  simp only [words, List.mem_cons, List.not_mem_nil, or_false] at h
  rcases h with rfl | rfl | rfl <;> exact forall_ascii rfl

theorem blank_ascii {blank : Str} (h : Blank blank) : ∀ b ∈ blank, b ≤ 0x7f := by
  have hws : ∀ b : UInt8, isWs b = true → b ≤ 0x7f := by
    refine forall_byte ?_
    decide +kernel
  exact fun b hb => hws b (h b hb)

namespace Fold

variable {V K : Str → Prop} {T : PTree → Prop} {text rest : Str}

theorem skip (hf : Fold V K T) {lead : Str} (hlead : ∀ b ∈ lead, b ≤ 0x7f) (h : V (lead ++ rest)) :
    V rest := by
  induction lead with
  | nil => exact h
  | cons b lead ih =>
    rw [List.forall_mem_cons] at hlead
    exact ih hlead.2 (hf.ascii b _ hlead.1 h)

def OnValue (V : Str → Prop) (T : PTree → Prop) (n : Nat) : Prop :=
  ∀ text value rest, Value text value → text.length < n → V (text ++ rest) → T value ∧ V rest

def OnElements (V K : Str → Prop) (T : PTree → Prop) (n : Nat) : Prop :=
  ∀ text items rest, Elements text items → text.length < n → V (text ++ rest) →
    (∀ item ∈ items, K item.1 ∧ T item.2) ∧ V rest

def OnMembers (V K : Str → Prop) (T : PTree → Prop) (n : Nat) : Prop :=
  ∀ text items rest, Members text items → text.length < n → V (text ++ rest) →
    (∀ item ∈ items, K item.1 ∧ T item.2) ∧ V rest

theorem onValue_succ (hf : Fold V K T) {n : Nat} (he : OnElements V K T n)
    (hm : OnMembers V K T n) : OnValue V T (n + 1) := by
  intro text value rest h hn hrest
  have hempty : T (.node [] []) := hf.node [] fun item hitem => absurd hitem List.not_mem_nil
  cases h with
  | emptyObject hblank | emptyArray hblank =>
    rw [List.cons_append, List.append_assoc] at hrest
    have hclose := hf.skip (blank_ascii hblank) (hf.ascii _ _ (by decide) hrest)
    exact ⟨hempty, hf.ascii _ _ (by decide) hclose⟩
  | object h =>
    rw [List.length_cons, List.length_append] at hn
    rw [List.cons_append, List.append_assoc] at hrest
    obtain ⟨hall, hclose⟩ := hm _ _ _ h (by omega) (hf.ascii _ _ (by decide) hrest)
    exact ⟨hf.node _ hall, hf.ascii _ _ (by decide) hclose⟩
  | array h =>
    rw [List.length_cons, List.length_append] at hn
    rw [List.cons_append, List.append_assoc] at hrest
    obtain ⟨hall, hclose⟩ := he _ _ _ h (by omega) (hf.ascii _ _ (by decide) hrest)
    exact ⟨hf.node _ hall, hf.ascii _ _ (by decide) hclose⟩
  | string h =>
    rw [List.cons_append, List.append_assoc] at hrest
    obtain ⟨-, hleaf, hquote⟩ := hf.chars _ _ _ h (hf.ascii _ _ (by decide) hrest)
    exact ⟨hleaf, hf.ascii _ _ (by decide) hquote⟩
  | word h => exact ⟨hf.plain _ (words_ascii h), hf.skip (words_ascii h) hrest⟩
  | number h => exact ⟨hf.plain _ (number_ascii h), hf.skip (number_ascii h) hrest⟩

theorem onPadded (hf : Fold V K T) {n : Nat} (hv : OnValue V T n) {value : PTree}
    (h : Padded text value) (hn : text.length < n) (hrest : V (text ++ rest)) :
    T value ∧ V rest := by
  obtain ⟨hlead, hbody, htrail⟩ := h
  rw [List.length_append, List.length_append] at hn
  rw [List.append_assoc, List.append_assoc] at hrest
  obtain ⟨hvalue, hafter⟩ := hv _ _ _ hbody (by omega) (hf.skip (blank_ascii hlead) hrest)
  exact ⟨hvalue, hf.skip (blank_ascii htrail) hafter⟩

theorem onElements_succ (hf : Fold V K T) {n : Nat} (hv : OnValue V T (n + 1))
    (he : OnElements V K T n) : OnElements V K T (n + 1) := by
  intro text items rest h hn hrest
  cases h with
  | last h =>
    obtain ⟨hvalue, hrest⟩ := hf.onPadded hv h hn hrest
    exact ⟨List.forall_mem_singleton.mpr ⟨hf.unnamed, hvalue⟩, hrest⟩
  | more h hmore =>
    rw [List.length_append, List.length_cons] at hn
    rw [List.append_assoc, List.cons_append] at hrest
    obtain ⟨hvalue, hcomma⟩ := hf.onPadded hv h (by omega) hrest
    obtain ⟨hall, hrest⟩ := he _ _ _ hmore (by omega) (hf.ascii _ _ (by decide) hcomma)
    exact ⟨List.forall_mem_cons.mpr ⟨⟨hf.unnamed, hvalue⟩, hall⟩, hrest⟩

theorem onMember (hf : Fold V K T) {n : Nat} (hv : OnValue V T n) {member : Str × PTree}
    (h : Member text member) (hn : text.length < n) (hrest : V (text ++ rest)) :
    (K member.1 ∧ T member.2) ∧ V rest := by
  obtain ⟨hlead, hname, htrail, h⟩ := h
  simp only [List.length_append, List.length_cons] at hn
  simp only [List.append_assoc, List.cons_append] at hrest
  have hquote := hf.skip (blank_ascii hlead) hrest
  obtain ⟨hkey, -, hname⟩ := hf.chars _ _ _ hname (hf.ascii _ _ (by decide) hquote)
  have hcolon := hf.skip (blank_ascii htrail) (hf.ascii _ _ (by decide) hname)
  obtain ⟨hvalue, hrest⟩ := hf.onPadded hv h (by omega) (hf.ascii _ _ (by decide) hcolon)
  exact ⟨⟨hkey, hvalue⟩, hrest⟩

theorem onMembers_succ (hf : Fold V K T) {n : Nat} (hv : OnValue V T (n + 1))
    (hm : OnMembers V K T n) : OnMembers V K T (n + 1) := by
  intro text items rest h hn hrest
  cases h with
  | last h =>
    obtain ⟨hmember, hrest⟩ := hf.onMember hv h hn hrest
    exact ⟨List.forall_mem_singleton.mpr hmember, hrest⟩
  | more h hmore =>
    rw [List.length_append, List.length_cons] at hn
    rw [List.append_assoc, List.cons_append] at hrest
    obtain ⟨hmember, hcomma⟩ := hf.onMember hv h (by omega) hrest
    obtain ⟨hall, hrest⟩ := hm _ _ _ hmore (by omega) (hf.ascii _ _ (by decide) hcomma)
    exact ⟨List.forall_mem_cons.mpr ⟨hmember, hall⟩, hrest⟩

/-- By induction on a bound for the length of the text. -/
theorem onAll (hf : Fold V K T) (n : Nat) :
    OnValue V T n ∧ OnElements V K T n ∧ OnMembers V K T n := by
  induction n with
  | zero =>
    exact ⟨fun _ _ _ _ hn => absurd hn (Nat.not_lt_zero _),
      fun _ _ _ _ hn => absurd hn (Nat.not_lt_zero _),
      fun _ _ _ _ hn => absurd hn (Nat.not_lt_zero _)⟩
  | succ n ih =>
    obtain ⟨-, he, hm⟩ := ih
    have hv := hf.onValue_succ he hm
    exact ⟨hv, hf.onElements_succ hv he, hf.onMembers_succ hv hm⟩

/-- The trees of all documents whose text satisfies `V`. -/
theorem document (hf : Fold V K T) {s : Str} {pt : PTree} (h : Document s pt)
    (hs : V (skipIntroduction s)) : T pt := by
  rw [← List.append_nil (skipIntroduction s)] at hs
  exact (hf.onPadded (hf.onAll _).1 h (Nat.lt_succ_self _) hs).1

end Fold

/-! ## Soundness -/

section
variable {s rest : Str}

theorem skipWs_split (s : Str) : ∃ blank, Blank blank ∧ s = blank ++ skipWs s :=
  ⟨s.takeWhile isWs, fun _ hb => List.mem_takeWhile_imp hb, List.takeWhile_append_dropWhile.symm⟩

theorem expectWord_sound {message : String} {word : Str} {u : Unit}
    (h : expectWord message word s = .ok (u, rest)) : s = word ++ rest := by
  induction word generalizing s with
  | nil =>
    cases h
    rfl
  | cons c word ih =>
    obtain ⟨⟨_, s₁⟩, hc, hword⟩ := read_bind_eq_ok h
    rw [expect_sound hc, ih hword]
    rfl

def SoundValue (n : Nat) : Prop :=
  ∀ s value rest, parseValue n s = .ok (value, rest) →
    ∃ lead body, Blank lead ∧ Value body value ∧ s = lead ++ (body ++ rest)

def SoundElements (n : Nat) : Prop :=
  ∀ s elements rest, parseElements n s = .ok (elements, rest) →
    ∃ text, Elements text elements ∧ s = text ++ closeBracket :: rest

def SoundMembers (n : Nat) : Prop :=
  ∀ s members rest, parseMembers n s = .ok (members, rest) →
    ∃ text, Members text members ∧ s = text ++ closeBrace :: rest

theorem soundValue_succ {n : Nat} (he : SoundElements n) (hm : SoundMembers n) :
    SoundValue (n + 1) := by
  intro s value rest h
  obtain ⟨lead, hlead, hs⟩ := skipWs_split s
  refine ⟨lead, ?_⟩
  suffices hbody : ∃ body, Value body value ∧ skipWs s = body ++ rest by
    obtain ⟨body, hvalue, hbody⟩ := hbody
    exact ⟨body, hlead, hvalue, hbody ▸ hs⟩
  rw [parseValue] at h
  split at h
  · cases h
  next c s₁ hc =>
    rw [hc]
    obtain ⟨blank, hblank, hs₁⟩ := skipWs_split s₁
    split at h
    next hbrace =>
      subst hbrace
      split at h
      · cases h
      next c₂ s₂ hc₂ =>
        rw [hc₂] at hs₁
        split at h
        next hclose =>
          cases h
          refine ⟨_, .emptyObject hblank, ?_⟩
          rw [hs₁, hclose, List.cons_append, List.append_assoc]
          rfl
        · obtain ⟨⟨members, s₃⟩, hmembers, h⟩ := read_bind_eq_ok h
          cases h
          rw [← hc₂, parseMembers_skipWs] at hmembers
          obtain ⟨text, htext, hs₂⟩ := hm _ _ _ hmembers
          refine ⟨_, .object htext, ?_⟩
          rw [hs₂, List.cons_append, List.append_assoc]
          rfl
    · split at h
      next hbracket =>
        subst hbracket
        split at h
        · cases h
        next c₂ s₂ hc₂ =>
          rw [hc₂] at hs₁
          split at h
          next hclose =>
            cases h
            refine ⟨_, .emptyArray hblank, ?_⟩
            rw [hs₁, hclose, List.cons_append, List.append_assoc]
            rfl
          · obtain ⟨⟨elements, s₃⟩, helements, h⟩ := read_bind_eq_ok h
            cases h
            rw [← hc₂, parseElements_skipWs] at helements
            obtain ⟨text, htext, hs₂⟩ := he _ _ _ helements
            refine ⟨_, .array htext, ?_⟩
            rw [hs₂, List.cons_append, List.append_assoc]
            rfl
      · split at h
        next hquote =>
          obtain ⟨⟨data, s₂⟩, hdata, h⟩ := read_bind_eq_ok h
          cases h
          obtain ⟨text, htext, hs₂⟩ := parseString_sound hdata
          refine ⟨_, .string htext, ?_⟩
          rw [hs₂, hquote, List.cons_append, List.append_assoc]
          rfl
        · split at h
          next ht =>
            obtain ⟨⟨_, s₂⟩, hword, h⟩ := read_bind_eq_ok h
            cases h
            rw [ht, expectWord_sound hword]
            exact ⟨_, .word (by decide), rfl⟩
          · split at h
            next hf =>
              obtain ⟨⟨_, s₂⟩, hword, h⟩ := read_bind_eq_ok h
              cases h
              rw [hf, expectWord_sound hword]
              exact ⟨_, .word (by decide), rfl⟩
            · split at h
              next hn =>
                obtain ⟨⟨_, s₂⟩, hword, h⟩ := read_bind_eq_ok h
                cases h
                rw [hn, expectWord_sound hword]
                exact ⟨_, .word (by decide), rfl⟩
              · obtain ⟨⟨data, s₂⟩, hdata, h⟩ := read_bind_eq_ok h
                cases h
                obtain ⟨hnumber, hs₂⟩ := parseNumber_sound hdata
                exact ⟨_, .number hnumber, hs₂⟩

theorem soundPadded {n : Nat} (hv : SoundValue n) {value : PTree}
    (h : parseValue n s = .ok (value, rest)) :
    ∃ text, Padded text value ∧ s = text ++ skipWs rest := by
  obtain ⟨lead, body, hlead, hbody, rfl⟩ := hv _ _ _ h
  obtain ⟨trail, htrail, hrest⟩ := skipWs_split rest
  refine ⟨_, .mk hlead hbody htrail, ?_⟩
  rw [List.append_assoc, List.append_assoc, ← hrest]

theorem soundElements_succ {n : Nat} (hv : SoundValue n) (he : SoundElements n) :
    SoundElements (n + 1) := by
  intro s elements rest h
  obtain ⟨⟨value, s₁⟩, hvalue, h⟩ := read_bind_eq_ok h
  obtain ⟨text, htext, hs⟩ := soundPadded hv hvalue
  dsimp only at h
  split at h
  · cases h
  next c s₂ hc =>
    rw [hc] at hs
    split at h
    next hcomma =>
      obtain ⟨⟨elements', s₃⟩, hmore, h⟩ := read_bind_eq_ok h
      cases h
      obtain ⟨text', htext', hs₂⟩ := he _ _ _ hmore
      refine ⟨_, .more htext htext', ?_⟩
      rw [hs, hs₂, hcomma, List.append_assoc, List.cons_append]
    · split at h
      next hclose =>
        cases h
        refine ⟨text, .last htext, ?_⟩
        rw [hs, hclose]
      · cases h

theorem soundMember {n : Nat} (hv : SoundValue n) {s₁ s₂ s₃ key : Str} {u : Unit} {value : PTree}
    {message message' : String} {k : Nat} (hquote : expect quote message (skipWs s) = .ok (u, s₁))
    (hkey : parseString k s₁ = .ok (key, s₂))
    (hcolon : expect colon message' (skipWs s₂) = .ok (u, s₃))
    (hvalue : parseValue n s₃ = .ok (value, rest)) :
    ∃ text, Member text (key, value) ∧ s = text ++ skipWs rest := by
  obtain ⟨lead, hlead, hs⟩ := skipWs_split s
  obtain ⟨name, hname, hs₁⟩ := parseString_sound hkey
  obtain ⟨trail, htrail, hs₂⟩ := skipWs_split s₂
  obtain ⟨text, htext, hs₃⟩ := soundPadded hv hvalue
  refine ⟨_, .mk hlead hname htrail htext, ?_⟩
  rw [expect_sound hquote, hs₁] at hs
  rw [expect_sound hcolon, hs₃] at hs₂
  rw [hs, hs₂]
  simp only [List.append_assoc, List.cons_append]

theorem soundMembers_succ {n : Nat} (hv : SoundValue n) (hm : SoundMembers n) :
    SoundMembers (n + 1) := by
  intro s members rest h
  obtain ⟨⟨_, s₁⟩, hquote, h⟩ := read_bind_eq_ok h
  obtain ⟨⟨key, s₂⟩, hkey, h⟩ := read_bind_eq_ok h
  obtain ⟨⟨_, s₃⟩, hcolon, h⟩ := read_bind_eq_ok h
  obtain ⟨⟨value, s₄⟩, hvalue, h⟩ := read_bind_eq_ok h
  obtain ⟨text, htext, hs⟩ := soundMember hv hquote hkey hcolon hvalue
  dsimp only at h
  split at h
  · cases h
  next c s₅ hc =>
    rw [hc] at hs
    split at h
    next hcomma =>
      obtain ⟨⟨members', s₆⟩, hmore, h⟩ := read_bind_eq_ok h
      cases h
      obtain ⟨text', htext', hs₅⟩ := hm _ _ _ hmore
      refine ⟨_, .more htext htext', ?_⟩
      rw [hs, hs₅, hcomma, List.append_assoc, List.cons_append]
    · split at h
      next hclose =>
        cases h
        refine ⟨text, .last htext, ?_⟩
        rw [hs, hclose]
      · cases h

/-- By induction on the fuel, as the parser goes. -/
theorem values_sound (n : Nat) : SoundValue n ∧ SoundElements n ∧ SoundMembers n := by
  induction n with
  | zero =>
    refine ⟨?_, ?_, ?_⟩
    · intro s value rest h
      cases h
    · intro s elements rest h
      cases h
    · intro s members rest h
      cases h
  | succ n ih =>
    obtain ⟨hv, he, hm⟩ := ih
    exact ⟨soundValue_succ he hm, soundElements_succ hv he, soundMembers_succ hv hm⟩

end

/-! ## Completeness -/

/-- What may follow a value. -/
def EndsValue (s : Str) : Prop :=
  ∀ c ∈ s.head?, isWs c = true ∨ c = comma ∨ c = closeBracket ∨ c = closeBrace

section
variable {n : Nat} {text rest : Str} {value : PTree}

theorem EndsValue.endsNumber (h : EndsValue rest) : EndsNumber rest := by
  intro c hc
  have hws : ∀ c : UInt8, isWs c = true → isDigit c = false ∧ c ≠ letter '.' ∧ c ≠ letter 'e' ∧
      c ≠ letter 'E' := by
    refine forall_byte ?_
    decide +kernel
  rcases h c hc with h | rfl | rfl | rfl
  · exact hws c h
  · decide
  · decide
  · decide

theorem endsValue_cons {c : UInt8} (h : c = comma ∨ c = closeBracket ∨ c = closeBrace)
    (s : Str) : EndsValue (c :: s) := by
  rintro _ ⟨⟩
  exact Or.inr h

theorem EndsValue.append {blank : Str} (hblank : Blank blank) (h : EndsValue rest) :
    EndsValue (blank ++ rest) := by
  cases blank with
  | nil => exact h
  | cons c blank =>
    rintro _ ⟨⟩
    exact Or.inl (hblank c List.mem_cons_self)

/-- The first byte of a number is none that another kind of value starts with. -/
theorem number_head (h : Number text) :
    ∃ c s, text = c :: s ∧ (isDigit c = true ∨ c = minusSign) := by
  obtain ⟨hsign, hint, -, -⟩ := h
  rcases hsign with rfl | rfl
  · obtain ⟨d, ds, rfl, hd⟩ := intPart_head hint
    exact ⟨d, _, rfl, Or.inl hd⟩
  · exact ⟨minusSign, _, rfl, Or.inr rfl⟩

theorem numeral_head : ∀ c : UInt8, isDigit c = true ∨ c = minusSign →
    isWs c = false ∧ c ≠ openBrace ∧ c ≠ openBracket ∧ c ≠ quote ∧ c ≠ letter 't' ∧
      c ≠ letter 'f' ∧ c ≠ letter 'n' ∧ c ≠ closeBracket := by
  refine forall_byte ?_
  decide +kernel

/-- A value starts with no white space and with no closing bracket. -/
theorem Value.head (h : Value text value) :
    ∃ c s, text = c :: s ∧ isWs c = false ∧ c ≠ closeBracket := by
  cases h with
  | emptyObject | object => exact ⟨openBrace, _, rfl, by decide, by decide⟩
  | emptyArray | array => exact ⟨openBracket, _, rfl, by decide, by decide⟩
  | string => exact ⟨quote, _, rfl, by decide, by decide⟩
  | word h =>
    have hall : ∀ text ∈ words, ∃ c s, text = c :: s ∧ isWs c = false ∧ c ≠ closeBracket := by
      simp only [words, List.forall_mem_cons]
      exact ⟨⟨_, _, rfl, by decide, by decide⟩, ⟨_, _, rfl, by decide, by decide⟩,
        ⟨_, _, rfl, by decide, by decide⟩, fun _ h => absurd h List.not_mem_nil⟩
    exact hall _ h
  | number h =>
    obtain ⟨c, s, rfl, hc⟩ := number_head h
    obtain ⟨hws, -, -, -, -, -, -, hclose⟩ := numeral_head c hc
    exact ⟨c, s, rfl, hws, hclose⟩

theorem Padded.head (h : Padded text value) (rest : Str) :
    ∃ c s, skipWs (text ++ rest) = c :: s ∧ c ≠ closeBracket := by
  obtain ⟨hlead, hbody, -⟩ := h
  obtain ⟨c, s, rfl, hws, hclose⟩ := hbody.head
  rw [List.append_assoc, skipWs_append hlead, List.cons_append, List.cons_append, skipWs_cons hws]
  exact ⟨c, _, rfl, hclose⟩

theorem Elements.head {elements : List (Str × PTree)} (h : Elements text elements) (rest : Str) :
    ∃ c s, skipWs (text ++ rest) = c :: s ∧ c ≠ closeBracket := by
  cases h with
  | last h => exact h.head rest
  | more h =>
    rw [List.append_assoc]
    exact h.head _

theorem Member.head {member : Str × PTree} (h : Member text member) (rest : Str) :
    ∃ s, skipWs (text ++ rest) = quote :: s := by
  obtain ⟨hlead, -, -, -⟩ := h
  rw [List.append_assoc, skipWs_append hlead, List.cons_append, skipWs_cons (by decide)]
  exact ⟨_, rfl⟩

theorem Members.head {members : List (Str × PTree)} (h : Members text members) (rest : Str) :
    ∃ s, skipWs (text ++ rest) = quote :: s := by
  cases h with
  | last h => exact h.head rest
  | more h =>
    rw [List.append_assoc]
    exact h.head _

theorem expectWord_complete (message : String) (word rest : Str) :
    expectWord message word (word ++ rest) = .ok ((), rest) := by
  induction word with
  | nil => rfl
  | cons c word ih =>
    rw [List.cons_append, expectWord, expect_complete]
    exact ih

theorem parseValue_string {data : Str} (h : Chars text data) (rest : Str) :
    parseValue (n + 1) (quote :: (text ++ quote :: rest)) = .ok (leaf data, rest) := by
  rw [parseValue, skipWs_cons (by decide)]
  dsimp only
  rw [if_neg (by decide), if_neg (by decide), if_pos rfl, parseString_complete h rest]
  · rfl
  · rw [List.length_append]
    omega

theorem parseValue_word (h : text ∈ words) (rest : Str) :
    parseValue (n + 1) (text ++ rest) = .ok (leaf text, rest) := by
  simp only [words, List.mem_cons, List.not_mem_nil, or_false] at h
  rcases h with rfl | rfl | rfl
  · show parseValue (n + 1) (letter 't' :: (lit "rue" ++ rest)) = _
    rw [parseValue, skipWs_cons (by decide)]
    dsimp only
    rw [if_neg (by decide), if_neg (by decide), if_neg (by decide), if_pos rfl,
      expectWord_complete]
    rfl
  · show parseValue (n + 1) (letter 'f' :: (lit "alse" ++ rest)) = _
    rw [parseValue, skipWs_cons (by decide)]
    dsimp only
    rw [if_neg (by decide), if_neg (by decide), if_neg (by decide), if_neg (by decide), if_pos rfl,
      expectWord_complete]
    rfl
  · show parseValue (n + 1) (letter 'n' :: (lit "ull" ++ rest)) = _
    rw [parseValue, skipWs_cons (by decide)]
    dsimp only
    rw [if_neg (by decide), if_neg (by decide), if_neg (by decide), if_neg (by decide),
      if_neg (by decide), if_pos rfl, expectWord_complete]
    rfl

theorem parseValue_number (h : Number text) (hrest : EndsNumber rest) :
    parseValue (n + 1) (text ++ rest) = .ok (leaf text, rest) := by
  have hread := parseNumber_complete h hrest
  obtain ⟨c, s, rfl, hc⟩ := number_head h
  obtain ⟨hws, hbrace, hbracket, hquote, ht, hf, hn, -⟩ := numeral_head c hc
  rw [List.cons_append] at hread ⊢
  rw [parseValue, skipWs_cons hws]
  dsimp only
  rw [if_neg hbrace, if_neg hbracket, if_neg hquote, if_neg ht, if_neg hf, if_neg hn, hread]
  rfl

/-- What is left of a list after an item and its white space. -/
inductive After (close : UInt8) (parse : Str → Except ReadError (List (Str × PTree) × Str))
    (rest after : Str) : List (Str × PTree) → Prop where
  | close (h : skipWs after = close :: rest) : After close parse rest after []
  | comma {s : Str} {items : List (Str × PTree)} (h : skipWs after = comma :: s)
      (hitems : parse s = .ok (items, rest)) : After close parse rest after items

theorem parseElements_after {s after : Str} {elements : List (Str × PTree)}
    (h : parseValue n s = .ok (value, after))
    (hafter : After closeBracket (parseElements n) rest after elements) :
    parseElements (n + 1) s = .ok (([], value) :: elements, rest) := by
  rw [parseElements, h]
  dsimp only [bind, Except.bind]
  cases hafter with
  | close hclose =>
    rw [hclose]
    rfl
  | comma hcomma hitems =>
    rw [hcomma]
    dsimp only
    rw [if_pos rfl, hitems]
    rfl

theorem parseMembers_after {lead name trail s after key : Str} {members : List (Str × PTree)}
    (hlead : Blank lead) (hname : Chars name key) (htrail : Blank trail)
    (h : parseValue n s = .ok (value, after))
    (hafter : After closeBrace (parseMembers n) rest after members) :
    parseMembers (n + 1) (lead ++ quote :: (name ++ quote :: (trail ++ colon :: s))) =
      .ok ((key, value) :: members, rest) := by
  rw [parseMembers, skipWs_append hlead, skipWs_cons (by decide), expect_complete]
  dsimp only [bind, Except.bind]
  rw [parseString_complete hname _ (by rw [List.length_append]; omega)]
  dsimp only
  rw [skipWs_append htrail, skipWs_cons (by decide), expect_complete]
  dsimp only
  rw [h]
  dsimp only
  cases hafter with
  | close hclose =>
    rw [hclose]
    rfl
  | comma hcomma hitems =>
    rw [hcomma]
    dsimp only
    rw [if_pos rfl, hitems]
    rfl

/-! The fuel that `n` stands for is two units for each byte of the text, as for the
reader by itself. -/

def CompleteValue (n : Nat) : Prop :=
  ∀ text value rest, Value text value → EndsValue rest → 2 * text.length + 1 ≤ n →
    parseValue n (text ++ rest) = .ok (value, rest)

def CompleteElements (n : Nat) : Prop :=
  ∀ text elements rest, Elements text elements → 2 * text.length + 2 ≤ n →
    parseElements n (text ++ closeBracket :: rest) = .ok (elements, rest)

def CompleteMembers (n : Nat) : Prop :=
  ∀ text members rest, Members text members → 2 * text.length + 2 ≤ n →
    parseMembers n (text ++ closeBrace :: rest) = .ok (members, rest)

theorem completeValue_succ (he : CompleteElements n) (hm : CompleteMembers n) :
    CompleteValue (n + 1) := by
  intro text value rest h hrest hn
  cases h with
  | emptyObject hblank =>
    rw [List.cons_append, List.append_assoc]
    exact parseValue_emptyObject hblank
  | emptyArray hblank =>
    rw [List.cons_append, List.append_assoc, parseValue, skipWs_cons (by decide)]
    dsimp only
    rw [if_neg (by decide), if_pos rfl, skipWs_append hblank, List.singleton_append,
      skipWs_cons (by decide)]
    rfl
  | @object text members h =>
    obtain ⟨s, hhead⟩ := h.head (closeBrace :: rest)
    rw [List.length_cons, List.length_append, List.length_singleton] at hn
    rw [List.cons_append, List.append_assoc]
    exact parseValue_object hhead (by decide) (hm _ _ _ h (by omega))
  | @array text elements h =>
    obtain ⟨c, s, hhead, hc⟩ := h.head (closeBracket :: rest)
    rw [List.length_cons, List.length_append, List.length_singleton] at hn
    rw [List.cons_append, List.append_assoc]
    exact parseValue_array hhead hc (he _ _ _ h (by omega))
  | string h =>
    rw [List.cons_append, List.append_assoc]
    exact parseValue_string h rest
  | word h => exact parseValue_word h rest
  | number h => exact parseValue_number h hrest.endsNumber

theorem completePadded (hv : CompleteValue n) (h : Padded text value) (hrest : EndsValue rest)
    (hn : 2 * text.length + 1 ≤ n) :
    ∃ after, parseValue n (text ++ rest) = .ok (value, after) ∧ skipWs after = skipWs rest := by
  obtain @⟨lead, body, trail, _, hlead, hbody, htrail⟩ := h
  rw [List.length_append, List.length_append] at hn
  refine ⟨trail ++ rest, ?_, skipWs_append htrail rest⟩
  rw [List.append_assoc, List.append_assoc, parseValue_append n hlead]
  exact hv _ _ _ hbody (hrest.append htrail) (by omega)

theorem completeElements_succ (hv : CompleteValue n) (he : CompleteElements n) :
    CompleteElements (n + 1) := by
  intro text elements rest h hn
  cases h with
  | last h =>
    have hends := endsValue_cons (Or.inr (Or.inl rfl)) rest
    obtain ⟨after, hread, hafter⟩ := completePadded hv h hends (by omega)
    exact parseElements_after hread (.close hafter)
  | @more text text' value elements h hmore =>
    rw [List.length_append, List.length_cons] at hn
    rw [List.append_assoc, List.cons_append]
    have hends := endsValue_cons (Or.inl rfl) (text' ++ closeBracket :: rest)
    obtain ⟨after, hread, hafter⟩ := completePadded hv h hends (by omega)
    exact parseElements_after hread (.comma hafter (he _ _ _ hmore (by omega)))

theorem completeMembers_succ (hv : CompleteValue n) (hm : CompleteMembers n) :
    CompleteMembers (n + 1) := by
  intro text members rest h hn
  cases h with
  | last h =>
    obtain ⟨hlead, hname, htrail, h⟩ := h
    have hends := endsValue_cons (Or.inr (Or.inr rfl)) rest
    simp only [List.length_append, List.length_cons] at hn
    obtain ⟨after, hread, hafter⟩ := completePadded hv h hends (by omega)
    simp only [List.append_assoc, List.cons_append]
    exact parseMembers_after hlead hname htrail hread (.close hafter)
  | @more text text' member members h hmore =>
    obtain ⟨hlead, hname, htrail, h⟩ := h
    have hends := endsValue_cons (Or.inl rfl) (text' ++ closeBrace :: rest)
    simp only [List.length_append, List.length_cons] at hn
    obtain ⟨after, hread, hafter⟩ := completePadded hv h hends (by omega)
    simp only [List.append_assoc, List.cons_append]
    exact parseMembers_after hlead hname htrail hread (.comma hafter (hm _ _ _ hmore (by omega)))

theorem values_complete (n : Nat) : CompleteValue n ∧ CompleteElements n ∧ CompleteMembers n := by
  induction n with
  | zero =>
    refine ⟨?_, ?_, ?_⟩
    · intro text value rest _ _ hn
      omega
    · intro text elements rest _ hn
      omega
    · intro text members rest _ hn
      omega
  | succ n ih =>
    obtain ⟨hv, he, hm⟩ := ih
    exact ⟨completeValue_succ he hm, completeElements_succ hv he, completeMembers_succ hv hm⟩

end

/-! ## Documents -/

theorem skipWs_eq_nil {s : Str} : skipWs s = [] ↔ Blank s := List.dropWhile_eq_nil_iff

theorem document_of_readJson {s : Str} {pt : PTree} (h : readJson s = .ok pt) : Document s pt := by
  unfold readJson at h
  split at h
  next pt' hp =>
    cases h
    obtain ⟨⟨value, rest⟩, hvalue, hp⟩ := read_bind_eq_ok hp
    dsimp only at hp
    split at hp
    next hblank =>
      cases hp
      obtain ⟨lead, body, hlead, hbody, hs⟩ := (values_sound _).1 _ _ _ hvalue
      rw [Document, hs]
      exact .mk hlead hbody (skipWs_eq_nil.mp hblank)
    · cases hp
  · cases h
  · cases h

theorem readJson_of_document {s : Str} {pt : PTree} (h : Document s pt) : readJson s = .ok pt := by
  have hends : EndsValue [] := nofun
  obtain ⟨after, hread, hafter⟩ := completePadded (values_complete _).1 h hends (le_refl _)
  rw [List.append_nil] at hread
  rw [readJson, parseDocument, hread]
  dsimp only [bind, Except.bind]
  rw [hafter]
  rfl

theorem readJson_iff {s : Str} {pt : PTree} : readJson s = .ok pt ↔ Document s pt :=
  ⟨document_of_readJson, readJson_of_document⟩

/-- The reader decides the grammar: what it builds is the one tree the text denotes, and it
fails on the texts that denote none, always with an error that the parser raises. -/
theorem readJson_decides (s : Str) :
    (∀ pt, readJson s = .ok pt ↔ Document s pt) ∧
      (∀ pt pt', Document s pt → Document s pt' → pt = pt') ∧
      ((∃ fault, readJson s = .error fault) ↔ ∀ pt, ¬ Document s pt) ∧
      ∀ fault, readJson s = .error fault →
        ∃ message, parseDocument s = .error (.parse message) ∧ fault = .exception message := by
  refine ⟨fun pt => readJson_iff, fun pt pt' h h' => ?_,
    ⟨fun h pt hpt => ?_, fun h => ?_⟩, fun fault h => readJson_error h⟩
  · have heq := (readJson_of_document h).symm.trans (readJson_of_document h')
    exact Except.ok.inj heq
  · obtain ⟨fault, hfault⟩ := h
    rw [readJson_of_document hpt] at hfault
    cases hfault
  · cases hread : readJson s with
    | error fault => exact ⟨fault, rfl⟩
    | ok pt => exact absurd (document_of_readJson hread) (h pt)

end Json
end SSVim
