/-!
Identifiers are ASCII words: letters, digits and the underscore, the first not a digit. The same
characters decide where a definition name may begin in a raw text.
-/

namespace MessageSchema.Text

set_option autoImplicit false

def isIdentChar (c : Char) : Bool := c.isAlphanum || c == '_'

def isIdentStart (c : Char) : Bool := c.isAlpha || c == '_'

theorem is_ident_char_of_is_ident_start {c : Char} (h : isIdentStart c = true) :
    isIdentChar c = true := by
  simp only [isIdentStart, isIdentChar, Char.isAlphanum, Bool.or_eq_true] at h ⊢
  rcases h with letter | underscore
  · exact Or.inl (Or.inl letter)
  · exact Or.inr underscore

theorem ascii_of_is_ident_char {c : Char} (h : isIdentChar c = true) : c.toNat < 128 := by
  delta isIdentChar Char.isAlphanum Char.isAlpha Char.isUpper Char.isLower Char.isDigit at h
  simp only [Bool.or_eq_true, Bool.and_eq_true, decide_eq_true_eq, beq_iff_eq,
    UInt32.le_iff_toNat_le, ge_iff_le] at h
  change (((65 ≤ c.toNat ∧ c.toNat ≤ 90) ∨ (97 ≤ c.toNat ∧ c.toNat ≤ 122)) ∨
    (48 ≤ c.toNat ∧ c.toNat ≤ 57)) ∨ c = '_' at h
  rcases h with range | rfl
  · omega
  · decide

/-- A property of the ASCII characters is checked on the first 128 code points. -/
theorem forall_ascii {p : Char → Prop} (all : ∀ n : Fin 128, p (Char.ofNat n)) {c : Char}
    (ascii : c.toNat < 128) : p c := by
  have := all ⟨c.toNat, ascii⟩
  rwa [Char.ofNat_toNat] at this

def isIdentWord : List Char → Bool
  | [] => false
  | c :: rest => isIdentStart c && rest.all isIdentChar

theorem is_ident_char_of_mem_is_ident_word {word : List Char} (h : isIdentWord word = true) :
    ∀ c ∈ word, isIdentChar c = true := by
  cases word with
  | nil => simp [isIdentWord] at h
  | cons first rest =>
      simp only [isIdentWord, Bool.and_eq_true, List.all_eq_true] at h
      intro c member
      rcases List.mem_cons.1 member with rfl | later
      · exact is_ident_char_of_is_ident_start h.1
      · exact h.2 c later

def isIdentifier (name : String) : Bool := isIdentWord name.toList

end MessageSchema.Text
