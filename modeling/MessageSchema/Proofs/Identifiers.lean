import MessageSchema.Text.Ident
import Mathlib.Data.List.Basic

/-!
Identifiers as the language of the generated module has them. The test for identifiers looks at the
characters of a name only, while the language keeps some words for itself, and the underscore alone
names nothing.
-/

namespace MessageSchema.Text

set_option autoImplicit false

def IsAsciiLetter (c : Char) : Prop := ('A' ≤ c ∧ c ≤ 'Z') ∨ ('a' ≤ c ∧ c ≤ 'z')

def IsAsciiDigit (c : Char) : Prop := '0' ≤ c ∧ c ≤ '9'

/-- A name of ASCII letters, digits and underscores that does not begin with a digit. -/
structure IsAsciiIdentifier (name : String) : Prop where
  filled : name ≠ ""
  chars : ∀ c ∈ name.toList, IsAsciiLetter c ∨ IsAsciiDigit c ∨ c = '_'
  first : ∀ c, name.toList.head? = some c → ¬IsAsciiDigit c

theorem is_alpha_iff (c : Char) : c.isAlpha = true ↔ IsAsciiLetter c := by
  delta Char.isAlpha Char.isUpper Char.isLower
  simp only [Bool.or_eq_true, Bool.and_eq_true, decide_eq_true_eq, ge_iff_le]
  exact Iff.rfl

theorem is_digit_iff (c : Char) : c.isDigit = true ↔ IsAsciiDigit c := by
  delta Char.isDigit
  simp only [Bool.and_eq_true, decide_eq_true_eq, ge_iff_le]
  exact Iff.rfl

theorem is_ident_start_iff (c : Char) : isIdentStart c = true ↔ IsAsciiLetter c ∨ c = '_' := by
  rw [isIdentStart, Bool.or_eq_true, is_alpha_iff, beq_iff_eq]

theorem is_ident_char_iff (c : Char) :
    isIdentChar c = true ↔ IsAsciiLetter c ∨ IsAsciiDigit c ∨ c = '_' := by
  rw [isIdentChar, Char.isAlphanum, Bool.or_eq_true, Bool.or_eq_true, is_alpha_iff, is_digit_iff,
    beq_iff_eq, or_assoc]

theorem not_is_ascii_digit_of_letter {c : Char} (letter : IsAsciiLetter c) : ¬IsAsciiDigit c := by
  intro digit
  have low : c ≤ '9' := digit.2
  rcases letter with capital | small
  · exact absurd (Std.le_trans capital.1 low) (by decide)
  · exact absurd (Std.le_trans small.1 low) (by decide)

theorem is_identifier_iff (name : String) :
    isIdentifier name = true ↔ IsAsciiIdentifier name := by
  rw [isIdentifier]
  cases chars : name.toList with
  | nil =>
      have empty : name = "" := String.toList_inj.1 chars
      constructor
      · intro word
        cases word
      · intro ident
        exact absurd empty ident.filled
  | cons first rest =>
      simp only [isIdentWord, Bool.and_eq_true, List.all_eq_true]
      constructor
      · intro word
        constructor
        · intro empty
          rw [empty] at chars
          cases chars
        · rw [chars, List.forall_mem_cons]
          exact ⟨(is_ident_char_iff first).1 (is_ident_char_of_is_ident_start word.1),
            fun c member => (is_ident_char_iff c).1 (word.2 c member)⟩
        · intro c head
          rw [chars, List.head?_cons, Option.some.injEq] at head
          rcases (is_ident_start_iff first).1 word.1 with letter | underscore
          · exact head ▸ not_is_ascii_digit_of_letter letter
          · rw [← head, underscore]
            unfold IsAsciiDigit
            decide
      · intro ident
        have all := ident.chars
        rw [chars, List.forall_mem_cons] at all
        constructor
        · rw [is_ident_start_iff]
          rcases all.1 with letter | digit | underscore
          · exact Or.inl letter
          · exact absurd digit (ident.first first (by rw [chars, List.head?_cons]))
          · exact Or.inr underscore
        · intro c member
          exact (is_ident_char_iff c).2 (all.2 c member)

instance (name : String) : Decidable (IsAsciiIdentifier name) :=
  decidable_of_iff _ (is_identifier_iff name)

/-- The words that are no names, with those that are kept for later. -/
def keywords : List String := [
  "as", "break", "const", "continue", "crate", "else", "enum", "extern", "false", "fn", "for", "if",
  "impl", "in", "let", "loop", "match", "mod", "move", "mut", "pub", "ref", "return", "self", "Self",
  "static", "struct", "super", "trait", "true", "type", "unsafe", "use", "where", "while", "async",
  "await", "dyn",
  "abstract", "become", "box", "do", "final", "macro", "override", "priv", "typeof", "unsized",
  "virtual", "yield", "try"]

/-- A name that an item can have. -/
structure IsItemName (name : String) : Prop where
  ident : IsAsciiIdentifier name
  notBlank : name ≠ "_"
  notKeyword : name ∉ keywords

theorem is_item_name_iff {name : String} (ident : IsAsciiIdentifier name) :
    IsItemName name ↔ name ≠ "_" ∧ name ∉ keywords := by
  constructor
  · intro free
    exact ⟨free.notBlank, free.notKeyword⟩
  · intro apart
    exact ⟨ident, apart.1, apart.2⟩

end MessageSchema.Text
