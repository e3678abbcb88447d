import MessageSchema.Proofs.References
import MessageSchema.Spec

/-!
The characters with which numbers are spelled. None of them is a dollar sign, so a key that becomes
its spelling does not begin to introduce references.
-/

namespace MessageSchema

set_option autoImplicit false

open Yaml Rename

namespace DecimalStyle

theorem ne_dollar_of_digit {n : Nat} {c : Char} (member : c ∈ Nat.toDigits 10 n) : c ≠ '$' := by
  have digit := Nat.isDigit_of_mem_toDigits (by decide) (by decide) member
  rintro rfl
  contradiction

theorem dollar_not_mem_int (n : Int) : '$' ∉ (toString n).toList := by
  have plain : ∀ m : Nat, '$' ∉ m.repr.toList := by
    intro m member
    exact ne_dollar_of_digit (by simpa [Nat.repr] using member) rfl
  rw [Int.toString_eq_repr, Int.repr_eq_if]
  split
  · exact plain _
  · rw [String.toList_append, List.mem_append, not_or]
    exact ⟨by decide, plain _⟩

theorem dollar_not_mem_positional {digits : List Char} (plain : '$' ∉ digits) (places : Int) :
    '$' ∉ positional digits places := by
  have front : ∀ n, '$' ∉ digits.take n := fun n member => plain (List.mem_of_mem_take member)
  have back : ∀ n, '$' ∉ digits.drop n := fun n member => plain (List.mem_of_mem_drop member)
  unfold positional zeros
  split
  · simp [plain]
  · simp only
    split
    · simp [plain]
    · simp [front, back]

theorem dollar_not_mem_scientific {digits : List Char} (plain : '$' ∉ digits) (exponent : Int) :
    '$' ∉ scientific digits exponent := by
  have power := dollar_not_mem_int exponent
  unfold scientific
  split
  · simp only [List.mem_cons, not_or] at plain
    simp only [List.mem_append, List.mem_cons, not_or]
    exact ⟨⟨plain.1, by decide, plain.2⟩, by decide, power⟩
  · simp only [List.mem_append, List.mem_cons, not_or]
    exact ⟨plain, by decide, power⟩

theorem dollar_not_mem_magnitude (style : DecimalStyle) (x : Binary64) :
    '$' ∉ style.magnitude x := by
  have plain : '$' ∉ Nat.toDigits 10 x.shortest.digits := fun member =>
    ne_dollar_of_digit member rfl
  unfold magnitude
  split
  · decide
  · simp only
    split
    · exact dollar_not_mem_positional plain _
    · exact dollar_not_mem_scientific plain _

end DecimalStyle

theorem Yaml.Number.dollar_not_mem_text (n : Number) : '$' ∉ n.text.toList := by
  cases n with
  | int value => exact DecimalStyle.dollar_not_mem_int value
  | float x =>
      have size := DecimalStyle.dollar_not_mem_magnitude Number.floatStyle x
      simp only [Number.text, DecimalStyle.write, String.toList_ofList]
      split
      · decide
      · have unsigned : '$' ∉ if x.isInfinite then Number.floatStyle.infinity
            else Number.floatStyle.magnitude x := by
          split
          · decide
          · exact size
        split
        · simpa using unsigned
        · exact unsigned

namespace Spec

theorem is_reference_key_respelled (key : Value) :
    isReferenceKey (respelled key) = isReferenceKey key := by
  have plain : ∀ text : String, '$' ∉ text.toList → isReferenceKey (.string text) = false := by
    intro text absent
    rw [is_reference_key_string, beq_eq_false_iff_ne]
    rintro rfl
    exact absent (by decide)
  cases key with
  | number n => exact plain _ n.dollar_not_mem_text
  | bool b => cases b <;> exact plain _ (by decide)
  | _ => rfl

end Spec

end MessageSchema
