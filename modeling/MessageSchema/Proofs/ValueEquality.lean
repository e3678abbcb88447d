import MessageSchema.Yaml.Value

/-!
Whether two values are one and the same can be decided. This is finer than the equality of keys,
which does not look at the order of entries or at the sign of a zero.
-/

namespace MessageSchema.Yaml.Value

set_option autoImplicit false

mutual

def identical : Value → Value → Bool
  | null, null => true
  | bool a, bool b => a == b
  | number a, number b => a = b
  | string a, string b => a == b
  | sequence a, sequence b => identicalItems a b
  | mapping a, mapping b => identicalEntries a b
  | tagged s a, tagged t b => s = t && identical a b
  | _, _ => false

def identicalItems : List Value → List Value → Bool
  | [], [] => true
  | a :: as, b :: bs => identical a b && identicalItems as bs
  | _, _ => false

def identicalEntries : List (Value × Value) → List (Value × Value) → Bool
  | [], [] => true
  | (key, value) :: rest, (key', value') :: rest' =>
      identical key key' && identical value value' && identicalEntries rest rest'
  | _, _ => false

end

mutual

theorem identical_iff : (a b : Value) → identical a b = true ↔ a = b
  | .null, b => by cases b <;> simp [identical]
  | .bool _, b => by cases b <;> simp [identical]
  | .number _, b => by cases b <;> simp [identical]
  | .string _, b => by cases b <;> simp [identical]
  | .sequence items, b => by
      cases b with
      | sequence other => simp only [identical, identical_items_iff items other, sequence.injEq]
      | _ => simp [identical]
  | .mapping entries, b => by
      cases b with
      | mapping other => simp only [identical, identical_entries_iff entries other, mapping.injEq]
      | _ => simp [identical]
  | .tagged tag value, b => by
      cases b with
      | tagged tag' value' =>
          simp only [identical, Bool.and_eq_true, decide_eq_true_eq, identical_iff value value',
            tagged.injEq]
      | _ => simp [identical]

theorem identical_items_iff : (items other : List Value) →
    identicalItems items other = true ↔ items = other
  | [], other => by cases other <;> simp [identicalItems]
  | item :: rest, other => by
      cases other with
      | nil => simp [identicalItems]
      | cons item' rest' =>
          simp only [identicalItems, Bool.and_eq_true, identical_iff item item',
            identical_items_iff rest rest', List.cons.injEq]

theorem identical_entries_iff : (entries other : List (Value × Value)) →
    identicalEntries entries other = true ↔ entries = other
  | [], other => by cases other <;> simp [identicalEntries]
  | (key, value) :: rest, other => by
      cases other with
      | nil => simp [identicalEntries]
      | cons entry rest' =>
          rcases entry with ⟨key', value'⟩
          simp only [identicalEntries, Bool.and_eq_true, identical_iff key key',
            identical_iff value value', identical_entries_iff rest rest', List.cons.injEq,
            Prod.mk.injEq]

end

instance : DecidableEq Value := fun a b => decidable_of_iff _ (identical_iff a b)

end MessageSchema.Yaml.Value
