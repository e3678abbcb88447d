import MessageSchema.Yaml.Value
import Mathlib.Data.Fintype.EquivFin

/-!
Equality of keys is an equivalence. Reflexivity and transitivity hold of all values. Symmetry needs
that no mapping repeats a key: two mappings are compared by looking for each entry of the first in
the second, and only among distinct keys does an equal number of entries make up for the other
direction.
-/

namespace MessageSchema

set_option autoImplicit false

namespace Binary64

theorem same_symm {x y : Binary64} (equal : x.same y = true) : y.same x = true := by
  simp only [same, Bool.or_eq_true, beq_iff_eq, Bool.and_eq_true] at equal ⊢
  rcases equal with (rfl | ⟨left, right⟩) | ⟨left, right⟩
  · exact Or.inl (Or.inl rfl)
  · exact Or.inl (Or.inr ⟨right, left⟩)
  · exact Or.inr ⟨right, left⟩

theorem is_nan_of_is_zero {x : Binary64} (zero : x.isZero = true) : x.isNaN = false := by
  simp only [isZero, Bool.and_eq_true, beq_iff_eq] at zero
  simp only [isNaN, zero.2, bne_self_eq_false, Bool.and_false]

theorem same_trans {x y z : Binary64} (first : x.same y = true) (second : y.same z = true) :
    x.same z = true := by
  simp only [same, Bool.or_eq_true, beq_iff_eq, Bool.and_eq_true] at first second ⊢
  rcases first with (rfl | ⟨zero, middle⟩) | ⟨nan, middle⟩
  · exact second
  · rcases second with (rfl | ⟨_, other⟩) | ⟨impossible, _⟩
    · exact Or.inl (Or.inr ⟨zero, middle⟩)
    · exact Or.inl (Or.inr ⟨zero, other⟩)
    · rw [is_nan_of_is_zero middle] at impossible
      contradiction
  · rcases second with (rfl | ⟨impossible, _⟩) | ⟨_, other⟩
    · exact Or.inr ⟨nan, middle⟩
    · rw [is_nan_of_is_zero impossible] at middle
      contradiction
    · exact Or.inr ⟨nan, other⟩

end Binary64

namespace Yaml

theorem Number.same_symm {m n : Number} (equal : m.same n = true) : n.same m = true := by
  cases m with
  | int a =>
      cases n with
      | int b =>
          simp only [Number.same, beq_iff_eq] at equal ⊢
          exact equal.symm
      | float y => simp [Number.same] at equal
  | float x =>
      cases n with
      | int b => simp [Number.same] at equal
      | float y => exact Binary64.same_symm equal

theorem Number.same_trans {l m n : Number} (first : l.same m = true) (second : m.same n = true) :
    l.same n = true := by
  cases l with
  | int a =>
      cases m with
      | int b =>
          have middle : a = b := by simpa [Number.same] using first
          subst middle
          exact second
      | float y => simp [Number.same] at first
  | float x =>
      cases m with
      | int b => simp [Number.same] at first
      | float y =>
          cases n with
          | int c => simp [Number.same] at second
          | float z => exact Binary64.same_trans first second

namespace Value

theorem entries_within_iff (entries other : List (Value × Value)) :
    entriesWithin entries other = true ↔
      ∀ entry ∈ entries, ∃ found ∈ other, entry.1.same found.1 = true ∧
        entry.2.same found.2 = true := by
  induction entries with
  | nil => simp [entriesWithin]
  | cons entry rest ih =>
      rcases entry with ⟨key, value⟩
      simp only [entriesWithin, Bool.and_eq_true, ih, List.any_eq_true, List.forall_mem_cons]

mutual

theorem same_refl : (value : Value) → value.same value = true
  | .null => rfl
  | .bool b => by simp [same]
  | .number n => by simp [same, Number.same_refl]
  | .string text => by simp [same]
  | .sequence items => by simp only [same, same_items_refl items]
  | .mapping entries => by
      simp only [same, beq_self_eq_true, Bool.true_and]
      exact (entries_within_iff _ _).2 fun entry member =>
        ⟨entry, member, same_refl_entries entries entry member⟩
  | .tagged tag value => by simp [same, same_refl value]

theorem same_items_refl : (items : List Value) → sameItems items items = true
  | [] => rfl
  | item :: rest => by simp [sameItems, same_refl item, same_items_refl rest]

theorem same_refl_entries : (entries : List (Value × Value)) → ∀ entry ∈ entries,
    entry.1.same entry.1 = true ∧ entry.2.same entry.2 = true
  | [], _, member => by simp at member
  | (key, value) :: rest, entry, member => by
      rcases List.mem_cons.1 member with rfl | later
      · exact ⟨same_refl key, same_refl value⟩
      · exact same_refl_entries rest entry later

end

mutual

theorem same_trans : (a b c : Value) → a.same b = true → b.same c = true → a.same c = true
  | .null, b, c, first, second => by
      cases b <;> simp [same] at first
      exact second
  | .bool x, b, c, first, second => by
      cases b <;> simp [same] at first
      subst first
      exact second
  | .string x, b, c, first, second => by
      rw [string_same] at first
      subst first
      exact second
  | .number x, b, c, first, second => by
      cases b <;> simp only [same, Bool.false_eq_true] at first
      cases c <;> simp only [same, Bool.false_eq_true] at second ⊢
      exact Number.same_trans first second
  | .sequence xs, b, c, first, second => by
      cases b <;> simp only [same, Bool.false_eq_true] at first
      cases c <;> simp only [same, Bool.false_eq_true] at second ⊢
      exact same_items_trans xs _ _ first second
  | .mapping xs, b, c, first, second => by
      cases b <;> simp only [same, Bool.false_eq_true, Bool.and_eq_true, beq_iff_eq] at first
      cases c <;> simp only [same, Bool.false_eq_true, Bool.and_eq_true, beq_iff_eq] at second ⊢
      refine ⟨first.1.trans second.1, (entries_within_iff _ _).2 fun entry member => ?_⟩
      obtain ⟨middle, middleMember, keys, values⟩ := (entries_within_iff _ _).1 first.2 entry member
      obtain ⟨last, lastMember, keys', values'⟩ :=
        (entries_within_iff _ _).1 second.2 middle middleMember
      have step := same_trans_entries xs entry member
      exact ⟨last, lastMember, step.1 _ _ keys keys', step.2 _ _ values values'⟩
  | .tagged s x, b, c, first, second => by
      cases b <;> simp only [same, Bool.false_eq_true, Bool.and_eq_true, beq_iff_eq] at first
      cases c <;> simp only [same, Bool.false_eq_true, Bool.and_eq_true, beq_iff_eq] at second ⊢
      exact ⟨first.1.trans second.1, same_trans x _ _ first.2 second.2⟩

theorem same_items_trans : (xs ys zs : List Value) → sameItems xs ys = true →
    sameItems ys zs = true → sameItems xs zs = true
  | [], ys, zs, first, second => by
      cases ys <;> simp [sameItems] at first
      exact second
  | x :: xs, ys, zs, first, second => by
      cases ys <;> simp only [sameItems, Bool.false_eq_true, Bool.and_eq_true] at first
      cases zs <;> simp only [sameItems, Bool.false_eq_true, Bool.and_eq_true] at second ⊢
      exact ⟨same_trans x _ _ first.1 second.1, same_items_trans xs _ _ first.2 second.2⟩

theorem same_trans_entries : (entries : List (Value × Value)) → ∀ entry ∈ entries,
    (∀ b c : Value, entry.1.same b = true → b.same c = true → entry.1.same c = true) ∧
      ∀ b c : Value, entry.2.same b = true → b.same c = true → entry.2.same c = true
  | [], _, member => by simp at member
  | (key, value) :: rest, entry, member => by
      rcases List.mem_cons.1 member with rfl | later
      · exact ⟨same_trans key, same_trans value⟩
      · exact same_trans_entries rest entry later

end

mutual

/-- No mapping in the value, at whatever depth, repeats a key. -/
def WellKeyed : Value → Prop
  | sequence items => WellKeyedItems items
  | mapping entries =>
      entries.Pairwise (fun a b => a.1.same b.1 = false) ∧ WellKeyedEntries entries
  | tagged _ value => WellKeyed value
  | _ => True

def WellKeyedItems : List Value → Prop
  | [] => True
  | item :: rest => WellKeyed item ∧ WellKeyedItems rest

def WellKeyedEntries : List (Value × Value) → Prop
  | [] => True
  | (key, value) :: rest => (WellKeyed key ∧ WellKeyed value) ∧ WellKeyedEntries rest

end

theorem well_keyed_items_iff (items : List Value) :
    WellKeyedItems items ↔ ∀ item ∈ items, item.WellKeyed := by
  induction items with
  | nil => simp [WellKeyedItems]
  | cons item rest ih => simp only [WellKeyedItems, ih, List.forall_mem_cons]

theorem well_keyed_entries_iff (entries : List (Value × Value)) :
    WellKeyedEntries entries ↔ ∀ entry ∈ entries, entry.1.WellKeyed ∧ entry.2.WellKeyed := by
  induction entries with
  | nil => simp [WellKeyedEntries]
  | cons entry rest ih =>
      rcases entry with ⟨key, value⟩
      simp only [WellKeyedEntries, ih, List.forall_mem_cons]

theorem well_keyed_string (text : String) : (string text).WellKeyed := trivial

/-- Entries with distinct keys that all have an equal one among as many others leave none of those
without a partner. -/
theorem partner_of_entries_within {entries other : List (Value × Value)}
    (sizes : entries.length = other.length)
    (within : entriesWithin entries other = true)
    (distinct : entries.Pairwise fun a b => a.1.same b.1 = false)
    (back : ∀ a ∈ entries, ∀ b ∈ other, a.1.same b.1 = true → b.1.same a.1 = true) :
    ∀ found ∈ other, ∃ entry ∈ entries, entry.1.same found.1 = true ∧
      entry.2.same found.2 = true := by
  have choice : ∀ i : Fin entries.length, ∃ j : Fin entries.length,
      (entries[i]).1.same (other[j.val]).1 = true ∧
        (entries[i]).2.same (other[j.val]).2 = true := by
    intro i
    obtain ⟨found, member, equal⟩ :=
      (entries_within_iff _ _).1 within entries[i] (List.getElem_mem _)
    obtain ⟨j, bound, rfl⟩ := List.getElem_of_mem member
    exact ⟨⟨j, sizes ▸ bound⟩, equal⟩
  choose partner equal using choice
  have injective : Function.Injective partner := by
    intro i j met
    have toFirst := (equal i).1
    have toSecond := back _ (List.getElem_mem _) _ (List.getElem_mem _) (equal j).1
    have fromSecond := back _ (List.getElem_mem _) _ (List.getElem_mem _) (equal i).1
    have toFirst' := (equal j).1
    rw [← met] at toSecond toFirst'
    have forward := same_trans _ _ _ toFirst toSecond
    have backward := same_trans _ _ _ toFirst' fromSecond
    rw [List.pairwise_iff_getElem] at distinct
    rcases lt_trichotomy i.val j.val with before | here | after
    · have apart := distinct i.val j.val i.isLt j.isLt before
      exact absurd forward (by simpa using apart)
    · exact Fin.ext here
    · have apart := distinct j.val i.val j.isLt i.isLt after
      exact absurd backward (by simpa using apart)
  intro found member
  obtain ⟨j, bound, rfl⟩ := List.getElem_of_mem member
  obtain ⟨i, image⟩ := (Finite.injective_iff_surjective.1 injective) ⟨j, sizes ▸ bound⟩
  have paired := equal i
  rw [image] at paired
  exact ⟨entries[i], List.getElem_mem _, paired⟩

mutual

theorem same_symm : (a b : Value) → a.WellKeyed → b.WellKeyed → a.same b = true →
    b.same a = true
  | .null, b, _, _, equal => by
      cases b <;> simp [same] at equal ⊢
  | .bool x, b, _, _, equal => by
      cases b <;> simp [same] at equal ⊢
      exact equal.symm
  | .string x, b, _, _, equal => by
      rw [string_same] at equal
      subst equal
      exact same_refl _
  | .number x, b, _, _, equal => by
      cases b <;> simp only [same, Bool.false_eq_true] at equal ⊢
      exact Number.same_symm equal
  | .sequence xs, b, left, right, equal => by
      cases b <;> simp only [same, Bool.false_eq_true] at equal ⊢
      exact same_items_symm xs _ left right equal
  | .mapping xs, b, left, right, equal => by
      cases b <;> simp only [same, Bool.false_eq_true, Bool.and_eq_true, beq_iff_eq] at equal ⊢
      rename_i ys
      have ofLeft := (well_keyed_entries_iff xs).1 left.2
      have ofRight := (well_keyed_entries_iff ys).1 right.2
      have back : ∀ a ∈ xs, ∀ b ∈ ys, (a.1.same b.1 = true → b.1.same a.1 = true) ∧
          (a.2.same b.2 = true → b.2.same a.2 = true) := by
        intro a member b member'
        have step := same_symm_entries xs a member
        exact ⟨step.1 b.1 (ofLeft a member).1 (ofRight b member').1,
          step.2 b.2 (ofLeft a member).2 (ofRight b member').2⟩
      refine ⟨equal.1.symm, (entries_within_iff _ _).2 fun found member => ?_⟩
      obtain ⟨entry, entryMember, keys, values⟩ :=
        partner_of_entries_within equal.1 equal.2 left.1
          (fun a m b m' => (back a m b m').1) found member
      have turned := back entry entryMember found member
      exact ⟨entry, entryMember, turned.1 keys, turned.2 values⟩
  | .tagged s x, b, left, right, equal => by
      cases b <;> simp only [same, Bool.false_eq_true, Bool.and_eq_true, beq_iff_eq] at equal ⊢
      exact ⟨equal.1.symm, same_symm x _ left right equal.2⟩

theorem same_items_symm : (xs ys : List Value) → WellKeyedItems xs → WellKeyedItems ys →
    sameItems xs ys = true → sameItems ys xs = true
  | [], ys, _, _, equal => by
      cases ys <;> simp [sameItems] at equal ⊢
  | x :: xs, ys, left, right, equal => by
      cases ys <;> simp only [sameItems, Bool.false_eq_true, Bool.and_eq_true] at equal ⊢
      exact ⟨same_symm x _ left.1 right.1 equal.1, same_items_symm xs _ left.2 right.2 equal.2⟩

theorem same_symm_entries : (entries : List (Value × Value)) → ∀ entry ∈ entries,
    (∀ b : Value, entry.1.WellKeyed → b.WellKeyed → entry.1.same b = true →
      b.same entry.1 = true) ∧
    ∀ b : Value, entry.2.WellKeyed → b.WellKeyed → entry.2.same b = true → b.same entry.2 = true
  | [], _, member => by simp at member
  | (key, value) :: rest, entry, member => by
      rcases List.mem_cons.1 member with rfl | later
      · exact ⟨same_symm key, same_symm value⟩
      · exact same_symm_entries rest entry later

end

end Value

end Yaml

end MessageSchema
