import MessageSchema.Proofs.HandlerSlots
import MessageSchema.Proofs.Identifiers

/-!
Snake case of ASCII names, separators among them. Each character is written in its small form or, if
it is a separator, not at all, and at most one underscore comes before it; then underscores are taken
away at the ends. So the conversion folds case and moves separators, and does nothing else: what is
left without underscores is what the name has without separators, a second conversion has nothing to
do, and a name that is an identifier gets a slot that is the name of an item.
-/

namespace MessageSchema.Text

set_option autoImplicit false

/-- What a name has apart from case and separators. -/
def folded (name : List Char) : List Char :=
  (name.map Char.toLower).filter fun c => !(['_', '-', ' ', '.'].contains c)

/-! ### Characters -/

theorem is_upper_to_lower {c : Char} (ascii : c.toNat < 128) : c.toLower.isUpper = false :=
  forall_ascii (p := fun c => c.toLower.isUpper = false) (by decide) ascii

theorem to_nat_to_lower_lt {c : Char} (ascii : c.toNat < 128) : c.toLower.toNat < 128 :=
  forall_ascii (p := fun c => c.toLower.toNat < 128) (by decide) ascii

theorem is_separator_to_lower {c : Char} (ascii : c.toNat < 128) :
    isSeparator c.toLower = isSeparator c :=
  forall_ascii (p := fun c => isSeparator c.toLower = isSeparator c) (by decide) ascii

theorem not_is_upper_of_is_separator {c : Char} (ascii : c.toNat < 128) (h : isSeparator c = true) :
    c.isUpper = false :=
  forall_ascii (p := fun c => isSeparator c = true → c.isUpper = false) (by decide) ascii h

theorem to_lower_of_is_ident_char {c : Char} (ident : isIdentChar c = true) :
    ('a' ≤ c.toLower ∧ c.toLower ≤ 'z') ∨ IsAsciiDigit c.toLower ∨ c.toLower = '_' :=
  forall_ascii
    (p := fun c => isIdentChar c = true →
      ('a' ≤ c.toLower ∧ c.toLower ≤ 'z') ∨ IsAsciiDigit c.toLower ∨ c.toLower = '_')
    (by unfold IsAsciiDigit; decide) (ascii_of_is_ident_char ident) ident

theorem is_separator_iff (c : Char) : isSeparator c = true ↔ c = '-' ∨ c = ' ' ∨ c = '.' := by
  rw [isSeparator, Bool.or_eq_true, Bool.or_eq_true, beq_iff_eq, beq_iff_eq, beq_iff_eq, or_assoc]

theorem is_divider_eq (c : Char) :
    ['_', '-', ' ', '.'].contains c = (c == '_' || isSeparator c) := by
  rw [isSeparator, List.contains_eq_any_beq]
  simp only [List.any_cons, List.any_nil, Bool.or_false, Bool.or_assoc]

/-! ### One character after the other -/

def keptOf (c : Char) : List Char := if isSeparator c then [] else [c.toLower]

def IsGap (chars : List Char) : Prop := chars = [] ∨ chars = ['_']

theorem with_underscore_eq (written : List Char) :
    ∃ gap, IsGap gap ∧ withUnderscore written = written ++ gap := by
  unfold withUnderscore
  split
  · exact ⟨[], Or.inl rfl, (List.append_nil _).symm⟩
  · exact ⟨['_'], Or.inr rfl, rfl⟩

/-- One more character adds what is left of it, behind at most one underscore. -/
theorem snake_step_gap {c : Char} (ascii : c.toNat < 128) (written : List Char)
    (before after : Option Char) :
    ∃ gap, IsGap gap ∧ snakeStep written before c after = written ++ gap ++ keptOf c := by
  unfold snakeStep keptOf
  rw [is_capital_of_ascii ascii, small_of_ascii ascii]
  cases separates : isSeparator c with
  | true =>
      rw [not_is_upper_of_is_separator ascii separates]
      simp only [Bool.false_eq_true, if_false, if_true, List.append_nil]
      split
      · exact ⟨[], Or.inl rfl, (List.append_nil _).symm⟩
      · exact with_underscore_eq written
  | false =>
      cases upper : c.isUpper with
      | true =>
          simp only [Bool.false_eq_true, if_false, if_true]
          split
          · obtain ⟨gap, small, ends⟩ := with_underscore_eq written
            exact ⟨gap, small, by rw [ends]⟩
          · exact ⟨[], Or.inl rfl, by rw [List.append_nil]⟩
      | false =>
          simp only [Bool.false_eq_true, if_false, to_lower_of_not_is_upper ascii upper]
          exact ⟨[], Or.inl rfl, by rw [List.append_nil]⟩

/-- A text written for a name: the name in small letters without its separators, with underscores
put in anywhere. -/
inductive Writes : List Char → List Char → Prop where
  | nil : Writes [] []
  | cons {c : Char} {gap name tail : List Char} (small : IsGap gap) (rest : Writes name tail) :
      Writes (c :: name) (gap ++ keptOf c ++ tail)

theorem snake_from_writes {name : List Char} (ascii : ∀ c ∈ name, c.toNat < 128)
    (written : List Char) (before : Option Char) :
    ∃ tail, Writes name tail ∧ snakeFrom written before name = written ++ tail := by
  induction name generalizing written before with
  | nil => exact ⟨[], .nil, (List.append_nil _).symm⟩
  | cons c rest ih =>
      obtain ⟨gap, small, step⟩ := snake_step_gap (ascii c (by simp)) written before rest.head?
      obtain ⟨tail, writes, run⟩ := ih (fun d member => ascii d (by simp [member]))
        (written ++ gap ++ keptOf c) (some c)
      refine ⟨gap ++ keptOf c ++ tail, .cons small writes, ?_⟩
      rw [snakeFrom, step, run]
      simp only [List.append_assoc]

theorem Writes.mem {name tail : List Char} (writes : Writes name tail) {c : Char}
    (member : c ∈ tail) : c = '_' ∨ ∃ d ∈ name, isSeparator d = false ∧ c = d.toLower := by
  induction writes with
  | nil => cases member
  | @cons d gap name tail small rest ih =>
      rcases List.mem_append.1 member with front | later
      · rcases List.mem_append.1 front with lead | own
        · rcases small with rfl | rfl
          · cases lead
          · exact Or.inl (List.mem_singleton.1 lead)
        · right
          unfold keptOf at own
          split at own
          · cases own
          · next apart =>
              exact ⟨d, by simp, by simpa using apart, List.mem_singleton.1 own⟩
      · rcases ih later with lead | ⟨e, known, parts⟩
        · exact Or.inl lead
        · exact Or.inr ⟨e, List.mem_cons_of_mem _ known, parts⟩

theorem Writes.filter_eq {name tail : List Char} (writes : Writes name tail)
    (ascii : ∀ c ∈ name, c.toNat < 128) : tail.filter (· != '_') = folded name := by
  induction writes with
  | nil => rfl
  | @cons c gap name tail small rest ih =>
      have others := ih fun d member => ascii d (by simp [member])
      have none : gap.filter (· != '_') = [] := by
        rcases small with rfl | rfl <;> rfl
      have own : (keptOf c).filter (· != '_') = folded [c] := by
        simp only [folded, List.map_cons, List.map_nil, List.filter_cons, is_divider_eq,
          is_separator_to_lower (ascii c (by simp)), keptOf]
        cases isSeparator c <;> simp [List.filter_cons]
      rw [List.filter_append, List.filter_append, none, own, others, List.nil_append]
      simp only [folded, List.map_cons, List.map_nil, ← List.filter_append, List.singleton_append]

/-! ### The ends -/

theorem head_drop_while_ne (written : List Char) :
    (written.dropWhile (· == '_')).head? ≠ some '_' := by
  intro same
  have apart := List.head?_dropWhile_not (· == '_') written
  rw [same] at apart
  simp at apart

theorem ends_trim_underscores (written : List Char) :
    (trimUnderscores written).head? ≠ some '_' ∧ (trimUnderscores written).getLast? ≠ some '_' := by
  constructor
  · intro same
    have whole : trimUnderscores written <+: written.dropWhile (· == '_') := by
      rw [trimUnderscores, ← List.reverse_suffix, List.reverse_reverse]
      exact List.dropWhile_suffix _
    obtain ⟨more, parts⟩ := whole
    refine head_drop_while_ne written ?_
    rw [← parts, List.head?_append, same]
    rfl
  · rw [trimUnderscores, List.getLast?_reverse]
    exact head_drop_while_ne _

theorem drop_while_of_head {written : List Char} (first : written.head? ≠ some '_') :
    written.dropWhile (· == '_') = written := by
  cases written with
  | nil => rfl
  | cons c rest =>
      refine List.dropWhile_cons_of_neg ?_
      intro same
      exact first (congrArg some (beq_iff_eq.1 same))

theorem trim_underscores_of_ends {written : List Char} (first : written.head? ≠ some '_')
    (last : written.getLast? ≠ some '_') : trimUnderscores written = written := by
  rw [trimUnderscores, drop_while_of_head first, drop_while_of_head (by rwa [List.head?_reverse]),
    List.reverse_reverse]

/-! ### The whole conversion -/

def IsPlain (c : Char) : Prop := c.toNat < 128 ∧ isCapital c = false ∧ isSeparator c = false

theorem snake_from_of_plain {name : List Char} (plain : ∀ c ∈ name, IsPlain c)
    (written : List Char) (before : Option Char) :
    snakeFrom written before name = written ++ name := by
  induction name generalizing written before with
  | nil => exact (List.append_nil _).symm
  | cons c rest ih =>
      obtain ⟨-, small, apart⟩ := plain c (by simp)
      rw [snakeFrom, ih fun d member => plain d (by simp [member])]
      simp [snakeStep, small, apart]

section

variable {name : List Char} (ascii : ∀ c ∈ name, c.toNat < 128)

include ascii

theorem mem_snake_chars {c : Char} (member : c ∈ snakeChars name) :
    c = '_' ∨ ∃ d ∈ name, isSeparator d = false ∧ c = d.toLower := by
  obtain ⟨tail, writes, run⟩ := snake_from_writes ascii [] none
  rw [snakeChars, run] at member
  exact writes.mem (mem_of_mem_trim_underscores member)

theorem is_plain_of_mem_snake_chars : ∀ c ∈ snakeChars name, IsPlain c := by
  intro c member
  rcases mem_snake_chars ascii member with rfl | ⟨d, known, apart, rfl⟩
  · exact ⟨by decide, by decide, by decide⟩
  · have small := to_nat_to_lower_lt (ascii d known)
    exact ⟨small, (is_capital_of_ascii small).trans (is_upper_to_lower (ascii d known)),
      (is_separator_to_lower (ascii d known)).trans apart⟩

theorem filter_snake_chars_eq_folded : (snakeChars name).filter (· != '_') = folded name := by
  obtain ⟨tail, writes, run⟩ := snake_from_writes ascii [] none
  rw [snakeChars, run, filter_trim_underscores, List.nil_append, writes.filter_eq ascii]

theorem snake_chars_snake_chars : snakeChars (snakeChars name) = snakeChars name := by
  have plain := is_plain_of_mem_snake_chars ascii
  have ends := ends_trim_underscores (snakeFrom [] none name)
  rw [snakeChars, snake_from_of_plain plain, List.nil_append]
  exact trim_underscores_of_ends ends.1 ends.2

end

end MessageSchema.Text

namespace MessageSchema.Handlers

open Text

theorem head_to_list_slot (name : String) : (slot name).toList.head? = some 'h' := by
  rw [slot, String.toList_append]
  rfl

/-- No word is kept that begins as slots do. -/
theorem is_item_name_slot {name : String} (ident : isIdentifier name = true) :
    IsItemName (slot name) := by
  have apart : ∀ word ∈ "_" :: keywords, word.toList.head? ≠ some 'h' := by decide
  have free : slot name ∉ "_" :: keywords := fun kept => apart _ kept (head_to_list_slot name)
  rw [List.mem_cons, not_or] at free
  have chars := is_ident_char_of_mem_slot ident
  refine (is_item_name_iff ?_).2 free
  rw [← is_identifier_iff, isIdentifier]
  cases parts : (slot name).toList with
  | nil =>
      have first := head_to_list_slot name
      rw [parts] at first
      cases first
  | cons first rest =>
      have lead := head_to_list_slot name
      rw [parts, List.head?_cons, Option.some.injEq] at lead
      rw [parts] at chars
      rw [isIdentWord, lead, Bool.and_eq_true, List.all_eq_true]
      exact ⟨by decide, fun c member => chars c (List.mem_cons_of_mem _ member)⟩

/-- The snake case of an ASCII name. It has no capitals and no separators but underscores, of which
none stands at an end; apart from them it is the name in small letters without its separators; and a
second conversion changes nothing. An identifier gets small letters, digits and underscores, and its
slot is the name of an item. So two names share a slot only if they are the same up to case and
separators. -/
theorem to_snake_case_folds (name : String) (ascii : ∀ c ∈ name.toList, c.toNat < 128) :
    (∀ c ∈ (toSnakeCase name).toList,
        c.toNat < 128 ∧ isCapital c = false ∧ c ≠ '-' ∧ c ≠ ' ' ∧ c ≠ '.') ∧
      (toSnakeCase name).toList.head? ≠ some '_' ∧
      (toSnakeCase name).toList.getLast? ≠ some '_' ∧
      (toSnakeCase name).toList.filter (· != '_') =
        (name.toList.map Char.toLower).filter (fun c => !(['_', '-', ' ', '.'].contains c)) ∧
      toSnakeCase (toSnakeCase name) = toSnakeCase name ∧
      (isIdentifier name = true →
        (∀ c ∈ (toSnakeCase name).toList, ('a' ≤ c ∧ c ≤ 'z') ∨ IsAsciiDigit c ∨ c = '_') ∧
          IsItemName (slot name)) ∧
      ∀ other : String, (∀ c ∈ other.toList, c.toNat < 128) → slot other = slot name →
        folded other.toList = folded name.toList := by
  rw [to_list_to_snake_case]
  have ends := ends_trim_underscores (snakeFrom [] none name.toList)
  refine ⟨?_, ends.1, ends.2, filter_snake_chars_eq_folded ascii, ?_, ?_, ?_⟩
  · intro c member
    obtain ⟨small, plain, apart⟩ := is_plain_of_mem_snake_chars ascii c member
    rw [← Bool.not_eq_true, is_separator_iff, not_or, not_or] at apart
    exact ⟨small, plain, apart⟩
  · rw [to_snake_case_eq_iff, to_list_to_snake_case]
    exact snake_chars_snake_chars ascii
  · intro ident
    refine ⟨?_, is_item_name_slot ident⟩
    intro c member
    rcases mem_snake_chars ascii member with lead | ⟨d, known, -, rfl⟩
    · exact Or.inr (Or.inr lead)
    · exact to_lower_of_is_ident_char (is_ident_char_of_mem_is_ident_word ident d known)
  · intro other ascii' same
    rw [slot_eq_iff, to_snake_case_eq_iff] at same
    rw [← filter_snake_chars_eq_folded ascii', same, filter_snake_chars_eq_folded ascii]

/-- Underscores at the ends, a run of capitals, a digit, and another name with the same slot. -/
theorem to_snake_case_folds_edges :
    let name := "__EndOfASR2Stream_"
    let other := "end of-asr2.STREAM"
    isIdentifier name = true ∧ slot other = slot name ∧
      (toSnakeCase name).toList.getLast? ≠ some '_' ∧
      toSnakeCase (toSnakeCase other) = toSnakeCase other ∧ IsItemName (slot name) ∧
      folded other.toList = folded name.toList := by
  intro name other
  have ident : isIdentifier name = true := by decide
  have ascii : ∀ c ∈ name.toList, c.toNat < 128 := by simp [name]
  have ascii' : ∀ c ∈ other.toList, c.toNat < 128 := by simp [other]
  have same : slot other = slot name := by decide
  obtain ⟨-, -, last, -, -, named, shared⟩ := to_snake_case_folds name ascii
  obtain ⟨-, -, -, -, again, -, -⟩ := to_snake_case_folds other ascii'
  exact ⟨ident, same, last, again, (named ident).2, shared other ascii' same⟩

end MessageSchema.Handlers
