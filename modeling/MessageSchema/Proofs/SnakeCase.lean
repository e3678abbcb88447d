import MessageSchema.Text.Ident
import MessageSchema.Text.SnakeCase
import Mathlib.Data.List.Basic

/-!
Snake case of identifiers. What a letter becomes depends on its two neighbours alone, so the text can
be written from left to right without a look at what is already there. Underscores and the case of
letters are all that the conversion changes, and a name in camel case can be read back from it.
-/

namespace MessageSchema.Text

set_option autoImplicit false

theorem to_lower_eq_underscore {c : Char} (ascii : c.toNat < 128) :
    (c.toLower = '_') ↔ c = '_' :=
  forall_ascii (p := fun c => (c.toLower = '_') ↔ c = '_') (by decide) ascii

theorem to_lower_of_not_is_upper {c : Char} (ascii : c.toNat < 128) (h : c.isUpper = false) :
    c.toLower = c :=
  forall_ascii (p := fun c => c.isUpper = false → c.toLower = c) (by decide) ascii h

theorem to_upper_to_lower {c : Char} (ascii : c.toNat < 128) (h : c.isUpper = true) :
    c.toLower.toUpper = c :=
  forall_ascii (p := fun c => c.isUpper = true → c.toLower.toUpper = c) (by decide) ascii h

theorem is_ident_char_to_lower {c : Char} (h : isIdentChar c = true) :
    isIdentChar c.toLower = true :=
  forall_ascii (p := fun c => isIdentChar c = true → isIdentChar c.toLower = true) (by decide)
    (ascii_of_is_ident_char h) h

theorem not_is_separator_of_is_ident_char {c : Char} (h : isIdentChar c = true) :
    isSeparator c = false :=
  forall_ascii (p := fun c => isIdentChar c = true → isSeparator c = false) (by decide)
    (ascii_of_is_ident_char h) h

/-- The characters of an identifier in small letters, with an underscore before each capital that
opens a word unless one is there. -/
def spelt (before : Option Char) : List Char → List Char
  | [] => []
  | c :: rest =>
      (if c.isUpper && opensWord before rest.head? && before != some '_' then ['_'] else []) ++
        c.toLower :: spelt (some c) rest

theorem snake_step_eq {written : List Char} {before after : Option Char} {c : Char}
    (ident : isIdentChar c = true) (earlier : ∀ b ∈ before, isIdentChar b = true)
    (last : written.getLast? = before.map Char.toLower) :
    snakeStep written before c after =
      written ++ ((if c.isUpper && opensWord before after && before != some '_' then ['_'] else []) ++
        [c.toLower]) := by
  have ascii := ascii_of_is_ident_char ident
  simp only [snakeStep, is_capital_of_ascii ascii, small_of_ascii ascii,
    not_is_separator_of_is_ident_char ident, Bool.false_eq_true, if_false]
  cases upper : c.isUpper with
  | false => simp [to_lower_of_not_is_upper ascii upper]
  | true =>
      cases opens : opensWord before after with
      | false => simp
      | true =>
          cases before with
          | none => simp [opensWord] at opens
          | some b =>
              have ended : written.getLast? = some '_' ↔ b = '_' := by
                rw [last]
                simp [to_lower_eq_underscore (ascii_of_is_ident_char (earlier b rfl))]
              by_cases underscore : b = '_'
              · simp [withUnderscore, ended, underscore]
              · simp [withUnderscore, ended, underscore]

theorem snake_from_eq {written name : List Char} {before : Option Char}
    (ident : ∀ c ∈ name, isIdentChar c = true) (earlier : ∀ b ∈ before, isIdentChar b = true)
    (last : written.getLast? = before.map Char.toLower) :
    snakeFrom written before name = written ++ spelt before name := by
  induction name generalizing written before with
  | nil => simp [snakeFrom, spelt]
  | cons c rest ih =>
      have first : isIdentChar c = true := ident c (by simp)
      rw [snakeFrom, snake_step_eq first earlier last,
        ih (fun d member => ident d (by simp [member])) (by simpa using first) (by simp)]
      simp [spelt]

theorem snake_chars_eq {name : List Char} (ident : ∀ c ∈ name, isIdentChar c = true) :
    snakeChars name = trimUnderscores (spelt none name) := by
  rw [snakeChars, snake_from_eq ident (by simp) rfl, List.nil_append]

theorem is_ident_char_of_mem_spelt {before : Option Char} {name : List Char}
    (ident : ∀ c ∈ name, isIdentChar c = true) :
    ∀ c ∈ spelt before name, isIdentChar c = true := by
  induction name generalizing before with
  | nil => simp [spelt]
  | cons d rest ih =>
      intro c member
      simp only [spelt, List.mem_append, List.mem_cons] at member
      rcases member with mark | rfl | later
      · split at mark
        · rw [List.mem_singleton.1 mark]
          decide
        · cases mark
      · exact is_ident_char_to_lower (ident d (by simp))
      · exact ih (fun e inside => ident e (by simp [inside])) c later

theorem trim_underscores_between (written : List Char) :
    ∃ front back, written = front ++ trimUnderscores written ++ back ∧
      (∀ c ∈ front, c = '_') ∧ ∀ c ∈ back, c = '_' := by
  let kept := written.dropWhile (· == '_')
  refine ⟨written.takeWhile (· == '_'), (kept.reverse.takeWhile (· == '_')).reverse, ?_, ?_, ?_⟩
  · rw [List.append_assoc, trimUnderscores, ← List.reverse_append, List.takeWhile_append_dropWhile,
      List.reverse_reverse, List.takeWhile_append_dropWhile]
  · intro c member
    have kept := List.all_takeWhile (p := (· == '_')) (l := written)
    exact beq_iff_eq.1 (List.all_eq_true.1 kept c member)
  · intro c member
    have kept := List.all_takeWhile (p := (· == '_')) (l := kept.reverse)
    exact beq_iff_eq.1 (List.all_eq_true.1 kept c (List.mem_reverse.1 member))

theorem mem_of_mem_trim_underscores {written : List Char} {c : Char}
    (member : c ∈ trimUnderscores written) : c ∈ written := by
  obtain ⟨front, back, parts, -, -⟩ := trim_underscores_between written
  rw [parts]
  simp [member]

theorem is_ident_char_of_mem_snake_chars {name : List Char}
    (ident : ∀ c ∈ name, isIdentChar c = true) :
    ∀ c ∈ snakeChars name, isIdentChar c = true := by
  intro c member
  rw [snake_chars_eq ident] at member
  exact is_ident_char_of_mem_spelt ident c (mem_of_mem_trim_underscores member)

/-! ### What is lost -/

/-- The letters and digits of a name, without case. -/
def bare (name : List Char) : List Char := (name.map Char.toLower).filter (· != '_')

theorem filter_spelt (before : Option Char) (name : List Char) :
    (spelt before name).filter (· != '_') = bare name := by
  induction name generalizing before with
  | nil => rfl
  | cons c rest ih =>
      simp only [bare] at ih
      simp only [spelt, bare, List.filter_append, List.filter_cons, List.map_cons, ih]
      split <;> rfl

theorem filter_trim_underscores (written : List Char) :
    (trimUnderscores written).filter (· != '_') = written.filter (· != '_') := by
  obtain ⟨front, back, parts, first, last⟩ := trim_underscores_between written
  have gone : ∀ chars : List Char, (∀ c ∈ chars, c = '_') → chars.filter (· != '_') = [] := by
    intro chars all
    rw [List.filter_eq_nil_iff]
    intro c member
    simp [all c member]
  conv_rhs => rw [parts]
  rw [List.filter_append, List.filter_append, gone front first, gone back last, List.nil_append,
    List.append_nil]

/-- Snake case keeps the letters and digits of an identifier, up to case. -/
theorem filter_snake_chars {name : List Char} (ident : ∀ c ∈ name, isIdentChar c = true) :
    (snakeChars name).filter (· != '_') = bare name := by
  rw [snake_chars_eq ident, filter_trim_underscores, filter_spelt]

theorem spelt_append_underscore (before : Option Char) (name : List Char) :
    spelt before (name ++ ['_']) = spelt before name ++ ['_'] := by
  induction name generalizing before with
  | nil => rfl
  | cons c rest ih =>
      have next : opensWord before (rest ++ ['_']).head? = opensWord before rest.head? := by
        cases rest with
        | nil => cases before <;> rfl
        | cons d rest => rfl
      simp only [List.cons_append, spelt, ih, next, List.append_assoc]

theorem trim_underscores_append_underscore (written : List Char) :
    trimUnderscores (written ++ ['_']) = trimUnderscores written := by
  rw [trimUnderscores, trimUnderscores, List.dropWhile_append]
  split
  · next empty =>
      rw [List.isEmpty_iff.1 empty]
      rfl
  · simp

/-- An underscore at the end of an identifier leaves no trace. -/
theorem snake_chars_append_underscore {name : List Char}
    (ident : ∀ c ∈ name, isIdentChar c = true) :
    snakeChars (name ++ ['_']) = snakeChars name := by
  have longer : ∀ c ∈ name ++ ['_'], isIdentChar c = true := by
    intro c member
    rcases List.mem_append.1 member with old | new
    · exact ident c old
    · rw [List.mem_singleton.1 new]
      decide
  rw [snake_chars_eq longer, spelt_append_underscore, trim_underscores_append_underscore,
    snake_chars_eq ident]

/-! ### Camel case -/

/-- After `before`, no underscore and no capital that does not open a word. -/
def opensAll (before : Char) : List Char → Bool
  | [] => true
  | c :: rest =>
      c != '_' && (!c.isUpper || opensWord (some before) rest.head?) && opensAll c rest

/-- A name in camel case begins with a capital, has no underscore, and every later capital opens a
word: no two of them stand side by side unless a small letter follows the second. -/
def isCamel : List Char → Bool
  | [] => false
  | c :: rest => c.isUpper && opensAll c rest

/-- The camel case of a text in snake case: the underscores go, and the letters after them and the
first one become capitals. -/
def raised (capital : Bool) : List Char → List Char
  | [] => []
  | c :: rest =>
      if c = '_' then raised true rest
      else (if capital then c.toUpper else c) :: raised false rest

theorem raised_append_underscores {back : List Char} (all : ∀ c ∈ back, c = '_') (capital : Bool)
    (written : List Char) : raised capital (written ++ back) = raised capital written := by
  induction written generalizing capital with
  | nil =>
      induction back generalizing capital with
      | nil => rfl
      | cons c rest ih =>
          have first : c = '_' := all c (by simp)
          simpa [raised, first] using ih (fun d member => all d (by simp [member])) true
  | cons c rest ih => simp [raised, ih]

theorem raised_underscores_append {front : List Char} (all : ∀ c ∈ front, c = '_')
    (written : List Char) : raised true (front ++ written) = raised true written := by
  induction front with
  | nil => rfl
  | cons c rest ih =>
      have first : c = '_' := all c (by simp)
      simpa [raised, first] using ih fun d member => all d (by simp [member])

theorem raised_trim_underscores (written : List Char) :
    raised true (trimUnderscores written) = raised true written := by
  obtain ⟨front, back, parts, first, last⟩ := trim_underscores_between written
  conv_rhs => rw [parts]
  rw [raised_append_underscores last, raised_underscores_append first]

theorem raised_spelt {before : Char} {name : List Char}
    (ident : ∀ c ∈ name, isIdentChar c = true) (plain : before ≠ '_')
    (opens : opensAll before name = true) : raised false (spelt (some before) name) = name := by
  induction name generalizing before with
  | nil => rfl
  | cons c rest ih =>
      simp only [opensAll, Bool.and_eq_true, bne_iff_ne, ne_eq] at opens
      obtain ⟨⟨other, marked⟩, later⟩ := opens
      have ascii : c.toNat < 128 := ascii_of_is_ident_char (ident c (by simp))
      have lowered : c.toLower ≠ '_' := fun same => other ((to_lower_eq_underscore ascii).1 same)
      have tail := ih (fun d member => ident d (by simp [member])) other later
      cases upper : c.isUpper with
      | true =>
          simp only [upper, Bool.not_true, Bool.false_or] at marked
          simp [spelt, raised, upper, marked, plain, lowered, to_upper_to_lower ascii upper, tail]
      | false =>
          have same := to_lower_of_not_is_upper ascii upper
          simp [spelt, raised, upper, same, other, tail]

theorem raised_snake_chars {name : List Char} (ident : ∀ c ∈ name, isIdentChar c = true)
    (camel : isCamel name = true) : raised true (snakeChars name) = name := by
  rw [snake_chars_eq ident, raised_trim_underscores]
  cases name with
  | nil => rfl
  | cons c rest =>
      simp only [isCamel, Bool.and_eq_true] at camel
      have ascii : c.toNat < 128 := ascii_of_is_ident_char (ident c (by simp))
      have other : c ≠ '_' := by
        rintro rfl
        exact absurd camel.1 (by decide)
      have lowered : c.toLower ≠ '_' := fun same => other ((to_lower_eq_underscore ascii).1 same)
      have tail := raised_spelt (fun d member => ident d (by simp [member])) other camel.2
      simp [spelt, raised, opensWord, lowered, to_upper_to_lower ascii camel.1, tail]

theorem eq_of_snake_chars_of_is_camel {first second : List Char}
    (identFirst : ∀ c ∈ first, isIdentChar c = true)
    (identSecond : ∀ c ∈ second, isIdentChar c = true)
    (camelFirst : isCamel first = true) (camelSecond : isCamel second = true)
    (same : snakeChars first = snakeChars second) : first = second := by
  rw [← raised_snake_chars identFirst camelFirst, same, raised_snake_chars identSecond camelSecond]

end MessageSchema.Text
