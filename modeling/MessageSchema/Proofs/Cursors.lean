import MessageSchema.Proofs.Respelling

/-!
Places in a text and in the text with its words changed. Reading goes on along a line or over a line
break, so that lines only count up and columns grow along a line. The places correspond when what is
left to read in the one is the change of what is left in the other: the lines are then the same, and
the columns too as long as no word has been passed on the line.
-/

namespace MessageSchema.Yaml

set_option autoImplicit false

open Text

/-! ### Identifier characters among the others -/

theorem is_blank_of_ident (c : Char) (ident : isIdentChar c = true) : isBlank c = false :=
  forall_ascii (p := fun c => isIdentChar c = true → isBlank c = false) (by decide)
    (ascii_of_is_ident_char ident) ident

theorem is_break_of_ident (c : Char) (ident : isIdentChar c = true) : isBreak c = false :=
  forall_ascii (p := fun c => isIdentChar c = true → isBreak c = false) (by decide)
    (ascii_of_is_ident_char ident) ident

theorem is_blank_or_break_of_ident (c : Char) (ident : isIdentChar c = true) :
    isBlankOrBreak c = false := by
  rw [isBlankOrBreak, is_blank_of_ident c ident, is_break_of_ident c ident]
  rfl

theorem is_blank_of_is_break {x : Char} (ends : isBreak x = true) : isBlank x = false := by
  cases blank : isBlank x with
  | false => rfl
  | true =>
      simp only [isBlank, Bool.or_eq_true, beq_iff_eq] at blank
      rcases blank with rfl | rfl <;> revert ends <;> decide

theorem is_break_of_is_blank {x : Char} (blank : isBlank x = true) : isBreak x = false := by
  simp only [isBlank, Bool.or_eq_true, beq_iff_eq] at blank
  rcases blank with rfl | rfl <;> decide

theorem is_name_char_of_ident (c : Char) (ident : isIdentChar c = true) : isNameChar c = true := by
  simp only [isIdentChar, isNameChar, Bool.or_eq_true] at ident ⊢
  rcases ident with letter | underscore
  · exact Or.inl (Or.inl letter)
  · exact Or.inr underscore

theorem not_ident_of_is_blank {c : Char} (blank : isBlank c = true) : isIdentChar c = false := by
  cases ident : isIdentChar c with
  | false => rfl
  | true =>
      rw [is_blank_of_ident c ident] at blank
      cases blank

theorem not_ident_of_is_break {c : Char} (ends : isBreak c = true) : isIdentChar c = false := by
  cases ident : isIdentChar c with
  | false => rfl
  | true =>
      rw [is_break_of_ident c ident] at ends
      cases ends

/-- No backslash stands right before an identifier character or a line break. -/
def Unescaped (text : List Char) : Prop :=
  ∀ front c back, text = front ++ '\\' :: c :: back → isIdentChar c = false ∧ isBreak c = false

theorem Unescaped.suffix {text rest : List Char} (unescaped : Unescaped text)
    (suffix : rest <:+ text) : Unescaped rest := by
  obtain ⟨before, rfl⟩ := suffix
  intro front c back parts
  exact unescaped (before ++ front) c back (by rw [parts, List.append_assoc])

/-- The lines of a text are at most so long, where the first one has got to a column already. -/
def LinesWithin (limit : Nat) : Nat → List Char → Prop
  | column, [] => column ≤ limit
  | column, c :: rest =>
      if isBreak c then column ≤ limit ∧ LinesWithin limit 0 rest
      else LinesWithin limit (column + 1) rest

theorem LinesWithin.column_le {limit column : Nat} {text : List Char}
    (within : LinesWithin limit column text) : column ≤ limit := by
  induction text generalizing column with
  | nil => exact within
  | cons c rest ih =>
      rw [LinesWithin] at within
      split at within
      · exact within.1
      · exact Nat.le_of_succ_le (ih within)

theorem LinesWithin.drop {limit column count : Nat} {text : List Char}
    (within : LinesWithin limit column text) (count_le : count ≤ text.length)
    (along : ∀ c ∈ text.take count, isBreak c = false) :
    LinesWithin limit (column + count) (text.drop count) := by
  induction count generalizing column text with
  | zero => simpa using within
  | succ count ih =>
      cases text with
      | nil => simp at count_le
      | cons c rest =>
          have first : isBreak c = false := along c (by simp)
          rw [LinesWithin, if_neg (by simp [first])] at within
          have further := ih within (by simpa using count_le) fun d member =>
            along d (by simp [member])
          rwa [Nat.add_assoc, Nat.add_comm 1 count] at further

namespace Cursor

/-! ### Reading on -/

inductive Reaches (c : Cursor) : Cursor → Prop where
  | refl : Reaches c c
  | along {d : Cursor} (count : Nat) (reached : Reaches c d) (count_le : count ≤ d.rest.length)
      (free : ∀ x ∈ d.rest.take count, isBreak x = false) : Reaches c (d.advance count)
  | down {d : Cursor} (reached : Reaches c d) (ends : d.onBreak = true) : Reaches c d.nextLine

theorem Reaches.trans {c d e : Cursor} (first : Reaches c d) (second : Reaches d e) :
    Reaches c e := by
  induction second with
  | refl => exact first
  | along count _ count_le free ih => exact .along count ih count_le free
  | down _ ends ih => exact .down ih ends

theorem next_line_of_pair {c : Cursor} {tail : List Char} (parts : c.rest = '\r' :: '\n' :: tail) :
    c.nextLine = ⟨tail, c.index + 2, c.line + 1, 0⟩ := by
  simp only [nextLine, parts]

theorem next_line_of_single {c : Cursor} {x : Char} {rest : List Char} (parts : c.rest = x :: rest)
    (single : ∀ tail, x :: rest ≠ '\r' :: '\n' :: tail) :
    c.nextLine = ⟨rest, c.index + 1, c.line + 1, 0⟩ := by
  unfold nextLine
  split
  · next tail both => exact absurd (parts ▸ both) (single tail)
  · next y tail both both' =>
      rw [parts] at both'
      cases both'
      rfl
  · next none => simp [parts] at none

theorem next_line_cases {c : Cursor} (ends : c.onBreak = true) :
    ∃ before rest index, c.rest = before ++ rest ∧ before ≠ [] ∧
      (∀ x ∈ before, isBreak x = true) ∧ c.nextLine = ⟨rest, index, c.line + 1, 0⟩ := by
  unfold nextLine
  split
  · next rest parts => exact ⟨['\r', '\n'], rest, _, parts, by simp,
      List.forall_mem_cons.2 ⟨rfl, List.forall_mem_singleton.2 rfl⟩, rfl⟩
  · next x rest _ parts =>
      refine ⟨[x], rest, _, parts, by simp, ?_, rfl⟩
      simpa [onBreak, parts] using ends
  · next parts => simp [onBreak, parts] at ends

theorem Reaches.suffix {c d : Cursor} (reaches : c.Reaches d) : d.rest <:+ c.rest := by
  induction reaches with
  | refl => exact List.suffix_refl _
  | along count _ _ _ ih => exact (List.drop_suffix count _).trans ih
  | down _ ends ih =>
      obtain ⟨before, rest, index, parts, _, _, next⟩ := next_line_cases ends
      rw [next]
      exact (parts ▸ List.suffix_append before rest).trans ih

theorem Reaches.line_le {c d : Cursor} (reaches : c.Reaches d) : c.line ≤ d.line := by
  induction reaches with
  | refl => exact Nat.le_refl _
  | along count _ _ _ ih => exact ih
  | down _ ends ih =>
      obtain ⟨_, _, index, _, _, _, next⟩ := next_line_cases ends
      rw [next]
      exact Nat.le_succ_of_le ih

theorem Reaches.along_line {c d : Cursor} (reaches : c.Reaches d) (same : d.line = c.line) :
    c.column ≤ d.column ∧ d.index + c.column = c.index + d.column := by
  induction reaches with
  | refl => exact ⟨Nat.le_refl _, rfl⟩
  | along count _ _ _ ih =>
      obtain ⟨grows, apart⟩ := ih same
      simp only [advance]
      omega
  | down reached ends =>
      obtain ⟨_, _, index, _, _, _, next⟩ := next_line_cases ends
      have later := reached.line_le
      rw [next] at same
      simp only at same
      omega

def LinesFit (limit : Nat) (c : Cursor) : Prop := LinesWithin limit c.column c.rest

theorem Reaches.lines_fit {limit : Nat} {c d : Cursor} (reaches : c.Reaches d)
    (fit : c.LinesFit limit) : d.LinesFit limit := by
  induction reaches with
  | refl => exact fit
  | along count _ count_le free ih => exact LinesWithin.drop ih count_le free
  | @down d _ ends ih =>
      obtain ⟨before, rest, index, parts, filled, breaks, next⟩ := next_line_cases ends
      have skipped : ∀ (chars : List Char) (column : Nat), chars ≠ [] →
          (∀ x ∈ chars, isBreak x = true) → LinesWithin limit column (chars ++ rest) →
          LinesWithin limit 0 rest := by
        intro chars
        induction chars with
        | nil => simp
        | cons x more others =>
            intro column _ all within
            rw [List.cons_append, LinesWithin, if_pos (all x (by simp))] at within
            cases more with
            | nil => exact within.2
            | cons y last =>
                exact others 0 (by simp) (fun z member => all z (by simp [member])) within.2
      rw [LinesFit, next]
      rw [LinesFit, parts] at ih
      exact skipped before _ filled breaks ih

theorem Reaches.of_drop_while {test : Char → Bool} (c : Cursor)
    (free : ∀ x, test x = true → isBreak x = false) : c.Reaches (c.dropWhile test) := by
  refine .along _ .refl (List.takeWhile_sublist _).length_le ?_
  intro x member
  rw [← List.prefix_iff_eq_take.1 (List.takeWhile_prefix test)] at member
  exact free x (List.all_eq_true.1 List.all_takeWhile x member)

theorem Reaches.of_advance {c : Cursor} {front back : List Char} (parts : c.rest = front ++ back)
    (free : ∀ x ∈ front, isBreak x = false) : c.Reaches (c.advance front.length) := by
  refine .along _ .refl (by simp [parts]) ?_
  rwa [parts, List.take_left]

theorem rest_advance {c : Cursor} {front back : List Char} (parts : c.rest = front ++ back) :
    (c.advance front.length).rest = back := by
  rw [advance, parts, List.drop_left]

theorem on_document_mark_iff {c : Cursor} :
    c.onDocumentMark = true ↔ c.column = 0 ∧ ∃ x tail, (x = '-' ∨ x = '.') ∧
      c.rest = x :: x :: x :: tail ∧ endOr isBlankOrBreak tail = true := by
  unfold onDocumentMark
  rw [Bool.and_eq_true, beq_iff_eq]
  refine and_congr_right fun _ => ?_
  constructor
  · intro mark
    split at mark
    · next tail parts => exact ⟨'-', tail, Or.inl rfl, parts, mark⟩
    · next tail parts => exact ⟨'.', tail, Or.inr rfl, parts, mark⟩
    · cases mark
  · rintro ⟨x, tail, rfl | rfl, parts, ends⟩
    · rw [parts]
      exact ends
    · rw [parts]
      exact ends

/-! ### Steps of one character and of one line -/

section

variable {c : Cursor}

theorem Reaches.of_blank {x : Char} {rest : List Char} (parts : c.rest = x :: rest)
    (blank : isBlank x = true) : c.Reaches (c.advance 1) :=
  .of_advance (show c.rest = [x] ++ rest from parts) (by simpa using is_break_of_is_blank blank)

theorem on_break_of_rest {x : Char} {rest : List Char} (parts : c.rest = x :: rest)
    (ends : isBreak x = true) : c.onBreak = true := by
  simp [onBreak, parts, ends]

theorem rest_of_on_break (ends : c.onBreak = true) :
    ∃ x rest, c.rest = x :: rest ∧ isBreak x = true := by
  cases parts : c.rest with
  | nil => simp [onBreak, parts] at ends
  | cons x rest => exact ⟨x, rest, rfl, by simpa [onBreak, parts] using ends⟩

theorem to_break_on_break_or_nil (c : Cursor) : c.toBreak.onBreak = true ∨ c.toBreak.rest = [] := by
  have behind : c.toBreak.rest = c.rest.dropWhile fun x => !isBreak x := c.rest_drop_while _
  have stopped := List.head?_dropWhile_not (fun x => !isBreak x) c.rest
  rw [← behind] at stopped
  cases parts : c.toBreak.rest with
  | nil => exact Or.inr rfl
  | cons x rest =>
      rw [parts] at stopped
      exact Or.inl (on_break_of_rest parts (by simpa using stopped))

theorem blank_or_break_or_stop (c : Cursor) :
    (∃ x rest, c.rest = x :: rest ∧ isBlank x = true) ∨ c.onBreak = true ∨
      c.rest.head?.any isBlankOrBreak = false := by
  cases parts : c.rest with
  | nil => exact Or.inr (Or.inr rfl)
  | cons x rest =>
      cases blank : isBlank x with
      | true => exact Or.inl ⟨x, rest, rfl, blank⟩
      | false =>
          cases ends : isBreak x with
          | true => exact Or.inr (Or.inl (on_break_of_rest parts ends))
          | false => exact Or.inr (Or.inr (by simp [isBlankOrBreak, blank, ends]))

theorem rest_advance_one {x : Char} {rest : List Char} (parts : c.rest = x :: rest) :
    (c.advance 1).rest = rest := rest_advance (show c.rest = [x] ++ rest from parts)

theorem length_next_line (ends : c.onBreak = true) : c.nextLine.rest.length < c.rest.length := by
  obtain ⟨before, rest, index, parts, filled, _, next⟩ := next_line_cases ends
  have := List.length_pos_iff.2 filled
  simp only [next, parts, List.length_append]
  omega

theorem break_text_ne_nil (ends : c.onBreak = true) : c.breakText ≠ [] := by
  unfold breakText
  split
  · simp
  · simp
  · simp
  · next parts => simp [onBreak, parts] at ends

theorem not_ident_of_mem_break_text {x : Char} (member : x ∈ c.breakText) :
    isIdentChar x = false := by
  unfold breakText at member
  split at member
  · rw [List.mem_singleton.1 member]
    decide
  · rw [List.mem_singleton.1 member]
    decide
  · rw [List.mem_singleton.1 member]
    decide
  · cases member

end

/-! ### Corresponding places -/

/-- A place in a text and the place in the changed text that corresponds to it. -/
structure Matches (r : Respelling) (c c' : Cursor) : Prop where
  rest : c'.rest = r.text c.rest
  line : c'.line = c.line
  column : c.column ≤ c'.column
  first : c.column = 0 → c'.column = 0
  unescaped : Unescaped c.rest

namespace Matches

variable {r : Respelling} {c c' : Cursor}

theorem advance {front back : List Char} (same : Matches r c c') (parts : c.rest = front ++ back)
    (apart : Apart front back) :
    Matches r (c.advance front.length) (c'.advance (r.text front).length) := by
  have longer := r.length_le_text front
  have parts' : c'.rest = r.text front ++ r.text back := by
    rw [same.rest, parts, r.text_append apart]
  constructor
  · rw [rest_advance parts, rest_advance parts']
  · exact same.line
  · have := same.column
    simp only [Cursor.advance]
    omega
  · intro none
    have none' : c.column = 0 ∧ front = [] := by
      simp only [Cursor.advance] at none
      exact ⟨by omega, List.eq_nil_of_length_eq_zero (by omega)⟩
    simp [Cursor.advance, none'.2, same.first none'.1]
  · rw [rest_advance parts]
    exact same.unescaped.suffix (parts ▸ List.suffix_append front back)

theorem advance_in_line {front back : List Char} (same : Matches r c c')
    (parts : c.rest = front ++ back) (apart : Apart front back)
    (free : ∀ x ∈ front, isBreak x = false) :
    Matches r (c.advance front.length) (c'.advance (r.text front).length) ∧
      c.Reaches (c.advance front.length) ∧ c'.Reaches (c'.advance (r.text front).length) := by
  have parts' : c'.rest = r.text front ++ r.text back := by
    rw [same.rest, parts, r.text_append apart]
  exact ⟨same.advance parts apart, .of_advance parts free,
    .of_advance parts' (r.forall_mem_text is_break_of_ident free)⟩

/-- Past characters that are not changed, columns that agree go on to agree. -/
theorem advance_other {front back : List Char} (same : Matches r c c')
    (parts : c.rest = front ++ back) (others : ∀ x ∈ front, isIdentChar x = false) :
    Matches r (c.advance front.length) (c'.advance front.length) := by
  have moved := same.advance parts (Respelling.apart_of_other others)
  rwa [r.text_of_other others] at moved

theorem advance_one {x : Char} {back : List Char} (same : Matches r c c')
    (parts : c.rest = x :: back) (other : isIdentChar x = false) :
    Matches r (c.advance 1) (c'.advance 1) :=
  same.advance_other (show c.rest = [x] ++ back from parts) (by simpa using other)

theorem advance_one_in_line {x : Char} {back : List Char} (same : Matches r c c')
    (parts : c.rest = x :: back) (other : isIdentChar x = false) (inLine : isBreak x = false) :
    Matches r (c.advance 1) (c'.advance 1) ∧ c.Reaches (c.advance 1) ∧
      c'.Reaches (c'.advance 1) := by
  have moved := same.advance_in_line (show c.rest = [x] ++ back from parts)
    (Or.inl (by simpa using other)) (by simpa using inLine)
  rwa [r.text_of_other (by simpa using other)] at moved

/-- Past characters that stay as they are though there may be words among them. -/
theorem advance_kept {front back : List Char} (same : Matches r c c')
    (parts : c.rest = front ++ back) (kept : r.text c.rest = front ++ r.text back) :
    Matches r (c.advance front.length) (c'.advance front.length) := by
  have parts' : c'.rest = front ++ r.text back := same.rest.trans kept
  constructor
  · rw [rest_advance parts, rest_advance parts']
  · exact same.line
  · exact Nat.add_le_add_right same.column _
  · intro none
    simp only [Cursor.advance] at none ⊢
    have := same.first (by omega)
    omega
  · rw [rest_advance parts]
    exact same.unescaped.suffix (parts ▸ List.suffix_append front back)

theorem rest_of_other {x : Char} {back : List Char} (same : Matches r c c')
    (parts : c.rest = x :: back) (other : isIdentChar x = false) :
    c'.rest = x :: r.text back := by
  rw [same.rest, parts, r.text_gap other]

theorem drop_while {test : Char → Bool} (same : Matches r c c')
    (all : ∀ x, isIdentChar x = true → test x = true) :
    Matches r (c.dropWhile test) (c'.dropWhile test) := by
  have parts : c.rest = c.rest.takeWhile test ++ c.rest.dropWhile test :=
    List.takeWhile_append_dropWhile.symm
  have behind : Fresh (c.rest.dropWhile test) := by
    intro x first
    have stopped := List.head?_dropWhile_not test c.rest
    rw [first] at stopped
    simp only [Option.mem_def] at first
    cases ident : isIdentChar x with
    | false => rfl
    | true => simp [all x ident] at stopped
  have moved := same.advance parts (Or.inr behind)
  rwa [← r.take_while_text all, ← same.rest] at moved

theorem drop_while_of_other {test : Char → Bool} (same : Matches r c c')
    (none : ∀ x, isIdentChar x = true → test x = false) :
    Matches r (c.dropWhile test) (c'.dropWhile test) := by
  have parts : c.rest = c.rest.takeWhile test ++ c.rest.dropWhile test :=
    List.takeWhile_append_dropWhile.symm
  have others : ∀ x ∈ c.rest.takeWhile test, isIdentChar x = false := by
    intro x member
    have passed := List.all_eq_true.1 List.all_takeWhile x member
    cases ident : isIdentChar x with
    | false => rfl
    | true =>
        rw [none x ident] at passed
        cases passed
  have kept : c'.rest.takeWhile test = c.rest.takeWhile test := by
    rw [same.rest, r.take_while_text_of_other none]
  have moved := same.advance_other parts others
  rwa [Cursor.dropWhile, Cursor.dropWhile, kept]

theorem column_drop_while_of_other {test : Char → Bool} (same : Matches r c c')
    (none : ∀ x, isIdentChar x = true → test x = false) (exact : c'.column = c.column) :
    (c'.dropWhile test).column = (c.dropWhile test).column := by
  simp only [Cursor.dropWhile, Cursor.advance]
  rw [same.rest, r.take_while_text_of_other none, exact]

theorem on_break (same : Matches r c c') : c'.onBreak = c.onBreak := by
  rw [Cursor.onBreak, same.rest, r.any_head_text is_break_of_ident]
  rfl

theorem on_blank (same : Matches r c c') : c'.onBlank = c.onBlank := by
  rw [Cursor.onBlank, same.rest, r.any_head_text is_blank_of_ident]
  rfl

theorem on_break_or_end (same : Matches r c c') : c'.onBreakOrEnd = c.onBreakOrEnd := by
  rw [Cursor.onBreakOrEnd, same.rest, r.end_or_text is_break_of_ident]
  rfl

theorem on_blank_or_end (same : Matches r c c') : c'.onBlankOrEnd = c.onBlankOrEnd := by
  rw [Cursor.onBlankOrEnd, same.rest, r.end_or_text is_blank_or_break_of_ident]
  rfl

theorem at_end (same : Matches r c c') : c'.atEnd = c.atEnd := by
  rw [Cursor.atEnd, Cursor.atEnd, same.rest, Bool.eq_iff_iff, List.isEmpty_iff, List.isEmpty_iff,
    r.text_eq_nil_iff]

theorem head_beq {x : Char} (same : Matches r c c') (other : isIdentChar x = false) :
    (c'.rest.head? == some x) = (c.rest.head? == some x) := by
  rw [same.rest, r.head_text_beq other]

theorem column_eq_zero_iff (same : Matches r c c') : c'.column = 0 ↔ c.column = 0 := by
  have := same.column
  exact ⟨fun zero => by omega, same.first⟩

theorem pair_text_iff {x : Char} {rest : List Char} :
    (∃ tail, x :: r.text rest = '\r' :: '\n' :: tail) ↔ ∃ tail, x :: rest = '\r' :: '\n' :: tail := by
  constructor
  · rintro ⟨tail', both⟩
    obtain ⟨rfl, behind⟩ := List.cons.inj both
    obtain ⟨tail, first, _⟩ := (r.text_eq_cons_iff (by decide)).1 behind
    exact ⟨tail, by rw [first]⟩
  · rintro ⟨tail, both⟩
    obtain ⟨rfl, rfl⟩ := List.cons.inj both
    exact ⟨r.text tail, by rw [r.text_gap (by decide)]⟩

/-- A line break is the same in both texts, and after it the columns are. -/
theorem next_line (same : Matches r c c') (ends : c.onBreak = true) :
    Matches r c.nextLine c'.nextLine ∧ c.nextLine.column = 0 ∧ c'.nextLine.column = 0 ∧
      c'.breakText = c.breakText := by
  obtain ⟨x, rest, parts, isEnd⟩ := rest_of_on_break ends
  have parts' := same.rest_of_other parts (not_ident_of_is_break isEnd)
  have unescaped : ∀ {tail : List Char}, tail <:+ rest → Unescaped tail := fun suffix =>
    same.unescaped.suffix (parts ▸ suffix.trans (List.suffix_cons x rest))
  have text : c'.breakText = c.breakText := by
    simp only [breakText, parts, parts']
    split <;> simp_all
  by_cases pair : ∃ tail, x :: rest = '\r' :: '\n' :: tail
  · obtain ⟨tail, both⟩ := pair
    obtain ⟨rfl, rfl⟩ := List.cons.inj both
    rw [r.text_gap (by decide)] at parts'
    rw [next_line_of_pair parts, next_line_of_pair parts']
    exact ⟨⟨rfl, by simp [same.line], Nat.le_refl _, fun _ => rfl,
      unescaped (List.suffix_cons _ _)⟩, rfl, rfl, text⟩
  · rw [next_line_of_single parts (not_exists.1 pair),
      next_line_of_single parts' (not_exists.1 (mt pair_text_iff.1 pair))]
    exact ⟨⟨rfl, by simp [same.line], Nat.le_refl _, fun _ => rfl,
      unescaped (List.suffix_refl _)⟩, rfl, rfl, text⟩

theorem on_document_mark (same : Matches r c c') : c'.onDocumentMark = c.onDocumentMark := by
  have spelled : ∀ x, x = '-' ∨ x = '.' → isIdentChar x = false := by
    rintro x (rfl | rfl) <;> decide
  rw [Bool.eq_iff_iff, on_document_mark_iff, on_document_mark_iff, same.column_eq_zero_iff, same.rest]
  refine and_congr_right fun _ => exists_congr fun x => ?_
  constructor
  · rintro ⟨tail', mark, parts, ends⟩
    have other := spelled x mark
    obtain ⟨two, first, behind⟩ := (r.text_eq_cons_iff other).1 parts
    obtain ⟨one, rfl, further⟩ := (r.text_eq_cons_iff other).1 behind.symm
    obtain ⟨tail, rfl, rfl⟩ := (r.text_eq_cons_iff other).1 further.symm
    exact ⟨tail, mark, first, r.end_or_text is_blank_or_break_of_ident tail ▸ ends⟩
  · rintro ⟨tail, mark, parts, ends⟩
    have other := spelled x mark
    refine ⟨r.text tail, mark, ?_, (r.end_or_text is_blank_or_break_of_ident tail).trans ends⟩
    rw [parts, r.text_gap other, r.text_gap other, r.text_gap other]

end Matches

end Cursor

end MessageSchema.Yaml
