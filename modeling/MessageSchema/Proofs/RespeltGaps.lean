import MessageSchema.Proofs.Cursors
import MessageSchema.Yaml.Plain

/-!
Gaps of a text whose words are changed. A gap between two words of a scalar is made of blanks and line
breaks, none of which is part of a word, so the changed text has the same gap there.
-/

namespace MessageSchema.Yaml

set_option autoImplicit false

open Text

variable {r : Respelling} {c c' d : Cursor}

namespace Gap

/-- Reading a gap, one character or line break at a time. -/
inductive Reads (margin : Nat) : Gap → Cursor → Gap → Cursor → Prop where
  | stop {gap : Gap} {c : Cursor} (stopped : c.rest.head?.any isBlankOrBreak = false) :
      Reads margin gap c gap c
  | blank {gap g : Gap} {c d : Cursor} {x : Char} {rest : List Char} (parts : c.rest = x :: rest)
      (isBlank : isBlank x = true) (whole : gap.broken = false)
      (further : Reads margin { gap with blanks := gap.blanks ++ [x] } (c.advance 1) g d) :
      Reads margin gap c g d
  | indent {gap g : Gap} {c d : Cursor} {x : Char} {rest : List Char} (parts : c.rest = x :: rest)
      (isBlank : isBlank x = true) (broken : gap.broken = true)
      (allowed : ¬(x = '\t' ∧ c.column < margin)) (further : Reads margin gap (c.advance 1) g d) :
      Reads margin gap c g d
  | firstBreak {gap g : Gap} {c d : Cursor} (ends : c.onBreak = true) (whole : gap.broken = false)
      (further : Reads margin ⟨true, [], c.breakText, []⟩ c.nextLine g d) : Reads margin gap c g d
  | furtherBreak {gap g : Gap} {c d : Cursor} (ends : c.onBreak = true) (broken : gap.broken = true)
      (further : Reads margin { gap with further := gap.further ++ c.breakText } c.nextLine g d) :
      Reads margin gap c g d

section

variable {margin fuel : Nat} {gap g : Gap} {x : Char} {rest : List Char}

theorem read_stop (stopped : c.rest.head?.any isBlankOrBreak = false) :
    read margin fuel gap c = some (gap, c) := by
  cases fuel with
  | zero => rfl
  | succ fuel =>
      cases parts : c.rest with
      | nil => simp [read, parts]
      | cons x rest =>
          simp only [parts, List.head?_cons, Option.any_some, isBlankOrBreak,
            Bool.or_eq_false_iff] at stopped
          simp [read, parts, stopped.1, stopped.2]

theorem read_blank (parts : c.rest = x :: rest) (blank : isBlank x = true)
    (whole : gap.broken = false) :
    read margin (fuel + 1) gap c =
      read margin fuel { gap with blanks := gap.blanks ++ [x] } (c.advance 1) := by
  simp only [read, parts, blank, if_true, whole, Bool.false_eq_true, if_false]

theorem read_indent (parts : c.rest = x :: rest) (blank : isBlank x = true)
    (broken : gap.broken = true) :
    read margin (fuel + 1) gap c =
      if x == '\t' && decide (c.column < margin) then Option.none
      else read margin fuel gap (c.advance 1) := by
  simp only [read, parts, blank, if_true, broken]

theorem read_first_break (ends : c.onBreak = true) (whole : gap.broken = false) :
    read margin (fuel + 1) gap c =
      read margin fuel ⟨true, [], c.breakText, []⟩ c.nextLine := by
  obtain ⟨x, rest, parts, isEnd⟩ := Cursor.rest_of_on_break ends
  have blank := is_blank_of_is_break isEnd
  simp only [read, parts, blank, isEnd, if_true, whole, Bool.false_eq_true, if_false]

theorem read_further_break (ends : c.onBreak = true) (broken : gap.broken = true) :
    read margin (fuel + 1) gap c =
      read margin fuel { gap with further := gap.further ++ c.breakText } c.nextLine := by
  obtain ⟨x, rest, parts, isEnd⟩ := Cursor.rest_of_on_break ends
  have blank := is_blank_of_is_break isEnd
  simp only [read, parts, blank, isEnd, if_true, broken, Bool.false_eq_true, if_false]

theorem length_advance_one (parts : c.rest = x :: rest) (enough : c.rest.length < fuel + 1) :
    (c.advance 1).rest.length < fuel := by
  rw [Cursor.rest_advance_one parts]
  simp only [parts, List.length_cons] at enough
  omega

theorem length_next_line (ends : c.onBreak = true) (enough : c.rest.length < fuel + 1) :
    c.nextLine.rest.length < fuel := by
  have := Cursor.length_next_line ends
  omega

/-- The fuel is never used up. -/
theorem read_eq_some_iff (enough : c.rest.length < fuel) :
    read margin fuel gap c = some (g, d) ↔ Reads margin gap c g d := by
  constructor
  · intro run
    induction fuel generalizing gap c with
    | zero => simp at enough
    | succ fuel ih =>
        rcases Cursor.blank_or_break_or_stop c with ⟨x, rest, parts, blank⟩ | ends | stopped
        · have less := length_advance_one parts enough
          cases broken : gap.broken with
          | false => exact .blank parts blank broken (ih less (read_blank parts blank broken ▸ run))
          | true =>
              rw [read_indent parts blank broken] at run
              split at run
              · cases run
              · next allowed => exact .indent parts blank broken (by simpa using allowed) (ih less run)
        · have less := length_next_line ends enough
          cases broken : gap.broken with
          | false => exact .firstBreak ends broken (ih less (read_first_break ends broken ▸ run))
          | true => exact .furtherBreak ends broken (ih less (read_further_break ends broken ▸ run))
        · rw [read_stop stopped] at run
          cases run
          exact .stop stopped
  · intro reads
    induction reads generalizing fuel with
    | stop stopped => exact read_stop stopped
    | blank parts blank whole _ ih =>
        obtain ⟨fuel, rfl⟩ := Nat.exists_eq_add_one.2 (Nat.zero_lt_of_lt enough)
        rw [read_blank parts blank whole]
        exact ih (length_advance_one parts enough)
    | indent parts blank broken allowed _ ih =>
        obtain ⟨fuel, rfl⟩ := Nat.exists_eq_add_one.2 (Nat.zero_lt_of_lt enough)
        rw [read_indent parts blank broken, if_neg (by simpa using allowed)]
        exact ih (length_advance_one parts enough)
    | firstBreak ends whole _ ih =>
        obtain ⟨fuel, rfl⟩ := Nat.exists_eq_add_one.2 (Nat.zero_lt_of_lt enough)
        rw [read_first_break ends whole]
        exact ih (length_next_line ends enough)
    | furtherBreak ends broken _ ih =>
        obtain ⟨fuel, rfl⟩ := Nat.exists_eq_add_one.2 (Nat.zero_lt_of_lt enough)
        rw [read_further_break ends broken]
        exact ih (length_next_line ends enough)

end

theorem Reads.reaches {margin : Nat} {gap g : Gap} (reads : Reads margin gap c g d) :
    c.Reaches d := by
  induction reads with
  | stop => exact .refl
  | blank parts blank _ _ ih => exact (Cursor.Reaches.of_blank parts blank).trans ih
  | indent parts blank _ _ _ ih => exact (Cursor.Reaches.of_blank parts blank).trans ih
  | firstBreak ends _ _ ih => exact (Cursor.Reaches.down .refl ends).trans ih
  | furtherBreak ends _ _ ih => exact (Cursor.Reaches.down .refl ends).trans ih

theorem Reads.stopped {margin : Nat} {gap g : Gap} (reads : Reads margin gap c g d) :
    d.rest.head?.any isBlankOrBreak = false := by
  induction reads with
  | stop stopped => exact stopped
  | blank _ _ _ _ ih => exact ih
  | indent _ _ _ _ _ ih => exact ih
  | firstBreak _ _ _ ih => exact ih
  | furtherBreak _ _ _ ih => exact ih

def Clear (gap : Gap) : Prop :=
  ∀ x ∈ gap.blanks ++ gap.first ++ gap.further, isIdentChar x = false

def Wide (gap : Gap) : Prop := if gap.broken then gap.first ≠ [] else gap.blanks ≠ []

theorem clear_none : Clear none := by simp [Clear, none]

theorem Clear.text {gap : Gap} (clear : gap.Clear) : ∀ x ∈ gap.text, isIdentChar x = false := by
  intro x member
  unfold Gap.text at member
  split at member
  · exact clear x (by simp [member])
  · split at member
    · split at member
      · rw [List.mem_singleton.1 member]
        decide
      · exact clear x (by simp [member])
    · exact clear x (by
        rw [List.append_assoc]
        exact List.mem_append_right _ member)

theorem Wide.text_ne_nil {gap : Gap} (wide : gap.Wide) : gap.text ≠ [] := by
  unfold Gap.text
  unfold Wide at wide
  split
  · next whole =>
      simp only [Bool.not_eq_true'] at whole
      simpa [whole] using wide
  · next broken =>
      simp only [Bool.not_eq_true', Bool.not_eq_false] at broken
      simp only [broken, if_true] at wide
      split
      · split
        · simp
        · next further => simpa using further
      · simp [wide]

theorem Reads.clear {margin : Nat} {gap g : Gap} (reads : Reads margin gap c g d)
    (clear : gap.Clear) : g.Clear := by
  induction reads with
  | stop => exact clear
  | @blank gap g c d x rest parts blank _ _ ih =>
      apply ih
      intro y member
      simp only [List.mem_append, List.mem_singleton] at member
      rcases member with ((old | rfl) | old) | old
      · exact clear y (by simp [old])
      · exact not_ident_of_is_blank blank
      · exact clear y (by simp [old])
      · exact clear y (by simp [old])
  | indent _ _ _ _ _ ih => exact ih clear
  | firstBreak ends _ _ ih =>
      apply ih
      intro y member
      exact Cursor.not_ident_of_mem_break_text (by simpa using member)
  | furtherBreak ends _ _ ih =>
      apply ih
      intro y member
      simp only [← List.append_assoc, List.mem_append (t := Cursor.breakText _)] at member
      rcases member with old | new
      · exact clear y old
      · exact Cursor.not_ident_of_mem_break_text new

theorem Reads.wide {margin : Nat} {gap g : Gap} (reads : Reads margin gap c g d)
    (wide : gap.Wide ∨ c.rest.head?.any isBlankOrBreak = true ∧ gap.broken = false) : g.Wide := by
  induction reads with
  | stop stopped =>
      rcases wide with wide | ⟨started, _⟩
      · exact wide
      · rw [started] at stopped
        cases stopped
  | blank _ _ whole _ ih => exact ih (Or.inl (by simp [Wide, whole]))
  | indent _ _ broken _ _ ih =>
      rcases wide with wide | ⟨_, whole⟩
      · exact ih (Or.inl wide)
      · rw [broken] at whole
        cases whole
  | firstBreak ends _ _ ih =>
      exact ih (Or.inl (by simpa [Wide] using Cursor.break_text_ne_nil ends))
  | furtherBreak _ broken _ ih =>
      rcases wide with wide | ⟨_, whole⟩
      · exact ih (Or.inl (by simpa [Wide, broken] using wide))
      · rw [broken] at whole
        cases whole

theorem Reads.line_of_whole {margin : Nat} {gap g : Gap} (reads : Reads margin gap c g d)
    (whole : g.broken = false) : gap.broken = false ∧ d.line = c.line := by
  induction reads with
  | stop => exact ⟨whole, rfl⟩
  | blank _ _ before _ ih => exact ⟨before, (ih whole).2⟩
  | indent _ _ broken _ _ ih =>
      rw [(ih whole).1] at broken
      cases broken
  | firstBreak _ _ _ ih => cases (ih whole).1
  | furtherBreak _ broken _ ih =>
      rw [(ih whole).1] at broken
      cases broken

theorem Reads.length_lt {margin : Nat} {gap g : Gap} (reads : Reads margin gap c g d)
    (started : c.rest.head?.any isBlankOrBreak = true) : d.rest.length < c.rest.length := by
  rcases Nat.lt_or_ge d.rest.length c.rest.length with less | more
  · exact less
  · have same := reads.reaches.suffix.eq_of_length_le more
    have stopped := reads.stopped
    rw [same, started] at stopped
    cases stopped

/-- A gap is the same in the changed text. After a line break its columns are, too. -/
theorem Reads.matches {margin : Nat} {gap g : Gap} (reads : Reads margin gap c g d)
    (same : Cursor.Matches r c c') (exact : gap.broken = true → c'.column = c.column) :
    ∃ d', Reads margin gap c' g d' ∧ Cursor.Matches r d d' ∧
      (g.broken = true → d'.column = d.column) := by
  induction reads generalizing c' with
  | stop stopped =>
      refine ⟨c', .stop ?_, same, exact⟩
      rw [same.rest, r.any_head_text is_blank_or_break_of_ident]
      exact stopped
  | blank parts blank whole _ ih =>
      have other := not_ident_of_is_blank blank
      obtain ⟨d', further, rest⟩ := ih (same.advance_one parts other) (by simp [whole])
      exact ⟨d', .blank (same.rest_of_other parts other) blank whole further, rest⟩
  | @indent gap g c d x rest parts blank broken allowed _ ih =>
      have other := not_ident_of_is_blank blank
      have columns := exact broken
      obtain ⟨d', further, rest⟩ := ih (same.advance_one parts other) fun _ => by
        simp [Cursor.advance, columns]
      exact ⟨d', .indent (same.rest_of_other parts other) blank broken (by rwa [columns]) further,
        rest⟩
  | firstBreak ends whole _ ih =>
      obtain ⟨next, start, start', text⟩ := same.next_line ends
      obtain ⟨d', further, rest⟩ := ih next fun _ => start'.trans start.symm
      exact ⟨d', .firstBreak (same.on_break.trans ends) whole (text ▸ further), rest⟩
  | furtherBreak ends broken _ ih =>
      obtain ⟨next, start, start', text⟩ := same.next_line ends
      obtain ⟨d', further, rest⟩ := ih next fun _ => start'.trans start.symm
      exact ⟨d', .furtherBreak (same.on_break.trans ends) broken (text ▸ further), rest⟩

end Gap

end MessageSchema.Yaml
