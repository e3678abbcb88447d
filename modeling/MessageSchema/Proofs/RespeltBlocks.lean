import MessageSchema.Proofs.RespeltGaps
import MessageSchema.Yaml.Block

/-!
Block scalars of a text whose words are changed. Their lines are told by indentation, which holds no
words, and their header is a sign and a digit, which a change of words leaves alone. At the end of the
text columns decide nothing any more, so they need not agree there.
-/

namespace MessageSchema.Yaml.Block

set_option autoImplicit false

open Text

variable {r : Respelling} {c c' d : Cursor}

/-! ### The header -/

theorem not_is_digit_of_other {c : Char} (other : isIdentChar c = false) : c.isDigit = false := by
  simp only [isIdentChar, Char.isAlphanum, Bool.or_eq_false_iff] at other
  exact other.1.2

theorem is_ident_char_of_is_digit {c : Char} (digit : c.isDigit = true) : isIdentChar c = true := by
  simp [isIdentChar, Char.isAlphanum, digit]

theorem text_digit (r : Respelling) {c : Char} {rest : List Char} (digit : c.isDigit = true)
    (fresh : Fresh rest) : r.text (c :: rest) = c :: r.text rest := by
  have run : IsRun [c] := ⟨by simp, by simpa using is_ident_char_of_is_digit digit⟩
  have changed := r.text_run run fresh
  rwa [r.word_digit digit] at changed

theorem ending_text (r : Respelling) (text : List Char) :
    ending? (r.text text) = (ending? text).map fun found => (found.1, r.text found.2) := by
  rcases text_cases text with rfl | ⟨c, rest, rfl, other⟩ | ⟨run, rest, rfl, isRun, fresh⟩
  · rfl
  · rw [r.text_gap other]
    by_cases plus : c = '+'
    · subst plus
      rfl
    · by_cases minus : c = '-'
      · subst minus
        rfl
      · simp [ending?, plus, minus]
  · obtain ⟨c, d, tail, tail', begun, ident, begun', ident'⟩ := r.head_text_of_run isRun fresh
    have none : ∀ (c : Char) (tail : List Char), isIdentChar c = true → ending? (c :: tail) = none := by
      intro c tail ident
      unfold ending?
      split
      · next parts =>
          cases parts
          exact absurd ident (by decide)
      · next parts =>
          cases parts
          exact absurd ident (by decide)
      · rfl
    rw [begun', begun, none d tail' ident', none c tail ident]
    rfl

theorem digit_of_fresh {text : List Char} (fresh : Fresh text) :
    digit? text = some (none, text) := by
  cases text with
  | nil => rfl
  | cons c rest =>
      have other : isIdentChar c = false := fresh c rfl
      have notZero : (c == '0') = false := by
        rw [beq_eq_false_iff_ne]
        rintro rfl
        exact absurd other (by decide)
      simp [digit?, notZero, not_is_digit_of_other other]

theorem fresh_text {text : List Char} (r : Respelling) (fresh : Fresh text) : Fresh (r.text text) := by
  cases text with
  | nil => exact fresh_nil
  | cons c rest =>
      have other : isIdentChar c = false := fresh c rfl
      rw [r.text_gap other]
      exact fresh_cons other _

theorem digit_eq_some {text rest : List Char} {n : Nat} (found : digit? text = some (some n, rest)) :
    ∃ c, text = c :: rest ∧ c.isDigit = true ∧ ∀ rest', digit? (c :: rest') = some (some n, rest') := by
  cases text with
  | nil => cases found
  | cons c more =>
      rw [digit?] at found
      split at found
      · cases found
      · next notZero =>
          split at found
          · next digit =>
              cases found
              exact ⟨c, rfl, digit, fun rest' => by simp [digit?, notZero, digit]⟩
          · cases found

theorem ending_eq_some {text rest : List Char} {ending : Ending}
    (found : ending? text = some (ending, rest)) :
    ∃ sign, text = sign :: rest ∧ isIdentChar sign = false ∧ isBreak sign = false ∧
      ∀ rest', ending? (sign :: rest') = some (ending, rest') := by
  unfold ending? at found
  split at found
  · cases found
    exact ⟨'+', rfl, by decide, by decide, fun _ => rfl⟩
  · cases found
    exact ⟨'-', rfl, by decide, by decide, fun _ => rfl⟩
  · cases found

theorem is_break_of_is_digit {c : Char} (digit : c.isDigit = true) : isBreak c = false :=
  is_break_of_ident c (is_ident_char_of_is_digit digit)

theorem header_text (r : Respelling) {text : List Char} {header : Header} {length : Nat}
    (found : header? text = some (header, length)) (fresh : Fresh (text.drop length)) :
    header? (r.text text) = some (header, length) ∧
      ∃ front back, text = front ++ back ∧ front.length = length ∧
        r.text text = front ++ r.text back ∧ ∀ x ∈ front, isBreak x = false := by
  unfold header? at found
  split at found
  · next ending rest sign =>
      obtain ⟨s, rfl, other, inLine, signs⟩ := ending_eq_some sign
      obtain ⟨⟨indent, behind⟩, digit, inner⟩ := Option.bind_eq_some_iff.1 found
      rw [r.text_gap other]
      cases indent with
      | none =>
          cases inner
          have stays : Fresh rest := fresh
          refine ⟨?_, [s], rest, rfl, rfl, rfl, by simpa using inLine⟩
          rw [header?, signs]
          simp [digit_of_fresh (fresh_text r stays)]
      | some n =>
          cases inner
          obtain ⟨c, rfl, isDigit, digits⟩ := digit_eq_some digit
          have stays : Fresh behind := fresh
          have changed := text_digit r isDigit stays
          refine ⟨?_, [s, c], behind, rfl, rfl, by rw [changed]; rfl,
            by simp [inLine, is_break_of_is_digit isDigit]⟩
          rw [header?, signs, changed]
          simp [digits]
  · next unsigned =>
      have unsigned' : ending? (r.text text) = none := by
        rw [ending_text, unsigned]
        rfl
      obtain ⟨⟨indent, behind⟩, digit, inner⟩ := Option.bind_eq_some_iff.1 found
      cases indent with
      | none =>
          cases inner
          have digit' := digit_of_fresh (fresh_text r (show Fresh text from fresh))
          refine ⟨?_, [], text, rfl, rfl, rfl, by simp⟩
          simp only [header?, unsigned', digit', Option.bind_eq_bind, Option.bind_some]
      | some n =>
          obtain ⟨c, rfl, isDigit, digits⟩ := digit_eq_some digit
          simp only at inner
          split at inner
          · next ending rest sign =>
              cases inner
              obtain ⟨s, rfl, other, inLine, signs⟩ := ending_eq_some sign
              have changed := text_digit r isDigit (fresh_cons other rest)
              rw [r.text_gap other] at changed
              rw [changed] at unsigned' ⊢
              refine ⟨?_, [c, s], rest, rfl, rfl, rfl, by simp [inLine, is_break_of_is_digit isDigit]⟩
              simp only [header?, unsigned', digits, signs, Option.bind_eq_bind, Option.bind_some]
          · next sign =>
              cases inner
              have stays : Fresh behind := fresh
              have changed := text_digit r isDigit stays
              have sign' : ending? (r.text behind) = none := by
                rw [ending_text, sign]
                rfl
              rw [changed] at unsigned' ⊢
              refine ⟨?_, [c], behind, rfl, rfl, rfl, by simp [is_break_of_is_digit isDigit]⟩
              simp only [header?, unsigned', digits, sign', Option.bind_eq_bind, Option.bind_some]

/-! ### Empty lines and indentation -/

def indented (indent : Nat) (c : Cursor) : Cursor :=
  c.advance (if indent = 0 then (c.takeWhile (· == ' ')).length
    else min (c.takeWhile (· == ' ')).length (indent - c.column))

def refused (indent : Nat) (place : Cursor) : Bool :=
  (indent = 0 || place.column < indent) && place.rest.head? == some '\t'

theorem breaks_succ {indent fuel : Nat} (b : Breaks) :
    breaks? indent (fuel + 1) b =
      if refused indent (indented indent b.cursor) then none
      else if (indented indent b.cursor).onBreak then
        breaks? indent fuel ⟨b.text ++ (indented indent b.cursor).breakText,
          max b.widest (indented indent b.cursor).column, (indented indent b.cursor).nextLine⟩
      else some ⟨b.text, max b.widest (indented indent b.cursor).column,
        indented indent b.cursor⟩ := rfl

theorem indented_spaces (indent : Nat) (c : Cursor) :
    ∃ front back, c.rest = front ++ back ∧ (∀ x ∈ front, x = ' ') ∧
      indented indent c = c.advance front.length := by
  let spaces := c.takeWhile (· == ' ')
  let count := if indent = 0 then spaces.length else min spaces.length (indent - c.column)
  have count_le : count ≤ spaces.length := by
    simp only [count]
    split
    · exact Nat.le_refl _
    · exact Nat.min_le_left _ _
  have parts : c.rest = spaces ++ c.rest.dropWhile (· == ' ') :=
    List.takeWhile_append_dropWhile.symm
  refine ⟨spaces.take count, spaces.drop count ++ c.rest.dropWhile (· == ' '), ?_, ?_, ?_⟩
  · rw [← List.append_assoc, List.take_append_drop]
    exact parts
  · intro x member
    simpa using List.all_eq_true.1 List.all_takeWhile x (List.mem_of_mem_take member)
  · rw [List.length_take, Nat.min_eq_left count_le]
    rfl

theorem indented_reaches (indent : Nat) (c : Cursor) : c.Reaches (indented indent c) := by
  obtain ⟨front, back, parts, spaces, skipped⟩ := indented_spaces indent c
  rw [skipped]
  exact .of_advance parts fun x member => spaces x member ▸ by decide

theorem indented_matches (indent : Nat) (same : Cursor.Matches r c c')
    (exact : c'.column = c.column) :
    Cursor.Matches r (indented indent c) (indented indent c') ∧
      (indented indent c').column = (indented indent c).column := by
  have spaces : c'.takeWhile (· == ' ') = c.takeWhile (· == ' ') := by
    rw [Cursor.takeWhile, same.rest]
    refine r.take_while_text_of_other ?_ c.rest
    intro x ident
    rw [beq_eq_false_iff_ne]
    rintro rfl
    exact absurd ident (by decide)
  have count : ∀ length, indented indent c = c.advance length →
      (if indent = 0 then (c.takeWhile (· == ' ')).length
        else min (c.takeWhile (· == ' ')).length (indent - c.column)) = length := by
    intro length skipped
    have columns := congrArg Cursor.column skipped
    simp only [indented, Cursor.advance] at columns
    omega
  obtain ⟨front, back, parts, blank, skipped⟩ := indented_spaces indent c
  have skipped' : indented indent c' = c'.advance front.length := by
    rw [indented, spaces, exact, count _ skipped]
  rw [skipped, skipped']
  refine ⟨same.advance_other parts fun x member => blank x member ▸ by decide, ?_⟩
  simp [Cursor.advance, exact]

/-- Empty lines of a text and of the changed text that correspond. Once the text has ended, columns
need not. -/
structure BreaksMatch (r : Respelling) (b b' : Breaks) : Prop where
  text : b'.text = b.text
  clear : ∀ x ∈ b.text, isIdentChar x = false
  cursor : Cursor.Matches r b.cursor b'.cursor
  tied : b'.cursor.column = b.cursor.column ∧ b'.widest = b.widest ∨ b.cursor.rest = []

theorem breaks_at_end (indent fuel : Nat) {b : Breaks} (ended : b.cursor.rest = []) :
    ∃ widest, breaks? indent fuel b = some ⟨b.text, widest, b.cursor⟩ := by
  cases fuel with
  | zero => exact ⟨b.widest, rfl⟩
  | succ fuel =>
      have stays : indented indent b.cursor = b.cursor := by
        obtain ⟨front, back, parts, _, skipped⟩ := indented_spaces indent b.cursor
        rw [ended] at parts
        obtain ⟨rfl, rfl⟩ := List.append_eq_nil_iff.1 parts.symm
        simpa [Cursor.advance] using skipped
      refine ⟨max b.widest b.cursor.column, ?_⟩
      rw [breaks_succ, stays]
      simp [refused, Cursor.onBreak, ended]

theorem breaks_match_next_line {text : List Char} {widest : Nat} {c c' : Cursor}
    (clear : ∀ x ∈ text, isIdentChar x = false) (place : Cursor.Matches r c c')
    (ends : c.onBreak = true) :
    BreaksMatch r ⟨text ++ c.breakText, widest, c.nextLine⟩
      ⟨text ++ c.breakText, widest, c'.nextLine⟩ := by
  obtain ⟨next, start, start', _⟩ := place.next_line ends
  refine ⟨rfl, ?_, next, Or.inl ⟨start'.trans start.symm, rfl⟩⟩
  intro x member
  rcases List.mem_append.1 member with old | new
  · exact clear x old
  · exact Cursor.not_ident_of_mem_break_text new

theorem breaks_matches {indent fuel fuel' : Nat} {b b' d : Breaks}
    (enough : b.cursor.rest.length < fuel) (enough' : b'.cursor.rest.length < fuel')
    (same : BreaksMatch r b b') (run : breaks? indent fuel b = some d) :
    ∃ d', breaks? indent fuel' b' = some d' ∧ BreaksMatch r d d' ∧
      b.cursor.Reaches d.cursor ∧ b'.cursor.Reaches d'.cursor := by
  induction fuel generalizing fuel' b b' with
  | zero => simp at enough
  | succ fuel ih =>
      obtain ⟨fuel', rfl⟩ := Nat.exists_eq_add_one.2 (Nat.zero_lt_of_lt enough')
      rcases same.tied with ⟨columns, widest⟩ | ended
      · obtain ⟨place, columns'⟩ := indented_matches indent same.cursor columns
        have asked : refused indent (indented indent b'.cursor) =
            refused indent (indented indent b.cursor) := by
          rw [refused, refused, columns', place.head_beq (by decide)]
        rw [breaks_succ] at run ⊢
        rw [asked, place.on_break, columns', widest, same.text]
        split at run
        · cases run
        · next allowed =>
            rw [if_neg allowed]
            have reach := indented_reaches indent b.cursor
            have reach' := indented_reaches indent b'.cursor
            split at run
            · next ends =>
                have ends' := place.on_break.trans ends
                have shorter := Cursor.length_next_line ends
                have shorter' := Cursor.length_next_line ends'
                have less := reach.suffix.length_le
                have less' := reach'.suffix.length_le
                have enough : (indented indent b.cursor).nextLine.rest.length < fuel := by omega
                have enough' : (indented indent b'.cursor).nextLine.rest.length < fuel' := by omega
                rw [if_pos ends, (place.next_line ends).2.2.2]
                obtain ⟨d', run', result, on, on'⟩ :=
                  ih enough enough' (breaks_match_next_line same.clear place ends) run
                exact ⟨d', run', result, (reach.trans (.down .refl ends)).trans on,
                  (reach'.trans (.down .refl ends')).trans on'⟩
            · next inLine =>
                cases run
                rw [if_neg inLine]
                exact ⟨_, rfl, ⟨rfl, same.clear, place, Or.inl ⟨columns', rfl⟩⟩, reach, reach'⟩
      · obtain ⟨widest, run₁⟩ := breaks_at_end indent (fuel + 1) ended
        have ended' : b'.cursor.rest = [] := by
          rw [same.cursor.rest, ended]
          rfl
        obtain ⟨widest', run₂⟩ := breaks_at_end indent (fuel' + 1) ended'
        rw [run₁] at run
        cases run
        exact ⟨_, run₂, ⟨same.text, same.clear, same.cursor, Or.inr ended⟩, .refl, .refl⟩

/-! ### Lines -/

def joint (literal : Bool) (a : Reading) : List Char :=
  if !literal && a.lineBreak == ['\n'] && !a.blank && !a.cursor.onBlank then
    if a.empty.isEmpty then [' '] else []
  else a.lineBreak

def Reading.line (a : Reading) : List Char := a.cursor.takeWhile fun c => !isBreak c

def Reading.after (a : Reading) : Cursor := a.cursor.advance a.line.length

/-- The reading with its next line, behind which these empty lines have been found. -/
def Reading.withLine (literal : Bool) (a : Reading) (found : Breaks) : Reading :=
  ⟨a.text ++ joint literal a ++ a.empty ++ a.line, a.after.breakText, found.text, a.cursor.onBlank,
    found.cursor⟩

theorem lines_succ {literal : Bool} {indent fuel : Nat} (a : Reading) :
    lines? literal indent (fuel + 1) a =
      if a.cursor.column != indent || a.cursor.atEnd then some a
      else (breaks? indent a.after.fuel ⟨[], 0, a.after.nextLine⟩).bind fun found =>
        lines? literal indent fuel (a.withLine literal found) := rfl

theorem mem_joint {literal : Bool} {a : Reading} {x : Char} (member : x ∈ joint literal a) :
    x = ' ' ∨ x ∈ a.lineBreak := by
  unfold joint at member
  split at member
  · split at member
    · exact Or.inl (List.mem_singleton.1 member)
    · cases member
  · exact Or.inr member

theorem joint_ne_nil {literal : Bool} {a : Reading} (filled : a.lineBreak ≠ []) :
    joint literal a ++ a.empty ≠ [] := by
  unfold joint
  split
  · split
    · simp
    · next empty => simpa using empty
  · simp [filled]

/-- Readings of a text and of the changed text that correspond. -/
structure ReadingMatches (r : Respelling) (a a' : Reading) : Prop where
  text : a'.text = r.text a.text
  lineBreak : a'.lineBreak = a.lineBreak
  empty : a'.empty = a.empty
  blank : a'.blank = a.blank
  clear : ∀ x ∈ a.lineBreak ++ a.empty, isIdentChar x = false
  apart : a.text = [] ∨ a.lineBreak ≠ [] ∨ a.cursor.rest = []
  cursor : Cursor.Matches r a.cursor a'.cursor
  tied : a'.cursor.column = a.cursor.column ∨ a.cursor.rest = []

theorem after_reaches (a : Reading) : a.cursor.Reaches a.after :=
  .of_drop_while a.cursor fun x passed => by simpa using passed

theorem after_on_break_or_nil (a : Reading) : a.after.onBreak = true ∨ a.after.rest = [] :=
  a.cursor.to_break_on_break_or_nil

theorem next_line_of_nil (ended : c.rest = []) : c.nextLine = c := by
  unfold Cursor.nextLine
  split
  · next parts => simp [parts] at ended
  · next parts => simp [parts] at ended
  · rfl

theorem next_line_reaches (a : Reading) : a.cursor.Reaches a.after.nextLine := by
  rcases after_on_break_or_nil a with ends | ended
  · exact (after_reaches a).trans (.down .refl ends)
  · rw [next_line_of_nil ended]
    exact after_reaches a

theorem length_next_line_lt_fuel (a : Reading) : a.after.nextLine.rest.length < a.after.fuel := by
  unfold Cursor.fuel
  rcases after_on_break_or_nil a with ends | ended
  · have := Cursor.length_next_line ends
    omega
  · rw [next_line_of_nil ended]
    omega

theorem length_next_line_lt {a : Reading} (goes : a.cursor.rest ≠ []) :
    a.after.nextLine.rest.length < a.cursor.rest.length := by
  have less := (after_reaches a).suffix.length_le
  rcases after_on_break_or_nil a with ends | ended
  · have := Cursor.length_next_line ends
    omega
  · rw [next_line_of_nil ended, ended]
    exact List.length_pos_iff.2 goes

namespace ReadingMatches

variable {a a' : Reading}

theorem joint (same : ReadingMatches r a a') (literal : Bool) :
    Block.joint literal a' = Block.joint literal a := by
  simp only [Block.joint, same.lineBreak, same.empty, same.blank, same.cursor.on_blank]

theorem line (same : ReadingMatches r a a') : a'.line = r.text a.line := by
  rw [Reading.line, Cursor.takeWhile, same.cursor.rest]
  exact r.take_while_text (fun x ident => by simp [is_break_of_ident x ident]) _

theorem after (same : ReadingMatches r a a') : Cursor.Matches r a.after a'.after :=
  same.cursor.drop_while fun x ident => by simp [is_break_of_ident x ident]

/-- Behind a line the readings correspond as if no empty line had been read. -/
theorem breaks (same : ReadingMatches r a a') :
    BreaksMatch r ⟨[], 0, a.after.nextLine⟩ ⟨[], 0, a'.after.nextLine⟩ ∧
      a'.after.breakText = a.after.breakText := by
  rcases after_on_break_or_nil a with ends | ended
  · obtain ⟨next, start, start', breakText⟩ := same.after.next_line ends
    exact ⟨⟨rfl, by simp, next, Or.inl ⟨start'.trans start.symm, rfl⟩⟩, breakText⟩
  · have ended' : a'.after.rest = [] := by
      rw [same.after.rest, ended]
      rfl
    rw [next_line_of_nil ended, next_line_of_nil ended']
    exact ⟨⟨rfl, by simp, same.after, Or.inr ended⟩, by simp [Cursor.breakText, ended, ended']⟩

theorem clear_joint (same : ReadingMatches r a a') (literal : Bool) :
    ∀ x ∈ Block.joint literal a ++ a.empty, isIdentChar x = false := by
  intro x member
  rcases List.mem_append.1 member with first | later
  · rcases mem_joint first with rfl | old
    · decide
    · exact same.clear x (List.mem_append_left _ old)
  · exact same.clear x (List.mem_append_right _ later)

theorem with_line (same : ReadingMatches r a a') {literal : Bool} {found found' : Breaks}
    (goes : a.cursor.rest ≠ []) (behind : BreaksMatch r found found')
    (reached : a.after.nextLine.Reaches found.cursor) :
    ReadingMatches r (a.withLine literal found) (a'.withLine literal found') := by
  have clear := same.clear_joint literal
  have text : r.text (a.text ++ (Block.joint literal a ++ a.empty) ++ a.line) =
      r.text a.text ++ (Block.joint literal a ++ a.empty) ++ r.text a.line := by
    by_cases nothing : Block.joint literal a ++ a.empty = []
    · have none : a.text = [] := by
        rcases same.apart with none | filled | ended
        · exact none
        · exact absurd nothing (joint_ne_nil filled)
        · exact absurd ended goes
      simp [nothing, none]
    · exact r.text_between nothing clear a.text a.line
  constructor
  · simp only [Reading.withLine, same.text, same.joint, same.empty, same.line, List.append_assoc]
      at text ⊢
    exact text.symm
  · exact same.breaks.2
  · exact behind.text
  · exact same.cursor.on_blank
  · intro x member
    rcases List.mem_append.1 member with first | later
    · exact Cursor.not_ident_of_mem_break_text first
    · exact behind.clear x later
  · rcases after_on_break_or_nil a with ends | ended
    · exact Or.inr (Or.inl (Cursor.break_text_ne_nil ends))
    · have suffix := reached.suffix
      rw [next_line_of_nil ended, ended, List.suffix_nil] at suffix
      exact Or.inr (Or.inr suffix)
  · exact behind.cursor
  · exact behind.tied.imp_left And.left

end ReadingMatches

theorem lines_at_end {literal : Bool} {indent fuel : Nat} {a : Reading} (ended : a.cursor.rest = []) :
    lines? literal indent fuel a = some a := by
  cases fuel with
  | zero => rfl
  | succ fuel => simp [lines_succ, Cursor.atEnd, ended]

theorem lines_matches {literal : Bool} {indent fuel fuel' : Nat} {a a' b : Reading}
    (enough : a.cursor.rest.length < fuel) (enough' : a'.cursor.rest.length < fuel')
    (same : ReadingMatches r a a') (run : lines? literal indent fuel a = some b) :
    ∃ b', lines? literal indent fuel' a' = some b' ∧ ReadingMatches r b b' ∧
      a.cursor.Reaches b.cursor ∧ a'.cursor.Reaches b'.cursor := by
  induction fuel generalizing fuel' a a' with
  | zero => simp at enough
  | succ fuel ih =>
      obtain ⟨fuel', rfl⟩ := Nat.exists_eq_add_one.2 (Nat.zero_lt_of_lt enough')
      by_cases ended : a.cursor.rest = []
      · have ended' : a'.cursor.rest = [] := by
          rw [same.cursor.rest, ended]
          rfl
        rw [lines_at_end ended] at run
        cases run
        exact ⟨a', lines_at_end ended', same, .refl, .refl⟩
      · have columns : a'.cursor.column = a.cursor.column := same.tied.resolve_right ended
        have goes' : a'.cursor.rest ≠ [] := by
          rw [same.cursor.rest, ne_eq, r.text_eq_nil_iff]
          exact ended
        rw [lines_succ] at run ⊢
        rw [columns, same.cursor.at_end]
        split at run
        · next stops =>
            cases run
            exact ⟨a', by rw [if_pos stops], same, .refl, .refl⟩
        · next goes =>
            obtain ⟨found, behind, run⟩ := Option.bind_eq_some_iff.1 run
            have less := length_next_line_lt ended
            have less' := length_next_line_lt goes'
            obtain ⟨found', behind', matched, reach, reach'⟩ := breaks_matches
              (length_next_line_lt_fuel a) (length_next_line_lt_fuel a') same.breaks.1 behind
            have lessFound := reach.suffix.length_le
            have lessFound' := reach'.suffix.length_le
            have enough : (a.withLine literal found).cursor.rest.length < fuel := by
              simp only [Reading.withLine] at lessFound ⊢
              omega
            have enough' : (a'.withLine literal found').cursor.rest.length < fuel' := by
              simp only [Reading.withLine] at lessFound' ⊢
              omega
            obtain ⟨b', run', result, on, on'⟩ :=
              ih enough enough' (same.with_line ended matched reach) run
            refine ⟨b', ?_, result, ((next_line_reaches a).trans reach).trans on,
              ((next_line_reaches a').trans reach').trans on'⟩
            rw [if_neg goes, behind']
            exact run'

/-! ### The whole scalar -/

/-- Past blanks and a comment, to the end of the line if nothing else is on it. -/
def pastComment (c : Cursor) : Cursor :=
  if (c.dropWhile isBlank).rest.head? == some '#' then (c.dropWhile isBlank).toBreak
  else c.dropWhile isBlank

theorem past_comment_matches (same : Cursor.Matches r c c') :
    Cursor.Matches r (pastComment c) (pastComment c') ∧ c.Reaches (pastComment c) ∧
      c'.Reaches (pastComment c') := by
  have spaced := same.drop_while_of_other is_blank_of_ident
  have reach : ∀ c : Cursor, c.Reaches (pastComment c) := by
    intro c
    have blanks : c.Reaches (c.dropWhile isBlank) := .of_drop_while c fun _ => is_break_of_is_blank
    unfold pastComment
    split
    · exact blanks.trans (.of_drop_while _ fun x passed => by simpa using passed)
    · exact blanks
  refine ⟨?_, reach c, reach c'⟩
  rw [pastComment, pastComment, spaced.head_beq (by decide)]
  split
  · exact spaced.drop_while fun x ident => by simp [is_break_of_ident x ident]
  · exact spaced

theorem fresh_of_past_comment (ends : (pastComment c).onBreakOrEnd = true) : Fresh c.rest := by
  intro x first
  cases ident : isIdentChar x with
  | false => rfl
  | true =>
      obtain ⟨rest, parts⟩ := List.head?_eq_some_iff.1 first
      have stays : c.dropWhile isBlank = c := by
        have none : c.rest.takeWhile isBlank = [] := by
          rw [parts, List.takeWhile_cons_of_neg (by simp [is_blank_of_ident x ident])]
        rw [Cursor.dropWhile, none]
        rfl
      have noComment : (c.rest.head? == some '#') = false := by
        rw [first, beq_eq_false_iff_ne]
        rintro same
        cases same
        exact absurd ident (by decide)
      rw [pastComment, stays, noComment, Cursor.onBreakOrEnd] at ends
      simp [parts, endOr, is_break_of_ident x ident] at ends

theorem on_break_or_nil_of_on_break_or_end (ends : c.onBreakOrEnd = true) :
    c.onBreak = true ∨ c.rest = [] := by
  cases parts : c.rest with
  | nil => exact Or.inr rfl
  | cons x rest =>
      rw [Cursor.onBreakOrEnd, parts] at ends
      exact Or.inl (Cursor.on_break_of_rest parts ends)

def Reading.ended (a : Reading) : Ending → List Char
  | .strip => a.text
  | .clip => a.text ++ a.lineBreak
  | .keep => a.text ++ a.lineBreak ++ a.empty

def given (parent : Option Nat) (header : Header) : Nat :=
  if header.indent = 0 then 0 else parent.getD 0 + header.indent

def chosen (parent : Option Nat) (header : Header) (found : Breaks) : Nat :=
  let least := match parent with | none => 1 | some column => column + 1
  if given parent header = 0 then max found.widest least else given parent header

theorem read_eq (literal : Bool) (parent : Option Nat) (c : Cursor) :
    read? literal parent c = (header? (c.advance 1).rest).bind fun opened =>
      let behind := pastComment ((c.advance 1).advance opened.2)
      if !behind.onBreakOrEnd then none
      else (breaks? (given parent opened.1) behind.nextLine.fuel ⟨[], 0, behind.nextLine⟩).bind
        fun found => (lines? literal (chosen parent opened.1 found) found.cursor.fuel
          ⟨[], [], found.text, false, found.cursor⟩).bind fun a =>
            some (a.ended opened.1.ending, a.cursor) := by
  simp only [read?, Option.bind_eq_bind]
  refine congrArg _ (funext fun ⟨header, length⟩ => ?_)
  simp only [pastComment]
  split
  · rfl
  · rfl

theorem length_lt_fuel (c : Cursor) : c.rest.length < c.fuel := Nat.lt_succ_self _

theorem ReadingMatches.ended {a a' : Reading} (same : ReadingMatches r a a') (ending : Ending) :
    a'.ended ending = r.text (a.ended ending) := by
  have added : ∀ more : List Char, (∀ x ∈ more, isIdentChar x = false) →
      r.text (a.text ++ more) = r.text a.text ++ more := by
    intro more others
    rw [r.text_append (Or.inr fun x first => others x (List.mem_of_head? first)),
      r.text_of_other others]
  cases ending with
  | strip => exact same.text
  | clip =>
      have := added a.lineBreak fun x member => same.clear x (List.mem_append_left _ member)
      rw [Reading.ended, Reading.ended, this, same.text, same.lineBreak]
  | keep =>
      have := added (a.lineBreak ++ a.empty) same.clear
      rw [Reading.ended, Reading.ended, List.append_assoc, List.append_assoc, this, same.text,
        same.lineBreak, same.empty]

theorem breaks_of_past_comment (same : Cursor.Matches r c c')
    (ends : (pastComment c).onBreakOrEnd = true) :
    BreaksMatch r ⟨[], 0, (pastComment c).nextLine⟩ ⟨[], 0, (pastComment c').nextLine⟩ ∧
      c.Reaches (pastComment c).nextLine ∧ c'.Reaches (pastComment c').nextLine := by
  obtain ⟨place, reach, reach'⟩ := past_comment_matches same
  rcases on_break_or_nil_of_on_break_or_end ends with onBreak | ended
  · obtain ⟨next, start, start', _⟩ := place.next_line onBreak
    exact ⟨⟨rfl, by simp, next, Or.inl ⟨start'.trans start.symm, rfl⟩⟩,
      reach.trans (.down .refl onBreak), reach'.trans (.down .refl (place.on_break.trans onBreak))⟩
  · have ended' : (pastComment c').rest = [] := by
      rw [place.rest, ended]
      rfl
    rw [next_line_of_nil ended, next_line_of_nil ended']
    exact ⟨⟨rfl, by simp, place, Or.inr ended⟩, reach, reach'⟩

/-- A block scalar of the changed text is the scalar with its words changed. -/
theorem read_matches {literal : Bool} {parent : Option Nat} {text rest : List Char} {x : Char}
    (same : Cursor.Matches r c c') (parts : c.rest = x :: rest) (other : isIdentChar x = false)
    (inLine : isBreak x = false) (run : read? literal parent c = some (text, d)) :
    ∃ d', read? literal parent c' = some (r.text text, d') ∧ Cursor.Matches r d d' ∧
      (d'.column = d.column ∨ d.rest = []) ∧ c.Reaches d ∧ c'.Reaches d' := by
  obtain ⟨opened, reach, reach'⟩ := same.advance_one_in_line parts other inLine
  rw [read_eq] at run ⊢
  obtain ⟨⟨header, length⟩, head, run⟩ := Option.bind_eq_some_iff.1 run
  simp only at run
  split at run
  case isTrue => cases run
  case isFalse ends =>
  simp only [Bool.not_eq_true', Bool.not_eq_false] at ends
  obtain ⟨found, behind, run⟩ := Option.bind_eq_some_iff.1 run
  obtain ⟨a, lines, run⟩ := Option.bind_eq_some_iff.1 run
  cases run
  -- Behind the header no word stands, so it is the header of the changed text as well.
  obtain ⟨head', front, back, open_, rfl, kept, free⟩ :=
    header_text r head (fresh_of_past_comment ends)
  rw [← opened.rest] at head'
  have place := opened.advance_kept open_ kept
  have on : (c.advance 1).Reaches ((c.advance 1).advance front.length) := .of_advance open_ free
  have on' : (c'.advance 1).Reaches ((c'.advance 1).advance front.length) :=
    .of_advance (opened.rest.trans kept) free
  have ends' : (pastComment ((c'.advance 1).advance front.length)).onBreakOrEnd = true :=
    (past_comment_matches place).1.on_break_or_end.trans ends
  obtain ⟨begun, down, down'⟩ := breaks_of_past_comment place ends
  obtain ⟨found', behind', matched, through, through'⟩ :=
    breaks_matches (length_lt_fuel _) (length_lt_fuel _) begun behind
  have start : ReadingMatches r ⟨[], [], found.text, false, found.cursor⟩
      ⟨[], [], found'.text, false, found'.cursor⟩ :=
    ⟨rfl, rfl, matched.text, rfl, by simpa using matched.clear, Or.inl rfl, matched.cursor,
      matched.tied.imp_left And.left⟩
  -- At the end of the text there is no line, whatever the indentation.
  obtain ⟨a', lines', result, last, last'⟩ : ∃ a', lines? literal (chosen parent header found')
      found'.cursor.fuel ⟨[], [], found'.text, false, found'.cursor⟩ = some a' ∧
      ReadingMatches r a a' ∧ found.cursor.Reaches a.cursor ∧ found'.cursor.Reaches a'.cursor := by
    rcases matched.tied with ⟨_, widest⟩ | ended
    · have indent : chosen parent header found' = chosen parent header found := by
        simp only [chosen, widest]
      rw [indent]
      exact lines_matches (length_lt_fuel _) (length_lt_fuel _) start lines
    · have ended' : found'.cursor.rest = [] := by
        rw [matched.cursor.rest, ended]
        rfl
      rw [lines_at_end ended] at lines
      cases lines
      exact ⟨_, lines_at_end ended', start, .refl, .refl⟩
  refine ⟨a'.cursor, ?_, result.cursor, result.tied,
    ((reach.trans (on.trans down)).trans through).trans last,
    ((reach'.trans (on'.trans down')).trans through').trans last'⟩
  simp only [head', Option.bind_some, ends', Bool.not_true, Bool.false_eq_true, if_false, behind',
    lines', result.ended header.ending]

end MessageSchema.Yaml.Block
