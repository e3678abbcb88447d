import MessageSchema.Proofs.RespeltGaps
import MessageSchema.Yaml.Quoted

/-!
Quoted scalars of a text whose words are changed. Quotes and escapes are no part of a word, unless an
escape is named by an identifier character, as in the one for a line break. Without such escapes the
scalar is found again in the changed text, with its own words changed.
-/

namespace MessageSchema.Yaml

set_option autoImplicit false

open Text

variable {r : Respelling} {c c' d : Cursor}

namespace Quoted

def mark (single : Bool) : Char := if single then '\'' else '"'

theorem not_ident_mark (single : Bool) : isIdentChar (mark single) = false := by
  cases single <;> decide

theorem is_break_mark (single : Bool) : isBreak (mark single) = false := by
  cases single <;> decide

section

variable {single : Bool} {fuel : Nat} {c : Char} {rest : List Char}

theorem word_nil : word? single fuel [] = some ⟨[], 0, false⟩ := by
  cases fuel <;> rfl

theorem word_blank (blank : isBlankOrBreak c = true) :
    word? single fuel (c :: rest) = some ⟨[], 0, false⟩ := by
  cases fuel with
  | zero => rfl
  | succ fuel => rw [word?.eq_def]; simp only [blank, if_true]

theorem word_twice : word? true (fuel + 1) ('\'' :: '\'' :: rest) =
    (word? true fuel rest).map (·.cons '\'' 2) := rfl

theorem word_close (alone : single = true → rest.head? ≠ some '\'') :
    word? single fuel (mark single :: rest) = some ⟨[], 0, false⟩ := by
  cases fuel with
  | zero => rfl
  | succ fuel =>
      cases single with
      | false => rfl
      | true =>
          cases rest with
          | nil => rfl
          | cons d more =>
              rw [word?.eq_def]
              have other : d ≠ '\'' := fun same => alone rfl (by simp [same])
              simp only [mark, if_true]
              rw [if_neg (by decide)]
              split
              · next both => exact absurd (List.cons.inj both).1 other
              · rfl
              · next none _ => exact absurd rfl none

theorem word_escape (inLine : rest.head?.any isBreak = false) :
    word? false (fuel + 1) ('\\' :: rest) =
      (escape? rest).bind fun named =>
        (word? false fuel (rest.drop named.2)).map (·.cons named.1 (named.2 + 1)) := by
  rw [word?.eq_def]
  simp only [inLine]
  rw [if_neg (by decide), if_neg (by decide), if_neg (by decide), if_pos (by decide), if_neg (by simp)]
  cases escape? rest with
  | none => rfl
  | some named =>
      simp only [Option.bind_eq_bind, Option.bind_some]
      cases word? false fuel (rest.drop named.2) <;> rfl

theorem word_char (inLine : isBlankOrBreak c = false) (other : c ≠ mark single)
    (plain : single = false → c ≠ '\\') :
    word? single (fuel + 1) (c :: rest) = (word? single fuel rest).map (·.cons c 1) := by
  rw [word?.eq_def]
  simp only [inLine, Bool.false_eq_true, if_false]
  cases single with
  | true =>
      rw [if_pos rfl]
      split
      · exact absurd rfl other
      · exact absurd rfl other
      · rfl
  | false =>
      have quote : (c == '"') = false := beq_eq_false_iff_ne.2 other
      have slash : (c == '\\') = false := beq_eq_false_iff_ne.2 (plain rfl)
      simp only [quote, slash, Bool.false_eq_true, if_false]

theorem word_run {run : List Char} (ident : ∀ c ∈ run, isIdentChar c = true) :
    word? single (run.length + fuel) (run ++ rest) =
      (word? single fuel rest).map fun word =>
        ⟨run ++ word.text, run.length + word.length, word.joined⟩ := by
  induction run with
  | nil => simp
  | cons c more ih =>
      have letter : isIdentChar c = true := ident c (by simp)
      have differs : ∀ d, isIdentChar d = false → c ≠ d := by
        rintro d other rfl
        rw [letter] at other
        cases other
      have start : (c :: more).length + fuel = (more.length + fuel) + 1 := by
        simp only [List.length_cons]
        omega
      rw [List.cons_append, start,
        word_char (is_blank_or_break_of_ident c letter) (differs _ (not_ident_mark single))
          (fun _ => differs _ (by decide)),
        ih fun d member => ident d (by simp [member]), Option.map_map]
      congr 1
      funext word
      simp only [Function.comp, Word.cons, List.length_cons, List.cons_append, Word.mk.injEq,
        true_and, and_true]
      omega

end

theorem escape_of_other {x named : Char} {rest : List Char} {taken : Nat}
    (other : isIdentChar x = false) (found : escape? (x :: rest) = some (named, taken)) :
    taken = 1 ∧ isIdentChar named = false ∧ ∀ rest', escape? (x :: rest') = some (named, 1) := by
  unfold escape? at found
  split at found
  case h_22 => cases found
  all_goals
    rename_i parts
    obtain ⟨rfl, rfl⟩ := List.cons.inj parts
    first
    | exact absurd other (by decide)
    | cases found; exact ⟨rfl, by decide, fun _ => rfl⟩

/-- Where a word of a quoted scalar ends. -/
def Stops (single : Bool) (text : List Char) : Prop :=
  text = [] ∨ text.head?.any isBlankOrBreak = true ∨ text.head? = some (mark single)

theorem Stops.fresh {single : Bool} {text : List Char} (stops : Stops single text) : Fresh text := by
  intro c first
  rcases stops with rfl | blank | ends
  · cases first
  · rw [Option.mem_def.1 first, Option.any_some] at blank
    cases ident : isIdentChar c with
    | false => rfl
    | true =>
        rw [is_blank_or_break_of_ident c ident] at blank
        cases blank
  · rw [Option.mem_def.1 first] at ends
    cases ends
    exact not_ident_mark single

/-- A word in a text and in the changed text: as much of the text as it takes is changed, and so is
what it stands for. -/
structure WordMatches (r : Respelling) (single : Bool) (text : List Char) (fuel : Nat) (word : Word)
    (front back : List Char) : Prop where
  parts : text = front ++ back
  length : word.length = front.length
  whole : word.joined = false
  stops : Stops single back
  fresh : Fresh text → Fresh word.text
  inLine : ∀ x ∈ front, isBreak x = false
  changed : word? single fuel (r.text text) = some ⟨r.text word.text, (r.text front).length, false⟩

theorem WordMatches.stop {r : Respelling} {single : Bool} {text : List Char} {fuel fuel' : Nat} {word : Word}
    (stops : Stops single text)
    (ends : ∀ fuel, word? single fuel text = some ⟨[], 0, false⟩)
    (ends' : ∀ fuel, word? single fuel (r.text text) = some ⟨[], 0, false⟩)
    (found : word? single fuel text = some word) :
    WordMatches r single text fuel' word [] text := by
  rw [ends] at found
  cases found
  exact ⟨rfl, rfl, rfl, stops, fun _ => fresh_nil, by simp, ends' fuel'⟩

theorem WordMatches.prepend {r : Respelling} {single : Bool} {rest : List Char} {fuel fuel' : Nat}
    {more : Word} {front back : List Char} (m : WordMatches r single rest fuel more front back)
    {before text : List Char} (apart : Apart before rest) (apartText : Apart text more.text)
    (inLine : ∀ x ∈ before, isBreak x = false)
    (fresh : Fresh (before ++ rest) → Fresh (text ++ more.text))
    (taken : word? single fuel' (r.text before ++ r.text rest) =
      (word? single fuel (r.text rest)).map fun word =>
        ⟨r.text text ++ word.text, (r.text before).length + word.length, word.joined⟩) :
    WordMatches r single (before ++ rest) fuel'
      ⟨text ++ more.text, before.length + more.length, more.joined⟩ (before ++ front) back := by
  have apartFront : Apart before front := by
    rw [m.parts] at apart
    exact apart.of_append
  constructor
  · rw [m.parts, List.append_assoc]
  · rw [List.length_append, ← m.length]
  · exact m.whole
  · exact m.stops
  · exact fresh
  · intro x member
    rcases List.mem_append.1 member with first | later
    · exact inLine x first
    · exact m.inLine x later
  · rw [r.text_append apart, taken, m.changed, r.text_append apartText, r.text_append apartFront,
      List.length_append]
    rfl

namespace WordMatches

variable {single : Bool} {rest : List Char} {fuel : Nat} {more : Word} {front back : List Char} {c : Char}

/-- Behind a quote that is written twice. -/
theorem twice (m : WordMatches r true rest fuel more front back) :
    WordMatches r true ('\'' :: '\'' :: rest) (fuel + 1) (more.cons '\'' 2)
      ('\'' :: '\'' :: front) back := by
  have one : ∀ x ∈ ['\''], isIdentChar x = false ∧ isBreak x = false :=
    List.forall_mem_singleton.2 (by decide)
  have two : ∀ x ∈ ['\'', '\''], isIdentChar x = false ∧ isBreak x = false :=
    List.forall_mem_cons.2 ⟨by decide, one⟩
  have quotes : r.text ['\'', '\''] = ['\'', '\''] :=
    r.text_of_other fun x member => (two x member).1
  have quote : r.text ['\''] = ['\''] := r.text_of_other fun x member => (one x member).1
  have taken : word? true (fuel + 1) (r.text ['\'', '\''] ++ r.text rest) =
      (word? true fuel (r.text rest)).map fun word =>
        ⟨r.text ['\''] ++ word.text, (r.text ['\'', '\'']).length + word.length, word.joined⟩ := by
    rw [quotes, quote]
    exact word_twice
  exact m.prepend (Respelling.apart_of_other fun x member => (two x member).1)
    (Respelling.apart_of_other fun x member => (one x member).1) (fun x member => (two x member).2)
    (fun _ => fresh_cons (by decide) _) taken

/-- Behind an escape of one character. -/
theorem escape (m : WordMatches r false rest fuel more front back) {named : Char}
    (other : isIdentChar c = false) (inLine : isBreak c = false) (other' : isIdentChar named = false)
    (always : ∀ rest, escape? (c :: rest) = some (named, 1)) :
    WordMatches r false ('\\' :: c :: rest) (fuel + 1) (more.cons named 2) ('\\' :: c :: front)
      back := by
  have slash : isIdentChar '\\' = false ∧ isBreak '\\' = false := by decide
  have both : r.text ['\\', c] = ['\\', c] := r.text_of_other (by simp [slash.1, other])
  have one : r.text [named] = [named] := r.text_of_other (by simpa using other')
  have taken : word? false (fuel + 1) (r.text ['\\', c] ++ r.text rest) =
      (word? false fuel (r.text rest)).map fun word =>
        ⟨r.text [named] ++ word.text, (r.text ['\\', c]).length + word.length, word.joined⟩ := by
    have step : word? false (fuel + 1) ('\\' :: c :: r.text rest) =
        (word? false fuel (r.text rest)).map (·.cons named 2) := by
      rw [word_escape (by simpa using inLine), always]
      rfl
    rw [both, one]
    exact step
  exact m.prepend (Or.inl (by simpa using other)) (Or.inl (by simpa using other'))
    (by simp [slash.2, inLine]) (fun _ => fresh_cons other' _) taken

/-- Behind a character that stands for itself and is part of no word. -/
theorem other (m : WordMatches r single rest fuel more front back) (other : isIdentChar c = false)
    (blank : isBlankOrBreak c = false) (quote : c ≠ mark single)
    (plain : single = false → c ≠ '\\') :
    WordMatches r single (c :: rest) (fuel + 1) (more.cons c 1) (c :: front) back := by
  have inLine : isBreak c = false := by
    simp only [isBlankOrBreak, Bool.or_eq_false_iff] at blank
    exact blank.2
  have alone : r.text [c] = [c] := r.text_of_other (by simpa using other)
  have taken : word? single (fuel + 1) (r.text [c] ++ r.text rest) =
      (word? single fuel (r.text rest)).map fun word =>
        ⟨r.text [c] ++ word.text, (r.text [c]).length + word.length, word.joined⟩ := by
    rw [alone]
    exact word_char blank quote plain
  exact m.prepend (Or.inl (by simpa using other)) (Or.inl (by simpa using other))
    (by simpa using inLine) (fun _ => fresh_cons other _) taken

/-- Behind identifier characters, which are changed together. -/
theorem run (m : WordMatches r single rest fuel more front back) {run : List Char} (isRun : IsRun run)
    (fresh : Fresh rest) :
    WordMatches r single (run ++ rest) ((r.word run).length + fuel)
      ⟨run ++ more.text, run.length + more.length, more.joined⟩ (run ++ front) back := by
  have taken : word? single ((r.word run).length + fuel) (r.text run ++ r.text rest) =
      (word? single fuel (r.text rest)).map fun word =>
        ⟨r.text run ++ word.text, (r.text run).length + word.length, word.joined⟩ := by
    rw [r.text_of_run isRun, word_run (r.isRun_word isRun).2]
  refine m.prepend (Or.inr fresh) (Or.inr (m.fresh fresh))
    (fun x member => is_break_of_ident x (isRun.2 x member)) ?_ taken
  -- A text that begins with a word is not fresh.
  intro fresh
  obtain ⟨c, word, begun⟩ := List.exists_cons_of_ne_nil isRun.1
  have first : isIdentChar c = false := fresh c (by simp [begun])
  rw [isRun.2 c (by simp [begun])] at first
  cases first

end WordMatches

theorem matches_close {single : Bool} {rest : List Char} {fuel fuel' : Nat} {word : Word}
    (alone : single = true → rest.head? ≠ some '\'')
    (found : word? single fuel (mark single :: rest) = some word) :
    WordMatches r single (mark single :: rest) fuel' word [] (mark single :: rest) := by
  have alone' : single = true → (r.text rest).head? ≠ some '\'' := by
    intro yes second
    have asked := r.head_text_beq (c := '\'') (by decide) rest
    rw [second, beq_self_eq_true] at asked
    exact alone yes (beq_iff_eq.1 asked.symm)
  have changed : r.text (mark single :: rest) = mark single :: r.text rest :=
    r.text_gap (not_ident_mark single) rest
  exact .stop (Or.inr (Or.inr rfl)) (fun _ => word_close alone)
    (fun _ => changed ▸ word_close alone') found

/-- A word of a quoted scalar without escapes that name it by an identifier character. -/
theorem word_matches (r : Respelling) {single : Bool} {text : List Char} {fuel fuel' : Nat}
    {word : Word} (unescaped : Unescaped text) (enough : text.length < fuel)
    (enough' : (r.text text).length < fuel') (found : word? single fuel text = some word) :
    ∃ front back, WordMatches r single text fuel' word front back := by
  induction size : text.length using Nat.strongRecOn generalizing text fuel fuel' word with
  | _ n ih =>
  -- What remains behind some characters is matched by induction, and they are put in front of it.
  have later : ∀ (before rest : List Char) (fuel fuel' : Nat) {more : Word},
      text = before ++ rest → before ≠ [] → rest.length < fuel → (r.text rest).length < fuel' →
      word? single fuel rest = some more →
      ∃ front back, WordMatches r single rest fuel' more front back := by
    intro before rest fuel fuel' more parts filled less less' found
    refine ih rest.length ?_ (unescaped.suffix (parts ▸ List.suffix_append before rest)) less less'
      found rfl
    have := List.length_pos_iff.2 filled
    rw [← size, parts, List.length_append]
    omega
  obtain ⟨fuel, rfl⟩ := Nat.exists_eq_add_one.2 (Nat.zero_lt_of_lt enough)
  obtain ⟨fuel', rfl⟩ := Nat.exists_eq_add_one.2 (Nat.zero_lt_of_lt enough')
  rcases text_cases text with rfl | ⟨c, rest, rfl, other⟩ | ⟨run, rest, rfl, isRun, freshRest⟩
  case inl => exact ⟨[], [], .stop (Or.inl rfl) (fun _ => word_nil) (fun _ => word_nil) found⟩
  case inr.inl =>
    have changed : r.text (c :: rest) = c :: r.text rest := r.text_gap other rest
    rw [changed, List.length_cons] at enough'
    rw [List.length_cons] at enough
    cases blank : isBlankOrBreak c with
    | true =>
        exact ⟨[], _, .stop (Or.inr (Or.inl (by simp [blank]))) (fun _ => word_blank blank)
          (fun _ => changed ▸ word_blank blank) found⟩
    | false =>
        by_cases quote : c = mark single
        · subst quote
          by_cases twice : single = true ∧ rest.head? = some '\''
          · obtain ⟨rfl, second⟩ := twice
            obtain ⟨after, rfl⟩ := List.head?_eq_some_iff.1 second
            rw [r.text_gap (by decide), List.length_cons] at enough'
            rw [List.length_cons] at enough
            obtain ⟨more, inner, rfl⟩ := Option.map_eq_some_iff.1 found
            obtain ⟨front, back, m⟩ := later ['\'', '\''] after fuel fuel' rfl (by simp) (by omega)
              (by omega) inner
            exact ⟨_, back, m.twice⟩
          · exact ⟨[], _, matches_close (fun yes second => twice ⟨yes, second⟩) found⟩
        · by_cases slash : single = false ∧ c = '\\'
          · obtain ⟨rfl, rfl⟩ := slash
            cases rest with
            | nil => cases found
            | cons d more =>
                obtain ⟨otherD, inLineD⟩ := unescaped [] d more rfl
                rw [r.text_gap otherD, List.length_cons] at enough'
                rw [List.length_cons] at enough
                rw [word_escape (by simpa using inLineD)] at found
                obtain ⟨⟨named, length⟩, escaped, found⟩ := Option.bind_eq_some_iff.1 found
                obtain ⟨rfl, otherN, always⟩ := escape_of_other otherD escaped
                obtain ⟨word, inner, rfl⟩ := Option.map_eq_some_iff.1 found
                obtain ⟨front, back, m⟩ := later ['\\', d] more fuel fuel' rfl (by simp) (by omega)
                  (by omega) inner
                exact ⟨_, back, m.escape otherD inLineD otherN always⟩
          · have plain : single = false → c ≠ '\\' := fun no same => slash ⟨no, same⟩
            rw [word_char blank quote plain] at found
            obtain ⟨more, inner, rfl⟩ := Option.map_eq_some_iff.1 found
            obtain ⟨front, back, m⟩ := later [c] rest fuel fuel' rfl (by simp) (by omega) (by omega)
              inner
            exact ⟨_, back, m.other other blank quote plain⟩
  case inr.inr =>
    have filled := List.length_pos_iff.2 isRun.1
    have filled' := List.length_pos_iff.2 (r.isRun_word isRun).1
    rw [r.text_run isRun freshRest, List.length_append] at enough'
    rw [List.length_append] at enough
    obtain ⟨less, total⟩ : ∃ less, fuel + 1 = run.length + less := ⟨fuel + 1 - run.length, by omega⟩
    obtain ⟨less', total'⟩ : ∃ less', fuel' + 1 = (r.word run).length + less' :=
      ⟨fuel' + 1 - (r.word run).length, by omega⟩
    rw [total, word_run isRun.2] at found
    obtain ⟨more, inner, rfl⟩ := Option.map_eq_some_iff.1 found
    obtain ⟨front, back, m⟩ := later run rest less less' rfl isRun.1 (by omega) (by omega) inner
    exact ⟨_, back, total' ▸ m.run isRun freshRest⟩

/-! A quoted scalar ends behind its closing quote. The words between its gaps are changed, and since a
gap has a text they stay apart. -/

theorem read_from_succ {single : Bool} {fuel : Nat} {text : List Char} (c : Cursor) :
    readFrom single (fuel + 1) text c =
      if c.onDocumentMark || c.atEnd then none
      else (word? single c.fuel c.rest).bind fun word =>
        let after := c.advance word.length
        let place := if word.joined then after.nextLine else after
        if place.rest.head? == some (mark single) then
          some (text ++ word.text, place.advance 1)
        else
          (Gap.read 0 place.fuel (if word.joined then Gap.escaped else Gap.none) place).bind
            fun behind => readFrom single fuel (text ++ word.text ++ behind.1.text) behind.2 := by
  rw [readFrom]
  split
  · rfl
  · cases word? single c.fuel c.rest with
    | none => rfl
    | some word =>
        simp only [Option.bind_eq_bind, Option.bind_some, mark]
        cases word.joined <;> rfl

/-- A text to which a word can be added: it ends in no identifier character. -/
def Closed (text : List Char) : Prop := ∀ c ∈ text.getLast?, isIdentChar c = false

theorem closed_append (text : List Char) {gap : Gap} (clear : gap.Clear) (wide : gap.Wide) :
    Closed (text ++ gap.text) := by
  intro c last
  rw [List.getLast?_append, Option.or_of_isSome (by simpa using wide.text_ne_nil)] at last
  exact clear.text c (List.mem_of_getLast? last)

theorem not_at_end_of_read_from {single : Bool} {fuel : Nat} {text : List Char}
    {result : List Char × Cursor} (run : readFrom single fuel text c = some result) :
    c.rest ≠ [] := by
  cases fuel with
  | zero => cases run
  | succ fuel =>
      intro none
      rw [read_from_succ, if_pos (by simp [Cursor.atEnd, none])] at run
      cases run

/-- A gap behind a word that neither the closing quote nor the end of the text follows has a text. -/
theorem Stops.wide {single : Bool} {gap : Gap} {next : Cursor} (stops : Stops single c.rest)
    (opened : c.rest.head? ≠ some (mark single)) (reads : Gap.Reads 0 Gap.none c gap next)
    (goes : next.rest ≠ []) : gap.Wide := by
  rcases stops with none | blank | closes
  · have suffix := reads.reaches.suffix
    rw [none, List.suffix_nil] at suffix
    exact absurd suffix goes
  · exact reads.wide (Or.inr ⟨blank, rfl⟩)
  · exact absurd closes opened

/-- A quoted scalar of the changed text is the scalar with its words changed. -/
theorem read_from_matches {single : Bool} {fuel fuel' : Nat} {text result : List Char}
    (le : fuel ≤ fuel') (same : Cursor.Matches r c c') (closed : Closed text)
    (run : readFrom single fuel text c = some (result, d)) :
    ∃ d', readFrom single fuel' (r.text text) c' = some (r.text result, d') ∧
      Cursor.Matches r d d' ∧ c.Reaches d ∧ c'.Reaches d' := by
  induction fuel generalizing fuel' text c c' with
  | zero => cases run
  | succ fuel ih =>
      obtain ⟨fuel', rfl⟩ := Nat.exists_eq_add_one.2 (Nat.lt_of_lt_of_le (Nat.succ_pos fuel) le)
      rw [read_from_succ] at run
      split at run
      case isTrue => cases run
      case isFalse goes =>
      obtain ⟨word, found, run⟩ := Option.bind_eq_some_iff.1 run
      obtain ⟨front, back, m⟩ := word_matches r same.unescaped (Nat.lt_succ_self _)
        (Nat.lt_succ_self _) found
      obtain ⟨place, reaches, reaches'⟩ := same.advance_in_line m.parts (Or.inr m.stops.fresh) m.inLine
      have goes' : (c'.onDocumentMark || c'.atEnd) = false := by
        rw [same.on_document_mark, same.at_end]
        simpa using goes
      have found' : word? single c'.fuel c'.rest =
          some ⟨r.text word.text, (r.text front).length, false⟩ := by
        rw [Cursor.fuel, same.rest]
        exact m.changed
      have added : r.text (text ++ word.text) = r.text text ++ r.text word.text :=
        r.text_append (Or.inl closed)
      rw [read_from_succ, goes', found']
      simp only [m.whole, m.length, Bool.false_eq_true, if_false, Option.bind_some,
        place.head_beq (not_ident_mark single)] at run ⊢
      split at run
      · next closes =>
          cases run
          obtain ⟨tail, parts⟩ := List.head?_eq_some_iff.1 (beq_iff_eq.1 closes)
          obtain ⟨behind, reach, reach'⟩ :=
            place.advance_one_in_line parts (not_ident_mark single) (is_break_mark single)
          exact ⟨_, by rw [if_pos closes, added], behind, reaches.trans reach,
            reaches'.trans reach'⟩
      · next opened =>
          obtain ⟨⟨gap, next⟩, behind, run⟩ := Option.bind_eq_some_iff.1 run
          have reads := (Gap.read_eq_some_iff (Nat.lt_succ_self _)).1 behind
          obtain ⟨next', reads', place', _⟩ := reads.matches place (by simp [Gap.none])
          have behind' := (Gap.read_eq_some_iff (Nat.lt_succ_self _)).2 reads'
          have clear := reads.clear Gap.clear_none
          have stops : Stops single (c.advance front.length).rest :=
            (Cursor.rest_advance m.parts).symm ▸ m.stops
          have wide := stops.wide (by simpa using opened) reads (not_at_end_of_read_from run)
          have closed' := closed_append (text ++ word.text) clear wide
          obtain ⟨d', run', result⟩ := ih (Nat.le_of_succ_le_succ le) place' closed' run
          have apart : Apart (text ++ word.text) gap.text := Or.inr fun x first =>
            clear.text x (List.mem_of_head? first)
          rw [r.text_append apart, added, r.text_of_other clear.text] at run'
          refine ⟨d', ?_, result.1, (reaches.trans reads.reaches).trans result.2.1,
            (reaches'.trans reads'.reaches).trans result.2.2⟩
          rw [if_neg opened, Cursor.fuel, behind']
          exact run'

theorem read_matches {single : Bool} {text : List Char} (same : Cursor.Matches r c c')
    (opens : c.rest.head? = some (mark single)) (run : read? single c = some (text, d)) :
    ∃ d', read? single c' = some (r.text text, d') ∧ Cursor.Matches r d d' ∧ c.Reaches d ∧
      c'.Reaches d' := by
  obtain ⟨tail, parts⟩ := List.head?_eq_some_iff.1 opens
  obtain ⟨opened, reach, reach'⟩ :=
    same.advance_one_in_line parts (not_ident_mark single) (is_break_mark single)
  have longer : c.fuel ≤ c'.fuel := by
    have := r.length_le_text c.rest
    rw [Cursor.fuel, Cursor.fuel, same.rest]
    omega
  obtain ⟨d', run', place, reaches, reaches'⟩ :=
    read_from_matches longer opened (by simp [Closed]) run
  exact ⟨d', run', place, reach.trans reaches, reach'.trans reaches'⟩

end Quoted

end MessageSchema.Yaml
