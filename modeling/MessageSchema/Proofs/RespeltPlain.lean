import MessageSchema.Proofs.RespeltGaps

/-!
Plain scalars of a text whose words are changed. A plain scalar ends at characters that are no part of a
word, and so does every stretch of it. It is therefore found again in the changed text, with its own
words changed and the same gaps between them.
-/

namespace MessageSchema.Yaml

set_option autoImplicit false

open Text

variable {r : Respelling} {c c' : Cursor}

namespace Plain

theorem is_flow_mark_of_ident (c : Char) (ident : isIdentChar c = true) : isFlowMark c = false :=
  forall_ascii (p := fun c => isIdentChar c = true → isFlowMark c = false) (by decide)
    (ascii_of_is_ident_char ident) ident

theorem is_flow_mark_or_query_of_ident (c : Char) (ident : isIdentChar c = true) :
    (isFlowMark c || c == '?') = false :=
  forall_ascii (p := fun c => isIdentChar c = true → (isFlowMark c || c == '?') = false) (by decide)
    (ascii_of_is_ident_char ident) ident

theorem word_run {inFlow : Bool} {word rest : List Char}
    (ident : ∀ c ∈ word, isIdentChar c = true) :
    word? inFlow (word ++ rest) = (word? inFlow rest).map (word ++ ·) := by
  induction word with
  | nil => simp
  | cons c more ih =>
      have letter : isIdentChar c = true := ident c (by simp)
      have colon : (c == ':') = false := by
        rw [beq_eq_false_iff_ne]
        rintro rfl
        exact absurd letter (by decide)
      rw [List.cons_append, word?, is_blank_or_break_of_ident c letter, colon,
        is_flow_mark_of_ident c letter, ih fun d member => ident d (by simp [member])]
      simp [Option.map_map, Function.comp_def]

/-- A word ends at a character that is no part of one, and holds no blanks. -/
theorem word_spec {inFlow : Bool} {text word : List Char} (found : word? inFlow text = some word) :
    ∃ rest, text = word ++ rest ∧ Fresh rest ∧ ∀ x ∈ word, isBlankOrBreak x = false := by
  induction text generalizing word with
  | nil =>
      cases found
      exact ⟨[], rfl, fresh_nil, by simp⟩
  | cons c text ih =>
      have stop : isIdentChar c = false → some [] = some word →
          ∃ rest, c :: text = word ++ rest ∧ Fresh rest ∧ ∀ x ∈ word, isBlankOrBreak x = false := by
        rintro other found
        cases found
        exact ⟨c :: text, rfl, fresh_cons other text, by simp⟩
      rw [word?] at found
      split at found
      · next blank =>
          refine stop ?_ found
          cases ident : isIdentChar c with
          | false => rfl
          | true =>
              rw [is_blank_or_break_of_ident c ident] at blank
              cases blank
      · next inside =>
          split at found
          · cases found
          · split at found
            · next colon =>
                simp only [Bool.and_eq_true, beq_iff_eq] at colon
                exact stop (colon.1 ▸ by decide) found
            · split at found
              · next mark =>
                  refine stop ?_ found
                  cases ident : isIdentChar c with
                  | false => rfl
                  | true =>
                      rw [is_flow_mark_of_ident c ident, Bool.and_false] at mark
                      cases mark
              · obtain ⟨more, further, rfl⟩ := Option.map_eq_some_iff.1 found
                obtain ⟨rest, parts, fresh, others⟩ := ih further
                refine ⟨rest, by rw [parts, List.cons_append], fresh, ?_⟩
                simpa using ⟨by simpa using inside, others⟩

/-- The words of a plain scalar are changed and nothing else. -/
theorem word_text (r : Respelling) (inFlow : Bool) (text : List Char) :
    word? inFlow (r.text text) = (word? inFlow text).map r.text := by
  induction text using text_induction with
  | nil => rfl
  | gap c rest other ih =>
      rw [r.text_gap other, word?, word?, r.any_head_text is_flow_mark_or_query_of_ident,
        r.end_or_text is_blank_or_break_of_ident, ih]
      split
      · rfl
      · split
        · rfl
        · split
          · rfl
          · split
            · rfl
            · rw [Option.map_map, Option.map_map]
              congr 1
              funext word
              exact (r.text_gap other word).symm
  | run word rest run fresh ih =>
      rw [r.text_run run fresh, word_run (r.isRun_word run).2, word_run run.2, ih, Option.map_map,
        Option.map_map]
      cases found : word? inFlow rest with
      | none => rfl
      | some more =>
          obtain ⟨behind, parts, _⟩ := word_spec found
          have next : Fresh more := by
            intro c first
            exact fresh c (by rw [parts]; cases more <;> simp_all)
          simp [r.text_run run next]

theorem word_matches {inFlow : Bool} {word : List Char} (same : Cursor.Matches r c c')
    (found : word? inFlow c.rest = some word) :
    word? inFlow c'.rest = some (r.text word) ∧
      Cursor.Matches r (c.advance word.length) (c'.advance (r.text word).length) := by
  obtain ⟨rest, parts, fresh, _⟩ := word_spec found
  refine ⟨?_, same.advance parts (Or.inr fresh)⟩
  rw [same.rest, word_text, found]
  rfl

theorem word_reaches {inFlow : Bool} {word : List Char} (found : word? inFlow c.rest = some word) :
    c.Reaches (c.advance word.length) := by
  obtain ⟨rest, parts, _, others⟩ := word_spec found
  refine .of_advance parts fun x member => ?_
  have inside := others x member
  simp only [isBlankOrBreak, Bool.or_eq_false_iff] at inside
  exact inside.2

/-- What a word adds to a reading. -/
def Reading.withWord (a : Reading) (word : List Char) : Reading :=
  if word.isEmpty then a else ⟨a.text ++ a.gap.text ++ word, Gap.none, a.cursor.advance word.length⟩

/-- Reading a plain scalar word by word. -/
inductive Reads (inFlow : Bool) (margin : Nat) : Reading → Reading → Prop where
  | mark {a : Reading}
      (stops : (a.cursor.onDocumentMark || a.cursor.rest.head? == some '#') = true) :
      Reads inFlow margin a a
  | word {a : Reading} {word : List Char}
      (goes : (a.cursor.onDocumentMark || a.cursor.rest.head? == some '#') = false)
      (found : word? inFlow a.cursor.rest = some word)
      (ends : (a.withWord word).cursor.rest.head?.any isBlankOrBreak = false) :
      Reads inFlow margin a (a.withWord word)
  | gap {a : Reading} {word : List Char} {gap : Gap} {next : Cursor}
      (goes : (a.cursor.onDocumentMark || a.cursor.rest.head? == some '#') = false)
      (found : word? inFlow a.cursor.rest = some word)
      (spaced : (a.withWord word).cursor.rest.head?.any isBlankOrBreak = true)
      (behind : Gap.Reads margin (a.withWord word).gap (a.withWord word).cursor gap next)
      (out : (!inFlow && decide (next.column < margin)) = true) :
      Reads inFlow margin a ⟨(a.withWord word).text, gap, next⟩
  | further {a b : Reading} {word : List Char} {gap : Gap} {next : Cursor}
      (goes : (a.cursor.onDocumentMark || a.cursor.rest.head? == some '#') = false)
      (found : word? inFlow a.cursor.rest = some word)
      (spaced : (a.withWord word).cursor.rest.head?.any isBlankOrBreak = true)
      (behind : Gap.Reads margin (a.withWord word).gap (a.withWord word).cursor gap next)
      (inside : (!inFlow && decide (next.column < margin)) = false)
      (rest : Reads inFlow margin ⟨(a.withWord word).text, gap, next⟩ b) : Reads inFlow margin a b

theorem read_from_succ {inFlow : Bool} {margin fuel : Nat} (a : Reading) :
    readFrom inFlow margin (fuel + 1) a =
      if a.cursor.onDocumentMark || a.cursor.rest.head? == some '#' then some a
      else (word? inFlow a.cursor.rest).bind fun word =>
        if !((a.withWord word).cursor.rest.head?.any isBlankOrBreak) then some (a.withWord word)
        else (Gap.read margin (a.withWord word).cursor.fuel (a.withWord word).gap
            (a.withWord word).cursor).bind fun behind =>
          if !inFlow && decide (behind.2.column < margin) then
            some ⟨(a.withWord word).text, behind.1, behind.2⟩
          else readFrom inFlow margin fuel ⟨(a.withWord word).text, behind.1, behind.2⟩ := rfl

theorem length_with_word_le (a : Reading) (word : List Char) :
    (a.withWord word).cursor.rest.length ≤ a.cursor.rest.length := by
  unfold Reading.withWord
  split
  · exact Nat.le_refl _
  · simp [Cursor.advance]

/-- Each word and gap shortens what is left, so the fuel is never used up. -/
theorem length_lt_of_gap {margin fuel : Nat} {a : Reading} {word : List Char} {gap : Gap}
    {next : Cursor} (enough : a.cursor.rest.length < fuel + 1)
    (spaced : (a.withWord word).cursor.rest.head?.any isBlankOrBreak = true)
    (behind : Gap.Reads margin (a.withWord word).gap (a.withWord word).cursor gap next) :
    next.rest.length < fuel := by
  have := length_with_word_le a word
  have := behind.length_lt spaced
  omega

theorem reads_of_read_from {inFlow : Bool} {margin fuel : Nat} {a b : Reading}
    (enough : a.cursor.rest.length < fuel) (run : readFrom inFlow margin fuel a = some b) :
    Reads inFlow margin a b := by
  induction fuel generalizing a with
  | zero => simp at enough
  | succ fuel ih =>
      rw [read_from_succ] at run
      split at run
      · next stops =>
          cases run
          exact .mark stops
      · next goes =>
          simp only [Bool.not_eq_true] at goes
          obtain ⟨word, found, run⟩ := Option.bind_eq_some_iff.1 run
          split at run
          · next ends =>
              cases run
              exact .word goes found (by simpa using ends)
          · next spaced =>
              simp only [Bool.not_eq_true', Bool.not_eq_false] at spaced
              obtain ⟨⟨gap, next⟩, behind, run⟩ := Option.bind_eq_some_iff.1 run
              have reads := (Gap.read_eq_some_iff (Nat.lt_succ_self _)).1 behind
              split at run
              · next out =>
                  cases run
                  exact .gap goes found spaced reads out
              · next inside =>
                  simp only [Bool.not_eq_true] at inside
                  exact .further goes found spaced reads inside
                    (ih (length_lt_of_gap enough spaced reads) run)

theorem Reads.read_from_eq {inFlow : Bool} {margin fuel : Nat} {a b : Reading}
    (reads : Reads inFlow margin a b) (enough : a.cursor.rest.length < fuel) :
    readFrom inFlow margin fuel a = some b := by
  induction reads generalizing fuel with
  | @mark a stops =>
      cases fuel with
      | zero => rfl
      | succ fuel => rw [read_from_succ, if_pos stops]
  | @word a word goes found ends =>
      obtain ⟨fuel, rfl⟩ := Nat.exists_eq_add_one.2 (Nat.zero_lt_of_lt enough)
      rw [read_from_succ, goes, found]
      simp [ends]
  | @gap a word gap next goes found spaced behind out =>
      obtain ⟨fuel, rfl⟩ := Nat.exists_eq_add_one.2 (Nat.zero_lt_of_lt enough)
      have run := (Gap.read_eq_some_iff (Nat.lt_succ_self _)).2 behind
      rw [read_from_succ, goes, found]
      simp only [Bool.false_eq_true, if_false, Option.bind_some, spaced, Bool.not_true,
        Cursor.fuel, run, out, if_true]
  | @further a b word gap next goes found spaced behind inside _ ih =>
      obtain ⟨fuel, rfl⟩ := Nat.exists_eq_add_one.2 (Nat.zero_lt_of_lt enough)
      have run := (Gap.read_eq_some_iff (Nat.lt_succ_self _)).2 behind
      rw [read_from_succ, goes, found]
      simp only [Bool.false_eq_true, if_false, Option.bind_some, spaced, Bool.not_true,
        Cursor.fuel, run, inside]
      exact ih (length_lt_of_gap enough spaced behind)

theorem read_eq_some_iff {inFlow : Bool} {margin : Nat} {b : Reading} :
    read? inFlow margin c = some b ↔ Reads inFlow margin ⟨[], Gap.none, c⟩ b :=
  ⟨reads_of_read_from (Nat.lt_succ_self _), fun reads => reads.read_from_eq (Nat.lt_succ_self _)⟩

theorem with_word_reaches {inFlow : Bool} {a : Reading} {word : List Char}
    (found : word? inFlow a.cursor.rest = some word) :
    a.cursor.Reaches (a.withWord word).cursor := by
  unfold Reading.withWord
  split
  · exact .refl
  · exact word_reaches found

theorem Reads.reaches {inFlow : Bool} {margin : Nat} {a b : Reading}
    (reads : Reads inFlow margin a b) : a.cursor.Reaches b.cursor := by
  induction reads with
  | mark => exact .refl
  | word _ found => exact with_word_reaches found
  | gap _ found _ behind => exact (with_word_reaches found).trans behind.reaches
  | further _ found _ behind _ _ ih =>
      exact ((with_word_reaches found).trans behind.reaches).trans ih

/-! The text of a reading is changed word by word. That its words stay apart is what the gaps are for:
before a word there is a gap with a text, or nothing at all. -/

/-- A reading to which a word can be added. -/
structure Ready (a : Reading) : Prop where
  clear : a.gap.Clear
  apart : a.text = [] ∧ a.gap = Gap.none ∨ a.gap.Wide

/-- Readings of a text and of the changed text that correspond. -/
structure ReadingMatches (r : Respelling) (a a' : Reading) : Prop where
  text : a'.text = r.text a.text
  gap : a'.gap = a.gap
  cursor : Cursor.Matches r a.cursor a'.cursor
  exact : a.gap.broken = true → a'.cursor.column = a.cursor.column

theorem clear_with_word {a : Reading} (ready : Ready a) (word : List Char) :
    (a.withWord word).gap.Clear := by
  unfold Reading.withWord
  split
  · exact ready.clear
  · exact Gap.clear_none

theorem with_word_matches {inFlow : Bool} {a a' : Reading} {word : List Char}
    (same : ReadingMatches r a a') (ready : Ready a)
    (found : word? inFlow a.cursor.rest = some word) :
    word? inFlow a'.cursor.rest = some (r.text word) ∧
      ReadingMatches r (a.withWord word) (a'.withWord (r.text word)) := by
  obtain ⟨found', moved⟩ := word_matches same.cursor found
  refine ⟨found', ?_⟩
  have none : (r.text word).isEmpty = word.isEmpty := by
    rw [Bool.eq_iff_iff, List.isEmpty_iff, List.isEmpty_iff, r.text_eq_nil_iff]
  unfold Reading.withWord
  rw [none]
  split
  · exact same
  · refine ⟨?_, rfl, moved, by simp [Gap.none]⟩
    rw [same.text, same.gap]
    rcases ready.apart with ⟨empty, whole⟩ | wide
    · simp [empty, whole, Gap.text_none]
    · exact (r.text_between wide.text_ne_nil ready.clear.text _ _).symm

theorem with_word_of_ne_nil {a : Reading} {word : List Char} (filled : word ≠ []) :
    a.withWord word =
      ⟨a.text ++ a.gap.text ++ word, Gap.none, a.cursor.advance word.length⟩ :=
  if_neg (by simpa using filled)

/-- A blank behind the word shows that there is a word. -/
theorem word_ne_nil {a : Reading} {word : List Char}
    (begun : a.cursor.rest.head?.any isBlankOrBreak = false)
    (spaced : (a.withWord word).cursor.rest.head?.any isBlankOrBreak = true) : word ≠ [] := by
  rintro rfl
  have same : a.withWord [] = a := rfl
  rw [same, begun] at spaced
  cases spaced

/-- Behind a word the columns on its line lie right of the margin. -/
theorem margin_le_of_gap {margin : Nat} {gap : Gap} {next : Cursor} {a : Reading} {word : List Char}
    (filled : word ≠ []) (left : margin ≤ a.cursor.column + 1)
    (behind : Gap.Reads margin (a.withWord word).gap (a.withWord word).cursor gap next)
    (whole : gap.broken = false) : margin ≤ next.column := by
  have along := (behind.reaches.along_line (behind.line_of_whole whole).2).1
  have := List.length_pos_iff.2 filled
  rw [with_word_of_ne_nil filled] at along
  simp only [Cursor.advance] at along
  omega

theorem ready_of_gap {margin : Nat} {gap : Gap} {next : Cursor} {a : Reading} {word : List Char}
    (ready : Ready a) (filled : word ≠ [])
    (spaced : (a.withWord word).cursor.rest.head?.any isBlankOrBreak = true)
    (behind : Gap.Reads margin (a.withWord word).gap (a.withWord word).cursor gap next) :
    Ready ⟨(a.withWord word).text, gap, next⟩ := by
  refine ⟨behind.clear (clear_with_word ready word), Or.inr (behind.wide (Or.inr ⟨spaced, ?_⟩))⟩
  rw [with_word_of_ne_nil filled]
  rfl

/-- A plain scalar of the changed text is the scalar with its words changed. Inside brackets the
margin decides nothing; outside them the scalar begins right of the margin or one column left of
it. -/
theorem Reads.matches {inFlow : Bool} {margin : Nat} {a b a' : Reading}
    (reads : Reads inFlow margin a b) (same : ReadingMatches r a a') (ready : Ready a)
    (left : inFlow = true ∨ margin ≤ a.cursor.column + 1)
    (begun : a.cursor.rest.head?.any isBlankOrBreak = false) :
    ∃ b', Reads inFlow margin a' b' ∧ ReadingMatches r b b' := by
  have stopsAlike : ∀ {a a' : Reading}, ReadingMatches r a a' →
      (a'.cursor.onDocumentMark || a'.cursor.rest.head? == some '#') =
        (a.cursor.onDocumentMark || a.cursor.rest.head? == some '#') := by
    intro a a' same
    rw [same.cursor.on_document_mark, same.cursor.head_beq (by decide)]
  have blankAlike : ∀ {a a' : Reading}, ReadingMatches r a a' →
      a'.cursor.rest.head?.any isBlankOrBreak = a.cursor.rest.head?.any isBlankOrBreak := by
    intro a a' same
    rw [same.cursor.rest, r.any_head_text is_blank_or_break_of_ident]
  induction reads generalizing a' with
  | mark stops => exact ⟨a', .mark ((stopsAlike same).trans stops), same⟩
  | word goes found ends =>
      obtain ⟨found', moved⟩ := with_word_matches same ready found
      exact ⟨_, .word ((stopsAlike same).trans goes) found' ((blankAlike moved).trans ends), moved⟩
  | @gap a word gap next goes found spaced behind out =>
      have filled := word_ne_nil begun spaced
      obtain ⟨found', moved⟩ := with_word_matches same ready found
      obtain ⟨next', behind', place, columns⟩ := behind.matches moved.cursor moved.exact
      rw [← moved.gap] at behind'
      refine ⟨⟨_, gap, next'⟩, .gap ((stopsAlike same).trans goes) found'
        ((blankAlike moved).trans spaced) behind' ?_, ⟨moved.text, rfl, place, columns⟩⟩
      simp only [Bool.and_eq_true, Bool.not_eq_true', decide_eq_true_eq] at out ⊢
      cases broken : gap.broken with
      | true =>
          rw [columns broken]
          exact out
      | false =>
          have inBlock : margin ≤ a.cursor.column + 1 := left.resolve_left (by simp [out.1])
          have := margin_le_of_gap filled inBlock behind broken
          omega
  | @further a b word gap next goes found spaced behind inside _ ih =>
      have filled := word_ne_nil begun spaced
      obtain ⟨found', moved⟩ := with_word_matches same ready found
      obtain ⟨next', behind', place, columns⟩ := behind.matches moved.cursor moved.exact
      rw [← moved.gap] at behind'
      simp only [Bool.and_eq_false_iff, Bool.not_eq_false', decide_eq_false_iff_not,
        Nat.not_lt] at inside
      have later : inFlow = true ∨ margin ≤ next.column + 1 :=
        inside.imp_right Nat.le_succ_of_le
      have reached : ReadingMatches r ⟨(a.withWord word).text, gap, next⟩
          ⟨(a'.withWord (r.text word)).text, gap, next'⟩ := ⟨moved.text, rfl, place, columns⟩
      obtain ⟨b', rest, result⟩ :=
        ih reached (ready_of_gap ready filled spaced behind) later behind.stopped
      refine ⟨b', .further ((stopsAlike same).trans goes) found' ((blankAlike moved).trans spaced)
        behind' ?_ rest, result⟩
      simp only [Bool.and_eq_false_iff, Bool.not_eq_false', decide_eq_false_iff_not, Nat.not_lt]
      exact inside.imp_right fun right => Nat.le_trans right place.column

theorem read_matches {inFlow : Bool} {margin : Nat} {b : Reading} (same : Cursor.Matches r c c')
    (left : inFlow = true ∨ margin ≤ c.column + 1)
    (begun : c.rest.head?.any isBlankOrBreak = false) (run : read? inFlow margin c = some b) :
    ∃ b', read? inFlow margin c' = some b' ∧ ReadingMatches r b b' := by
  have reads := read_eq_some_iff.1 run
  have start : ReadingMatches r ⟨[], Gap.none, c⟩ ⟨[], Gap.none, c'⟩ :=
    ⟨rfl, rfl, same, by simp [Gap.none]⟩
  obtain ⟨b', reads', result⟩ :=
    reads.matches start ⟨Gap.clear_none, Or.inl ⟨rfl, rfl⟩⟩ left begun
  exact ⟨b', read_eq_some_iff.2 reads', result⟩

theorem read_reaches {inFlow : Bool} {margin : Nat} {b : Reading}
    (run : read? inFlow margin c = some b) : c.Reaches b.cursor :=
  (read_eq_some_iff.1 run).reaches

end Plain

end MessageSchema.Yaml
