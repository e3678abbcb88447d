import MessageSchema.Proofs.RenameRules
import MessageSchema.Proofs.TextPieces
import MessageSchema.Rename.Text

/-!
Renaming in a raw text, seen as a change of its runs of identifier characters. Targets consist of
identifier characters, so an occurrence that counts is the beginning of a run, and what a rule does
to a text is what it does to each run.
-/

namespace MessageSchema.Rename

set_option autoImplicit false

open Text

/-! Marks within a run and behind it. -/

theorem marks_inside (target : List Char) {word : List Char}
    (ident : ∀ c ∈ word, isIdentChar c = true) {skip : Nat} (bound : skip ≤ word.length)
    (text : List Char) :
    marks target skip false (word ++ text) =
      word.map (·, false) ++ marks target 0 false text := by
  induction word generalizing skip with
  | nil =>
      have none : skip = 0 := by simpa using bound
      rw [none]
      rfl
  | cons c rest ih =>
      have first : isIdentChar c = true := ident c (by simp)
      have others : ∀ d ∈ rest, isIdentChar d = true := fun d member =>
        ident d (List.mem_cons_of_mem _ member)
      cases skip with
      | zero => simpa [marks, first] using ih others (Nat.zero_le _)
      | succ skip => simpa [marks] using ih others (Nat.le_of_succ_le_succ bound)

theorem is_prefix_of_append_iff {target word text : List Char}
    (ident : ∀ c ∈ target, isIdentChar c = true)
    (stopped : ∀ c, text.head? = some c → isIdentChar c = false) :
    target.isPrefixOf (word ++ text) = target.isPrefixOf word := by
  rw [Bool.eq_iff_iff, List.isPrefixOf_iff_prefix, List.isPrefixOf_iff_prefix]
  constructor
  · intro begins
    rcases List.prefix_or_prefix_of_prefix begins (List.prefix_append word text) with inside | beyond
    · exact inside
    -- A target that went on past the run would go on with the character that stops it.
    · obtain ⟨more, rfl⟩ := beyond
      have front := (List.prefix_append_right_inj word).1 begins
      cases more with
      | nil => simp
      | cons c rest =>
          obtain ⟨tail, rfl⟩ := front
          have other := stopped c (by simp)
          rw [ident c (by simp)] at other
          contradiction
  · intro begins
    exact begins.trans (List.prefix_append word text)

namespace Rule

def begins (rule : Rule) (word : List Char) : Bool := rule.target.toList.isPrefixOf word

def word (rule : Rule) (word : List Char) : List Char :=
  if rule.begins word then rule.lead.toList ++ word else word

/-- The marks of a run are its first character, if the target begins there. -/
def markedWord (rule : Rule) : List Char → List (Char × Bool)
  | [] => []
  | c :: rest => (c, rule.begins (c :: rest)) :: rest.map (·, false)

def markedPiece (rule : Rule) : Piece → List (Char × Bool)
  | .run word => rule.markedWord word
  | .gap c => [(c, false)]

/-- The rule makes runs of runs, and its target is one. -/
structure Spelled (rule : Rule) : Prop where
  target : IsRun rule.target.toList
  lead : ∀ c ∈ rule.lead.toList, isIdentChar c = true

theorem marks_word {rule : Rule} (spelled : rule.Spelled) {word : List Char} (run : IsRun word)
    {text : List Char} (stopped : ∀ c, text.head? = some c → isIdentChar c = false) :
    marks rule.target.toList 0 true (word ++ text) =
      rule.markedWord word ++ marks rule.target.toList 0 false text := by
  obtain ⟨filled, ident⟩ := run
  cases word with
  | nil => contradiction
  | cons c rest =>
      have first : isIdentChar c = true := ident c (by simp)
      have others : ∀ d ∈ rest, isIdentChar d = true := fun d member =>
        ident d (List.mem_cons_of_mem _ member)
      have inside : rule.target.toList.isPrefixOf (c :: rest ++ text) =
          rule.target.toList.isPrefixOf (c :: rest) :=
        is_prefix_of_append_iff spelled.target.2 stopped
      rw [List.cons_append] at inside
      rw [List.cons_append, marks, inside, markedWord]
      by_cases begins : rule.target.toList.isPrefixOf (c :: rest) = true
      · have short := (List.isPrefixOf_iff_prefix.1 begins).length_le
        have bound : rule.target.toList.length - 1 ≤ rest.length := by
          rw [List.length_cons] at short
          omega
        rw [Bool.true_and, if_pos begins, marks_inside _ others bound, Rule.begins, begins]
        rfl
      · have other : rule.begins (c :: rest) = false := Bool.eq_false_iff.2 begins
        rw [Bool.true_and, if_neg begins, first, Bool.not_true,
          marks_inside _ others (Nat.zero_le _), other]
        rfl

theorem marks_gap {rule : Rule} (spelled : rule.Spelled) {c : Char} (gap : isIdentChar c = false)
    (mayBegin : Bool) (text : List Char) :
    marks rule.target.toList 0 mayBegin (c :: text) =
      (c, false) :: marks rule.target.toList 0 true text := by
  have absent : rule.target.toList.isPrefixOf (c :: text) = false := by
    obtain ⟨filled, ident⟩ := spelled.target
    cases target : rule.target.toList with
    | nil => contradiction
    | cons d rest =>
        have first : isIdentChar d = true := ident d (by simp [target])
        have different : d ≠ c := by
          rintro rfl
          rw [first] at gap
          contradiction
        simp [List.isPrefixOf, different]
  simp [marks, absent, gap]

theorem marks_joined {rule : Rule} (spelled : rule.Spelled) {cut : List Piece} (whole : Whole cut)
    {mayBegin : Bool} (open? : mayBegin = false → ∀ word, cut.head? ≠ some (.run word)) :
    marks rule.target.toList 0 mayBegin (joined cut) = cut.flatMap rule.markedPiece := by
  induction cut generalizing mayBegin with
  | nil => rfl
  | cons piece rest ih =>
      cases piece with
      | gap c =>
          rw [joined_cons, Piece.chars, List.singleton_append, marks_gap spelled whole.1,
            ih whole.2 (by simp)]
          rfl
      | run word =>
          obtain ⟨run, apart, others⟩ := whole
          -- Behind a run nothing may begin, but there is no run behind a run.
          have free : mayBegin = true := by
            cases mayBegin with
            | true => rfl
            | false => exact absurd rfl (open? rfl word)
          have stopped : ∀ c, (joined rest).head? = some c → isIdentChar c = false := by
            intro c first
            cases rest with
            | nil => simp [joined] at first
            | cons next more =>
                cases next with
                | run other => exact absurd rfl (apart other)
                | gap d =>
                    have same : d = c := by simpa [joined_cons, Piece.chars] using first
                    exact same ▸ others.1
          rw [joined_cons, Piece.chars, free, marks_word spelled run stopped,
            ih others fun _ => apart]
          rfl

theorem expand_unmarked_word (lead word : List Char) : expand lead (word.map (·, false)) = word := by
  rw [expand_unmarked _ _ (by simp), List.map_map]
  exact List.map_id word

theorem word_of_begins {rule : Rule} {word : List Char} (begins : rule.begins word = true) :
    rule.word word = rule.lead.toList ++ word := if_pos begins

theorem word_of_other {rule : Rule} {word : List Char} (other : rule.begins word = false) :
    rule.word word = word := by simp [Rule.word, other]

theorem begins_nil {rule : Rule} (spelled : rule.Spelled) : rule.begins [] = false := by
  cases target : rule.target.toList with
  | nil => exact absurd target spelled.target.1
  | cons c rest => simp [begins, target]

theorem expand_marked_piece {rule : Rule} (spelled : rule.Spelled) (piece : Piece) :
    expand rule.lead.toList (rule.markedPiece piece) = (piece.onRun rule.word).chars := by
  cases piece with
  | gap c => rfl
  | run word =>
      cases word with
      | nil =>
          simp only [markedPiece, markedWord, Piece.onRun, Piece.chars,
            word_of_other (begins_nil spelled)]
          rfl
      | cons c rest =>
          have behind := expand_unmarked_word rule.lead.toList rest
          simp only [markedPiece, markedWord, Piece.onRun, Piece.chars]
          cases begins : rule.begins (c :: rest) with
          | true =>
              rw [word_of_begins begins]
              simp_all [expand]
          | false =>
              rw [word_of_other begins]
              simp_all [expand]

/-- A rule changes the runs of a text and nothing else. -/
theorem renamed_joined {rule : Rule} (spelled : rule.Spelled) {cut : List Piece}
    (whole : Whole cut) : rule.renamed (joined cut) = joined (cut.map (Piece.onRun rule.word)) := by
  rw [renamed, marked, marks_joined spelled whole (by simp), joined, List.flatMap_map]
  simp only [expand, List.flatMap_assoc]
  congr 1
  funext piece
  exact expand_marked_piece spelled piece

/-- The occurrences that count are the runs that begin with the target. -/
theorem occurrences_joined {rule : Rule} (spelled : rule.Spelled) {cut : List Piece}
    (whole : Whole cut) : rule.occurrences (joined cut) = (runs cut).countP rule.begins := by
  rw [occurrences, marked, marks_joined spelled whole (by simp), List.countP_flatMap]
  clear whole
  induction cut with
  | nil => rfl
  | cons piece rest ih =>
      rw [List.map_cons, List.sum_cons, ih]
      cases piece with
      | gap c =>
          have behind : runs (.gap c :: rest) = runs rest := rfl
          rw [behind]
          simp [markedPiece]
      | run word =>
          have behind : runs (.run word :: rest) = word :: runs rest := rfl
          rw [behind, List.countP_cons, Nat.add_comm]
          congr 1
          cases word with
          | nil => simp [markedPiece, markedWord, begins_nil spelled]
          | cons c more =>
              have none : (more.map (·, false)).countP (·.2) = 0 := by simp
              simp [markedPiece, markedWord, List.countP_cons]

theorem is_run_word {rule : Rule} (spelled : rule.Spelled) {word : List Char} (run : IsRun word) :
    IsRun (rule.word word) := by
  unfold Rule.word
  split
  · exact is_run_append spelled.lead run
  · exact run

end Rule

namespace Rules

def word (rules : Rules) (word : List Char) : List Char :=
  rules.foldl (fun word rule => rule.word word) word

/-- Each rule with the number of runs that begin with its target when its turn comes. -/
def hits : Rules → List (List Char) → List (Rule × Nat)
  | [], _ => []
  | rule :: rest, words => (rule, words.countP rule.begins) :: hits rest (words.map rule.word)

def missed (hits : List (Rule × Nat)) : List Warning :=
  (hits.filter (·.2 == 0)).map (·.1.unmatched)

def found (hits : List (Rule × Nat)) : List Notice :=
  (hits.filter (·.2 != 0)).map fun hit => .renamedText hit.2 hit.1.target hit.1.replacement

theorem on_run_word_cons (rule : Rule) (rest : Rules) :
    Piece.onRun (word rest) ∘ Piece.onRun rule.word = Piece.onRun (word (rule :: rest)) := by
  funext piece
  cases piece <;> rfl

theorem apply_text_joined {rule : Rule} (spelled : rule.Spelled) {cut : List Piece}
    (whole : Whole cut) :
    rule.applyText (joined cut) =
      ⟨joined (cut.map (Piece.onRun rule.word)), missed [(rule, (runs cut).countP rule.begins)],
        found [(rule, (runs cut).countP rule.begins)]⟩ := by
  have value := rule.renamed_joined spelled whole
  have count := rule.occurrences_joined spelled whole
  simp only [Rule.applyText, count]
  split
  · next none =>
      rw [rule.renamed_of_no_occurrence _ (count.trans none)] at value
      simp [missed, found, none, ← value]
  · next some => simp [missed, found, some, value]

/-- The rules change every run of a text in turn, and each reports the runs that it meets. -/
theorem apply_chars_joined {rules : Rules} (spelled : ∀ rule ∈ rules, rule.Spelled)
    {cut : List Piece} (whole : Whole cut) :
    rules.applyChars (joined cut) =
      ⟨joined (cut.map (Piece.onRun rules.word)), missed (rules.hits (runs cut)),
        found (rules.hits (runs cut))⟩ := by
  induction rules generalizing cut with
  | nil =>
      have same : Piece.onRun (word []) = id := by
        funext piece
        cases piece <;> rfl
      rw [same, List.map_id]
      rfl
  | cons rule rest ih =>
      have first := spelled rule (by simp)
      have others : ∀ later ∈ rest, later.Spelled := fun later member =>
        spelled later (List.mem_cons_of_mem _ member)
      have step := apply_text_joined first whole
      -- The next rule finds a whole cut again, since the runs that this one made are runs.
      have run := ih others (whole_map_on_run (fun _ run => rule.is_run_word first run) whole)
      have unfolded : applyChars (rule :: rest) (joined cut) =
          Noted.andThen (rule.applyText (joined cut)) fun text => applyChars rest text := by
        rw [applyChars, List.foldlM_cons]
        rfl
      rw [unfolded, step, Noted.andThen, run, List.map_map, on_run_word_cons, runs_map_on_run]
      simp only [hits, missed, found, ← List.map_append, ← List.filter_append,
        List.singleton_append]

theorem apply_text_eq {rules : Rules} (spelled : ∀ rule ∈ rules, rule.Spelled) (text : String) :
    rules.applyText text =
      ⟨String.ofList (joined ((pieces text.toList).map (Piece.onRun rules.word))),
        missed (rules.hits (runs (pieces text.toList))),
        found (rules.hits (runs (pieces text.toList)))⟩ := by
  have run := apply_chars_joined spelled (whole_pieces text.toList)
  have unfolded : rules.applyText text =
      Noted.andThen (rules.applyChars text.toList) fun chars => pure (String.ofList chars) := rfl
  rw [joined_pieces] at run
  rw [unfolded, run, Noted.andThen, Noted.value_pure, Noted.warnings_pure, Noted.log_pure,
    List.append_nil, List.append_nil]

theorem is_run_word {rules : Rules} (spelled : ∀ rule ∈ rules, rule.Spelled) {word : List Char}
    (run : IsRun word) : IsRun (rules.word word) := by
  induction rules generalizing word with
  | nil => exact run
  | cons rule rest ih =>
      exact ih (fun later member => spelled later (List.mem_cons_of_mem _ member))
        (rule.is_run_word (spelled rule (by simp)) run)

theorem pieces_apply_text {rules : Rules} (spelled : ∀ rule ∈ rules, rule.Spelled) (text : String) :
    pieces (rules.applyText text).value.toList =
      (pieces text.toList).map (Piece.onRun rules.word) := by
  rw [apply_text_eq spelled, String.toList_ofList]
  exact pieces_joined (whole_map_on_run (fun _ => is_run_word spelled) (whole_pieces text.toList))

theorem mem_missed_iff (rules : Rules) (count : Rule → Nat) (target : String) :
    .unmatchedRename target ∈ missed (rules.map fun rule => (rule, count rule)) ↔
      ∃ rule ∈ rules, count rule = 0 ∧ rule.target = target := by
  simp only [missed, List.filter_map, List.map_map, List.mem_map, List.mem_filter, Function.comp,
    beq_iff_eq, Rule.unmatched, Warning.unmatchedRename.injEq, and_assoc]

end Rules

end MessageSchema.Rename
