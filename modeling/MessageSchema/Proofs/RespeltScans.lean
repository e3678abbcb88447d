import MessageSchema.Proofs.RespeltBlocks
import MessageSchema.Proofs.TokenGrowth

/-!
The scanner on a text and on the text with its words changed. Between the tokens it does the same in
both: the candidates for keys correspond on each level of brackets, and where a key may begin in a
block, no word has been passed on the line, so the columns agree.
-/

namespace MessageSchema.Yaml

set_option autoImplicit false

open Text

variable {r : Respelling}

def respeltString (r : Respelling) (text : String) : String := String.ofList (r.text text.toList)

def Token.respelt (r : Respelling) : Token → Token
  | .anchor name => .anchor (respeltString r name)
  | .aliasOf name => .aliasOf (respeltString r name)
  | .scalar plain text => .scalar plain (respeltString r text)
  | token => token

/-- A token that neither is a tag nor belongs to a directive. -/
def Token.Untagged : Token → Prop
  | .version _ _ => False
  | .handle _ _ => False
  | .tag _ => False
  | _ => True

/-- A key is written within this many characters of its line. -/
def keyLimit : Nat := 1024

namespace Candidate

/-- The key began at a place from which reading got here. -/
def Since (k : Candidate) (c : Cursor) : Prop :=
  ∃ start : Cursor, start.Reaches c ∧ k.line = start.line ∧ k.column = start.column ∧
    k.index = start.index

theorem Since.reach {k : Candidate} {c d : Cursor} (since : k.Since c) (reach : c.Reaches d) :
    k.Since d :=
  let ⟨start, begun, at_⟩ := since
  ⟨start, begun.trans reach, at_⟩

theorem Since.line_le {k : Candidate} {c : Cursor} (since : k.Since c) : k.line ≤ c.line := by
  obtain ⟨start, begun, line, _⟩ := since
  rw [line]
  exact begun.line_le

theorem Since.column_le {k : Candidate} {c : Cursor} (since : k.Since c) (same : k.line = c.line) :
    k.column ≤ c.column := by
  obtain ⟨start, begun, line, column, _⟩ := since
  rw [column]
  exact (begun.along_line (same.symm.trans line)).1

/-- On lines that are short enough only a line break makes a candidate lapse. -/
theorem is_past_iff {k : Candidate} {c : Cursor} (since : k.Since c) (fit : c.LinesFit keyLimit) :
    k.isPast c = true ↔ k.line < c.line := by
  have short : c.column ≤ keyLimit := LinesWithin.column_le fit
  obtain ⟨start, begun, line, column, index⟩ := since
  have le := begun.line_le
  simp only [isPast, Bool.or_eq_true, decide_eq_true_eq]
  constructor
  · rintro (before | far)
    · exact before
    · rcases Nat.lt_or_eq_of_le le with less | same
      · omega
      · have along := begun.along_line same.symm
        simp only [keyLimit] at short
        omega
  · exact Or.inl

/-- Candidates of a text and of the changed text that correspond. -/
structure Alike (c c' : Cursor) (k k' : Candidate) : Prop where
  required : k'.required = k.required
  place : k'.place = k.place
  line : k'.line = k.line
  since : k.Since c
  since' : k'.Since c'

/-- In a block they stand in the same column, which does not lie left of the block. -/
structure AlikeInBlock (indents : List Nat) (c c' : Cursor) (k k' : Candidate) : Prop where
  alike : Alike c c' k k'
  column : k'.column = k.column
  inside : k.line = c.line → ∀ indent ∈ indents.head?, indent ≤ k.column

theorem Alike.reach {c c' d d' : Cursor} {k k' : Candidate} (alike : Alike c c' k k')
    (reach : c.Reaches d) (reach' : c'.Reaches d') : Alike d d' k k' :=
  ⟨alike.required, alike.place, alike.line, alike.since.reach reach, alike.since'.reach reach'⟩

theorem AlikeInBlock.reach {indents : List Nat} {c c' d d' : Cursor} {k k' : Candidate}
    (alike : AlikeInBlock indents c c' k k') (reach : c.Reaches d) (reach' : c'.Reaches d') :
    AlikeInBlock indents d d' k k' := by
  refine ⟨alike.alike.reach reach reach', alike.column, fun same => alike.inside ?_⟩
  have := alike.alike.since.line_le
  have := reach.line_le
  omega

end Candidate

/-- The candidates on the levels of brackets, from the innermost to the block around them. -/
inductive Levels (indents : List Nat) (c c' : Cursor) :
    Option Candidate → List (Option Candidate) → Option Candidate → List (Option Candidate) → Prop
    where
  | block {k k' : Option Candidate} (alike : Option.Rel (Candidate.AlikeInBlock indents c c') k k') :
      Levels indents c c' k [] k' []
  | flow {k k' m m' : Option Candidate} {outer outer' : List (Option Candidate)}
      (alike : Option.Rel (Candidate.Alike c c') k k')
      (around : Levels indents c c' m outer m' outer') :
      Levels indents c c' k (m :: outer) k' (m' :: outer')

namespace Levels

variable {indents : List Nat} {c c' d d' : Cursor} {k k' : Option Candidate}
  {outer outer' : List (Option Candidate)}

theorem reach (levels : Levels indents c c' k outer k' outer') (on : c.Reaches d)
    (on' : c'.Reaches d') : Levels indents d d' k outer k' outer' := by
  induction levels with
  | block alike =>
      cases alike with
      | none => exact .block .none
      | some alike => exact .block (.some (alike.reach on on'))
  | flow alike _ ih =>
      cases alike with
      | none => exact .flow .none ih
      | some alike => exact .flow (.some (alike.reach on on')) ih

theorem outer_eq_nil_iff (levels : Levels indents c c' k outer k' outer') :
    outer' = [] ↔ outer = [] := by
  cases levels <;> simp

/-- Without a candidate on the innermost level. -/
theorem drop (levels : Levels indents c c' k outer k' outer') :
    Levels indents c c' none outer none outer' := by
  cases levels with
  | block => exact .block .none
  | flow _ around => exact .flow .none around

theorem alike (levels : Levels indents c c' k outer k' outer') :
    Option.Rel (Candidate.Alike c c') k k' := by
  cases levels with
  | block alike =>
      cases alike with
      | none => exact .none
      | some alike => exact .some alike.alike
  | flow alike _ => exact alike

theorem in_block (levels : Levels indents c c' k outer k' outer') (block : outer = []) :
    Option.Rel (Candidate.AlikeInBlock indents c c') k k' := by
  cases levels with
  | block alike => exact alike
  | flow => cases block

theorem required (levels : Levels indents c c' k outer k' outer') :
    k'.any (·.required) = k.any (·.required) := by
  cases levels.alike with
  | none => rfl
  | some alike => exact alike.required

end Levels

namespace Scan

/-- A column that does not lie left of the innermost block. -/
def Inside (indents : List Nat) (column : Nat) : Prop := ∀ indent ∈ indents.head?, indent ≤ column

theorem deeper_than_of_inside {indents : List Nat} {column : Nat} (inside : Inside indents column) :
    deeperThan column indents = [] := by
  cases indents with
  | nil => rfl
  | cons indent rest =>
      have le : indent ≤ column := inside indent rfl
      rw [deeperThan, List.takeWhile_cons_of_neg (by simpa using le)]

theorem inside_of_deeper_than {indents : List Nat} {column : Nat}
    (none : deeperThan column indents = []) : Inside indents column := by
  cases indents with
  | nil => intro indent first; cases first
  | cons indent rest =>
      intro first member
      cases member
      rw [deeperThan, List.takeWhile_cons] at none
      split at none
      · cases none
      · next out => simpa using out

theorem drop_deeper_than (indents : List Nat) (column : Nat) :
    Inside (indents.drop (deeperThan column indents).length) column := by
  induction indents with
  | nil => intro indent first; cases first
  | cons indent rest ih =>
      rw [deeperThan, List.takeWhile_cons]
      split
      · exact ih
      · next out =>
          intro first member
          cases member
          simpa using out

theorem close_blocks_of_block {s : Scan} (block : s.outer = []) (column : Nat) :
    s.closeBlocks column = { s with
      indents := s.indents.drop (deeperThan column s.indents).length
      tokens := s.tokens ++ ((deeperThan column s.indents).map fun _ => Token.blockEnd).toArray } := by
  simp [closeBlocks, inFlow, block]

theorem close_blocks_of_flow {s : Scan} (flow : s.outer ≠ []) (column : Nat) :
    s.closeBlocks column = s := by
  simp [closeBlocks, inFlow, flow]

theorem finish_eq (s : Scan) :
    s.finish? = if s.candidate.any (·.required) then none else some s.closeAllBlocks.tokens := by
  have candidate : s.closeAllBlocks.candidate = s.candidate := by
    unfold closeAllBlocks
    split <;> rfl
  rw [finish?, dropCandidate?, lapse?, candidate]
  split <;> rfl

/-- At the end of a text all blocks end, whatever the column. -/
theorem finish_close_blocks (s : Scan) (column : Nat) : (s.closeBlocks column).finish? = s.finish? := by
  by_cases block : s.outer = []
  · have open_ : s.inFlow = false := by simp [inFlow, block]
    have all : s.indents.take (deeperThan column s.indents).length = deeperThan column s.indents := by
      rw [deeperThan, ← List.prefix_iff_eq_take.1 (List.takeWhile_prefix _)]
    have closing : (s.closeBlocks column).closeAllBlocks.tokens = s.closeAllBlocks.tokens := by
      have parts := List.take_append_drop (deeperThan column s.indents).length s.indents
      rw [all] at parts
      rw [close_blocks_of_block block]
      simp only [closeAllBlocks, inFlow, block, List.isEmpty_nil, Bool.not_true,
        Bool.false_eq_true, if_false, Array.append_assoc, List.append_toArray, ← List.map_append, parts]
    rw [finish_eq, finish_eq, closing, close_blocks_of_block block]
  · rw [close_blocks_of_flow block]

/-- Whether a candidate is there does not matter to the blocks. -/
theorem open_block_with_candidate (s : Scan) (candidate : Option Candidate) (column place : Nat)
    (token : Token) :
    { s.openBlock column place token with candidate := candidate } =
      { s with candidate := candidate }.openBlock column place token := by
  by_cases flat : (s.inFlow || !s.isDeeper column) = true
  · have flat' : ({ s with candidate := candidate }.inFlow ||
        !{ s with candidate := candidate }.isDeeper column) = true := flat
    rw [openBlock, openBlock, if_pos flat, if_pos flat']
  · have flat' : ¬({ s with candidate := candidate }.inFlow ||
        !{ s with candidate := candidate }.isDeeper column) = true := flat
    rw [openBlock, openBlock, if_neg flat, if_neg flat']

theorem drop_candidate_open_block (s : Scan) (column place : Nat) (token : Token) :
    (s.openBlock column place token).dropCandidate? =
      s.dropCandidate?.map (·.openBlock column place token) := by
  have kept : (s.openBlock column place token).candidate = s.candidate := by
    unfold openBlock
    split <;> rfl
  rw [dropCandidate?, dropCandidate?, kept]
  cases lapse? s.candidate with
  | none => rfl
  | some candidate => exact congrArg some (s.open_block_with_candidate candidate column place token)

/-- The scanner outside the innermost brackets. -/
def around (s : Scan) : Scan :=
  match s.outer with
  | candidate :: outer => { s with candidate := candidate, outer := outer }
  | [] => s

/-- The scanner on a text and on the changed text. -/
structure Matches (r : Respelling) (s s' : Scan) : Prop where
  cursor : Cursor.Matches r s.cursor s'.cursor
  tokens : s'.tokens.toList = s.tokens.toList.map (Token.respelt r)
  indents : s'.indents = s.indents
  keyAllowed : s'.keyAllowed = s.keyAllowed
  levels : Levels s.indents s.cursor s'.cursor s.candidate s.outer s'.candidate s'.outer
  exact : s.outer = [] → s.keyAllowed = true →
    s'.cursor.column = s.cursor.column ∨ s.cursor.rest = []
  fit : s.cursor.LinesFit keyLimit
  fit' : s'.cursor.LinesFit keyLimit

namespace Matches

variable {s s' t : Scan}

theorem in_flow (same : Matches r s s') : s'.inFlow = s.inFlow := by
  rw [Scan.inFlow, Scan.inFlow, Bool.eq_iff_iff]
  simpa using not_congr same.levels.outer_eq_nil_iff

theorem size (same : Matches r s s') : s'.tokens.size = s.tokens.size := by
  have lengths := congrArg List.length same.tokens
  simpa using lengths

theorem move (same : Matches r s s') (allowed : Bool) {d d' : Cursor}
    (place : Cursor.Matches r d d') (reach : s.cursor.Reaches d) (reach' : s'.cursor.Reaches d')
    (exact : s.outer = [] → allowed = true → d'.column = d.column ∨ d.rest = []) :
    Matches r { s with cursor := d, keyAllowed := allowed }
      { s' with cursor := d', keyAllowed := allowed } :=
  ⟨place, same.tokens, same.indents, rfl, same.levels.reach reach reach', exact,
    reach.lines_fit same.fit, reach'.lines_fit same.fit'⟩

theorem push (same : Matches r s s') (token : Token) (allowed : Bool) {d d' : Cursor}
    (place : Cursor.Matches r d d') (reach : s.cursor.Reaches d) (reach' : s'.cursor.Reaches d')
    (exact : s.outer = [] → allowed = true → d'.column = d.column ∨ d.rest = []) :
    Matches r { s with cursor := d, tokens := s.tokens.push token, keyAllowed := allowed }
      { s' with cursor := d', tokens := s'.tokens.push (token.respelt r), keyAllowed := allowed } :=
  ⟨place, by simp [same.tokens], same.indents, rfl, same.levels.reach reach reach', exact,
    reach.lines_fit same.fit, reach'.lines_fit same.fit'⟩

/-! ### Up to the next token -/

/-- Past a byte order mark that begins a line. -/
theorem mark_matches {c c' : Cursor} (same : Cursor.Matches r c c') :
    Cursor.Matches r
      (if c.column == 0 && c.rest.head? == some '\ufeff' then c.advance 1 else c)
      (if c'.column == 0 && c'.rest.head? == some '\ufeff' then c'.advance 1 else c') ∧
    c.Reaches (if c.column == 0 && c.rest.head? == some '\ufeff' then c.advance 1 else c) ∧
    c'.Reaches (if c'.column == 0 && c'.rest.head? == some '\ufeff' then c'.advance 1 else c') ∧
    (c'.column = c.column →
      (if c'.column == 0 && c'.rest.head? == some '\ufeff' then c'.advance 1 else c').column =
        (if c.column == 0 && c.rest.head? == some '\ufeff' then c.advance 1 else c).column) := by
  have start : (c'.column == 0) = (c.column == 0) := by
    rw [Bool.eq_iff_iff, beq_iff_eq, beq_iff_eq]
    exact same.column_eq_zero_iff
  rw [start, same.head_beq (by decide)]
  split
  · next mark =>
      obtain ⟨rest, parts⟩ :=
        List.head?_eq_some_iff.1 (beq_iff_eq.1 (Bool.and_eq_true_iff.1 mark).2)
      obtain ⟨place, reach, reach'⟩ := same.advance_one_in_line parts (by decide) (by decide)
      exact ⟨place, reach, reach', fun columns => congrArg (· + 1) columns⟩
  · exact ⟨same, .refl, .refl, id⟩

theorem past_blank_matches (same : Matches r s s') :
    Cursor.Matches r s.pastBlank s'.pastBlank ∧ s.cursor.Reaches s.pastBlank ∧
      s'.cursor.Reaches s'.pastBlank ∧
      (s.pastBlank.onBreak = false → s'.cursor.column = s.cursor.column →
        s'.pastBlank.column = s.pastBlank.column ∨ s.pastBlank.rest = []) := by
  obtain ⟨marked, reach, reach', columns⟩ := mark_matches same.cursor
  unfold pastBlank
  rw [same.in_flow, same.keyAllowed]
  dsimp only
  generalize (if s.cursor.column == 0 && s.cursor.rest.head? == some '\ufeff' then
    s.cursor.advance 1 else s.cursor) = c at *
  generalize (if s'.cursor.column == 0 && s'.cursor.rest.head? == some '\ufeff' then
    s'.cursor.advance 1 else s'.cursor) = c' at *
  have blank : ∀ x, (x == ' ' || ((s.inFlow || !s.keyAllowed) && x == '\t')) = true →
      isBlank x = true := by
    intro x passed
    simp only [Bool.or_eq_true, Bool.and_eq_true, beq_iff_eq] at passed
    rcases passed with rfl | ⟨_, rfl⟩ <;> rfl
  have other : ∀ x, isIdentChar x = true →
      (x == ' ' || ((s.inFlow || !s.keyAllowed) && x == '\t')) = false := by
    intro x ident
    cases passed : (x == ' ' || ((s.inFlow || !s.keyAllowed) && x == '\t')) with
    | false => rfl
    | true =>
        have := is_blank_of_ident x ident
        rw [blank x passed] at this
        cases this
  have spaced := marked.drop_while_of_other other
  have on := reach.trans (.of_drop_while c fun x passed => is_break_of_is_blank (blank x passed))
  have on' := reach'.trans (.of_drop_while c' fun x passed => is_break_of_is_blank (blank x passed))
  rw [spaced.head_beq (by decide)]
  split
  · have line : ∀ x, isIdentChar x = true → (!isBreak x) = true := fun x ident => by
      simp [is_break_of_ident x ident]
    have free : ∀ x, (!isBreak x) = true → isBreak x = false := fun x passed => by
      simpa using passed
    refine ⟨spaced.drop_while line, on.trans (.of_drop_while _ free), on'.trans (.of_drop_while _ free),
      fun inLine _ => ?_⟩
    -- A comment that no line break ends is ended by the text.
    rcases Cursor.to_break_on_break_or_nil (c.dropWhile _) with ends | ended
    · rw [inLine] at ends
      cases ends
    · exact Or.inr ended
  · refine ⟨spaced, on, on', fun _ same => Or.inl ?_⟩
    exact marked.column_drop_while_of_other other (columns same)

/-- Blanks, comments and line breaks are skipped alike in both texts. -/
theorem skip {fuel fuel' : Nat} (same : Matches r s s') (enough : s.cursor.rest.length < fuel)
    (enough' : s'.cursor.rest.length < fuel') : Matches r (skipBlank fuel s) (skipBlank fuel' s') := by
  induction fuel generalizing fuel' s s' with
  | zero => simp at enough
  | succ fuel ih =>
      obtain ⟨fuel', rfl⟩ := Nat.exists_eq_add_one.2 (Nat.zero_lt_of_lt enough')
      obtain ⟨place, reach, reach', columns⟩ := same.past_blank_matches
      rw [skip_blank_succ, skip_blank_succ, place.on_break]
      split
      · next ends =>
          obtain ⟨next, start, start', _⟩ := place.next_line ends
          have ends' := place.on_break.trans ends
          have down : Matches r s.onNextLine s'.onNextLine := by
            rw [onNextLine, onNextLine, same.keyAllowed, same.in_flow]
            exact same.move _ next (reach.trans (.down .refl ends)) (reach'.trans (.down .refl ends'))
              fun _ _ => Or.inl (start'.trans start.symm)
          have shorter := Cursor.length_next_line ends
          have shorter' := Cursor.length_next_line ends'
          have less := reach.suffix.length_le
          have less' := reach'.suffix.length_le
          exact ih down (by simp only [onNextLine]; omega) (by simp only [onNextLine]; omega)
      · next inLine =>
          simp only [Bool.not_eq_true] at inLine
          have here : Matches r { s with cursor := s.pastBlank, keyAllowed := s.keyAllowed }
              { s' with cursor := s'.pastBlank, keyAllowed := s.keyAllowed } := by
            refine same.move _ place reach reach' fun block allowed => ?_
            rcases same.exact block allowed with exact | ended
            · exact columns inLine exact
            · have suffix := reach.suffix
              rw [ended, List.suffix_nil] at suffix
              exact Or.inr suffix
          have kept : { s' with cursor := s'.pastBlank } =
              { s' with cursor := s'.pastBlank, keyAllowed := s.keyAllowed } := by
            rw [← same.keyAllowed]
          rw [kept]
          exact here

theorem settle_matches {P : Candidate → Candidate → Prop} {c c' : Cursor} {k k' m : Option Candidate}
    (alike : Option.Rel P k k')
    (past : ∀ {x y}, P x y → y.isPast c' = x.isPast c ∧ y.required = x.required)
    (settled : settle? c k = some m) :
    ∃ m', settle? c' k' = some m' ∧ Option.Rel P m m' ∧ m.any (·.isPast c) = false := by
  have asked : k'.any (·.isPast c') = k.any (·.isPast c) ∧ k'.any (·.required) = k.any (·.required) := by
    cases alike with
    | none => exact ⟨rfl, rfl⟩
    | some related => exact past related
  unfold settle? at settled ⊢
  rw [asked.1]
  split at settled
  · next lapses =>
      obtain ⟨rfl, optional⟩ := lapse_eq_some settled
      exact ⟨none, by rw [if_pos lapses, lapse?, asked.2, optional]; rfl, .none, rfl⟩
  · next current =>
      cases settled
      exact ⟨k', by rw [if_neg current], alike, by simpa using current⟩

theorem is_past_of_alike {c c' : Cursor} {k k' : Candidate} (alike : Candidate.Alike c c' k k')
    (line : c'.line = c.line) (fit : c.LinesFit keyLimit) (fit' : c'.LinesFit keyLimit) :
    k'.isPast c' = k.isPast c := by
  rw [Bool.eq_iff_iff, Candidate.is_past_iff alike.since' fit', Candidate.is_past_iff alike.since fit,
    alike.line, line]

theorem settle_levels {indents : List Nat} {c c' : Cursor} {k k' m : Option Candidate}
    {outer outer' rest : List (Option Candidate)}
    (levels : Levels indents c c' k outer k' outer') (line : c'.line = c.line)
    (fit : c.LinesFit keyLimit) (fit' : c'.LinesFit keyLimit) (first : settle? c k = some m)
    (others : outer.mapM (settle? c) = some rest) :
    ∃ m' rest', settle? c' k' = some m' ∧ outer'.mapM (settle? c') = some rest' ∧
      Levels indents c c' m rest m' rest' ∧ m.any (·.isPast c) = false := by
  have past : ∀ {x y}, Candidate.Alike c c' x y →
      y.isPast c' = x.isPast c ∧ y.required = x.required :=
    fun alike => ⟨is_past_of_alike alike line fit fit', alike.required⟩
  induction levels generalizing m rest with
  | block alike =>
      rw [List.mapM_nil] at others
      cases others
      obtain ⟨m', settled, kept, current⟩ :=
        settle_matches alike (fun related => past related.alike) first
      exact ⟨m', [], settled, rfl, .block kept, current⟩
  | flow alike _ ih =>
      rw [List.mapM_cons] at others
      obtain ⟨n, head, others⟩ := Option.bind_eq_some_iff.1 others
      obtain ⟨more, tail, others⟩ := Option.bind_eq_some_iff.1 others
      cases others
      obtain ⟨m', settled, kept, current⟩ := settle_matches alike past first
      obtain ⟨n', more', head', tail', levels, _⟩ := ih head tail
      refine ⟨m', n' :: more', settled, ?_, .flow kept levels, current⟩
      rw [List.mapM_cons, head', tail']
      rfl

/-- The same candidates lapse in both texts, and one that is left began on this line. -/
theorem drop_past (same : Matches r s s') (dropped : s.dropPast? = some t) :
    ∃ t', s'.dropPast? = some t' ∧ Matches r t t' ∧
      ∀ k ∈ t.candidate, k.line = t.cursor.line := by
  rw [drop_past_eq] at dropped ⊢
  obtain ⟨candidate, first, dropped⟩ := Option.bind_eq_some_iff.1 dropped
  obtain ⟨outer, others, dropped⟩ := Option.bind_eq_some_iff.1 dropped
  cases dropped
  obtain ⟨candidate', outer', first', others', levels, current⟩ :=
    settle_levels same.levels same.cursor.line same.fit same.fit' first others
  have depth : outer = [] → s.outer = [] := by
    have length := (of_map_m_eq_some others).1
    rintro rfl
    exact List.eq_nil_of_length_eq_zero length.symm
  refine ⟨{ s' with candidate := candidate', outer := outer' }, by rw [first', others']; rfl,
    ⟨same.cursor, same.tokens, same.indents, same.keyAllowed, same.indents ▸ levels,
      fun block => same.exact (depth block), same.fit, same.fit'⟩, ?_⟩
  intro k begun
  simp only at begun ⊢
  have alike := levels.alike
  rw [Option.mem_def.1 begun] at alike current
  cases alike with
  | some alike =>
      have le := alike.since.line_le
      have still : k.isPast s.cursor = false := current
      have notBefore : ¬k.line < s.cursor.line := fun before => by
        rw [(Candidate.is_past_iff alike.since same.fit).2 before] at still
        cases still
      omega

/-! ### The ends of blocks -/

/-- A candidate on the line of the cursor keeps the blocks around it open. -/
theorem deeper_than_of_candidate (same : Matches r s s') (block : s.outer = []) {k : Candidate}
    (begun : s.candidate = some k) (line : k.line = s.cursor.line) :
    deeperThan s.cursor.column s.indents = [] := by
  have alike := same.levels.in_block block
  rw [begun] at alike
  cases related : s'.candidate with
  | none =>
      rw [related] at alike
      cases alike
  | some k' =>
      rw [related] at alike
      cases alike with
      | some alike =>
          have left := alike.alike.since.column_le line
          exact deeper_than_of_inside fun indent first =>
            Nat.le_trans (alike.inside line indent first) left

/-- Where the same blocks end in both texts, the scanner goes on alike. -/
theorem close_blocks (same : Matches r s s') (current : ∀ k ∈ s.candidate, k.line = s.cursor.line)
    (ends : s.outer = [] →
      deeperThan s'.cursor.column s.indents = deeperThan s.cursor.column s.indents) :
    Matches r (s.closeBlocks s.cursor.column) (s'.closeBlocks s'.cursor.column) := by
  by_cases block : s.outer = []
  · have block' := same.levels.outer_eq_nil_iff.2 block
    rw [close_blocks_of_block block, close_blocks_of_block block', same.indents, ends block]
    refine ⟨same.cursor, ?_, rfl, same.keyAllowed, ?_, same.exact, same.fit, same.fit'⟩
    · simp [same.tokens, Token.respelt]
    · rw [block, block']
      refine .block ?_
      have alike := same.levels.in_block block
      cases candidate : s.candidate with
      | none =>
          rw [candidate] at alike
          cases related : s'.candidate with
          | none => exact .none
          | some k' =>
              rw [related] at alike
              cases alike
      | some k =>
          have none := same.deeper_than_of_candidate block candidate (current k candidate)
          rw [candidate] at alike
          simpa [none] using alike
  · have flow' : s'.outer ≠ [] := fun none => block (same.levels.outer_eq_nil_iff.1 none)
    rw [close_blocks_of_flow block, close_blocks_of_flow flow']
    exact same

theorem close_all_blocks (same : Matches r s s') :
    Matches r s.closeAllBlocks s'.closeAllBlocks := by
  unfold Scan.closeAllBlocks
  rw [same.in_flow]
  split
  · exact same
  · next open_ =>
      have block : s.outer = [] := by simpa [Scan.inFlow] using open_
      refine ⟨same.cursor, ?_, rfl, same.keyAllowed, ?_, same.exact, same.fit, same.fit'⟩
      · simp [same.tokens, same.indents, Token.respelt]
      · rw [block, same.levels.outer_eq_nil_iff.2 block]
        refine .block ?_
        have alike := same.levels.in_block block
        generalize s.candidate = k at alike ⊢
        generalize s'.candidate = k' at alike ⊢
        cases alike with
        | none => exact .none
        | some alike =>
            refine .some ⟨alike.alike, alike.column, fun _ indent first => ?_⟩
            exact absurd first (Option.not_mem_none indent)

theorem finish (same : Matches r s s') {final : Array Token} (step : s.finish? = some final) :
    ∃ final', s'.finish? = some final' ∧ final'.toList = final.toList.map (Token.respelt r) := by
  rw [finish_eq] at step ⊢
  rw [same.levels.required]
  split at step
  · cases step
  · next optional =>
      cases step
      exact ⟨_, by rw [if_neg optional], same.close_all_blocks.tokens⟩

/-! ### Tokens -/

theorem with_candidate (same : Matches r s s') {k k' : Option Candidate}
    (levels : Levels s.indents s.cursor s'.cursor k s.outer k' s'.outer) :
    Matches r { s with candidate := k } { s' with candidate := k' } :=
  ⟨same.cursor, same.tokens, same.indents, same.keyAllowed, levels, same.exact, same.fit, same.fit'⟩

theorem enter (same : Matches r s s') (allowed : Bool) :
    Matches r
      { s with candidate := none, outer := s.candidate :: s.outer, keyAllowed := allowed }
      { s' with candidate := none, outer := s'.candidate :: s'.outer, keyAllowed := allowed } :=
  ⟨same.cursor, same.tokens, same.indents, rfl, .flow .none same.levels, by simp, same.fit, same.fit'⟩

theorem leave (same : Matches r s s') :
    Matches r { s.around with keyAllowed := false } { s'.around with keyAllowed := false } := by
  have levels := same.levels
  unfold Scan.around
  cases outer : s.outer with
  | nil =>
      rw [same.levels.outer_eq_nil_iff.2 outer]
      exact same.move false same.cursor .refl .refl (by simp)
  | cons k rest =>
      cases outer' : s'.outer with
      | nil =>
          rw [same.levels.outer_eq_nil_iff.1 outer'] at outer
          cases outer
      | cons k' rest' =>
          rw [outer, outer'] at levels
          cases levels with
          | flow _ around =>
              exact ⟨same.cursor, same.tokens, same.indents, rfl, around, by simp, same.fit, same.fit'⟩

/-- With a token put in where a key began, which is the same place in both texts. -/
theorem insert (same : Matches r s s') (place : Nat) {token : Token} (kept : token.respelt r = token) :
    Matches r { s with tokens := s.tokens.insertIdxIfInBounds place token }
      { s' with tokens := s'.tokens.insertIdxIfInBounds place token } := by
  refine ⟨same.cursor, ?_, same.indents, same.keyAllowed, same.levels, same.exact, same.fit, same.fit'⟩
  simp only [to_list_insert_idx_if_in_bounds, same.size, same.tokens]
  split
  · simp [kept]
  · rfl

/-- A block opens in both texts or in neither. -/
theorem open_block (same : Matches r s s') (keyless : s.candidate = none) (keyless' : s'.candidate = none)
    {column column' : Nat} (exact : s.outer = [] → column' = column) (place : Nat) {token : Token}
    (kept : token.respelt r = token) :
    Matches r (s.openBlock column place token) (s'.openBlock column' place token) := by
  by_cases block : s.outer = []
  · have deeper : s'.isDeeper column = s.isDeeper column := by
      rw [Scan.isDeeper, Scan.isDeeper, same.indents]
    rw [exact block, Scan.openBlock, Scan.openBlock, same.in_flow, deeper]
    split
    · exact same
    · have opened := same.insert place kept
      refine ⟨same.cursor, opened.tokens, by rw [same.indents], same.keyAllowed, ?_, same.exact,
        same.fit, same.fit'⟩
      rw [block, same.levels.outer_eq_nil_iff.2 block, keyless, keyless']
      exact .block .none
  · have flow : s.inFlow = true := by
      have levels : s.outer.isEmpty = false := by simpa using block
      simp [Scan.inFlow, levels]
    rw [Scan.openBlock, Scan.openBlock, same.in_flow, flow]
    exact same

theorem drop (same : Matches r s s') (dropped : s.dropCandidate? = some t) :
    t = { s with candidate := none } ∧ s'.dropCandidate? = some { s' with candidate := none } ∧
      Matches r { s with candidate := none } { s' with candidate := none } := by
  obtain ⟨rfl, optional⟩ := drop_candidate_eq_some dropped
  refine ⟨rfl, ?_, same.with_candidate same.levels.drop⟩
  rw [dropCandidate?, lapse?, same.levels.required, optional]
  rfl

end Matches

end Scan

end MessageSchema.Yaml
