import MessageSchema.Proofs.RespeltPlain
import MessageSchema.Proofs.RespeltQuoted
import MessageSchema.Proofs.RespeltScans

/-!
The tokens of a text whose words are changed. The scanner goes over both texts in step, and each token
is that of the text with its words changed. Where a key may begin in a block, everything that columns
decide is decided alike. Behind a word the columns do not agree any more; what is read there neither
opens a block nor is a key that has to come, and if a block of the one text ends there and one of the
other does not, no document holds these tokens.
-/

namespace MessageSchema.Yaml

set_option autoImplicit false

open Text

variable {r : Respelling}

namespace Scan

/-- The scanner on both texts where a token begins. -/
structure Ready (r : Respelling) (s s' : Scan) : Prop where
  same : Matches r s s'
  inside : s.outer = [] → Inside s.indents s.cursor.column
  started : s.cursor.rest ≠ []

namespace Ready

variable {s s' t : Scan}

/-- In a block a key may only begin where the columns agree. -/
theorem columns (ready : Ready r s s') (block : s.outer = []) (allowed : s.keyAllowed = true) :
    s'.cursor.column = s.cursor.column :=
  (ready.same.exact block allowed).resolve_right ready.started

theorem here_levels (ready : Ready r s s') (allowed : s.keyAllowed = true) :
    Levels s.indents s.cursor s'.cursor (some s.here) s.outer (some s'.here) s'.outer := by
  have since : s.here.Since s.cursor := ⟨s.cursor, .refl, rfl, rfl, rfl⟩
  have since' : s'.here.Since s'.cursor := ⟨s'.cursor, .refl, rfl, rfl, rfl⟩
  have required : s'.here.required = s.here.required := by
    simp only [here, ready.same.in_flow, ready.same.indents]
    by_cases block : s.outer = []
    · rw [ready.columns block allowed]
    · have levels : s.outer.isEmpty = false := by simpa using block
      simp [inFlow, levels]
  have alike : Candidate.Alike s.cursor s'.cursor s.here s'.here :=
    ⟨required, ready.same.size, ready.same.cursor.line, since, since'⟩
  have levels := ready.same.levels
  generalize outer : s.outer = o at levels
  generalize s'.outer = o' at levels
  cases levels with
  | block =>
      exact .block (.some ⟨alike, ready.columns outer allowed, fun _ => ready.inside outer⟩)
  | flow _ around => exact .flow (.some alike) around

theorem note (ready : Ready r s s') (noted : s.noteCandidate? = some t) :
    ∃ k k', t = { s with candidate := k } ∧
      s'.noteCandidate? = some { s' with candidate := k' } ∧
      Matches r { s with candidate := k } { s' with candidate := k' } := by
  rcases note_candidate_eq_some noted with ⟨closed, kept⟩ | ⟨allowed, optional, rfl⟩
  · refine ⟨s.candidate, s'.candidate, kept, ?_, ready.same⟩
    exact note_candidate_of_closed (ready.same.keyAllowed.trans closed)
  · refine ⟨_, some s'.here, rfl, ?_, ready.same.with_candidate (ready.here_levels allowed)⟩
    exact note_candidate_of_allowed (ready.same.keyAllowed.trans allowed)
      (ready.same.levels.required.trans optional)

theorem one (ready : Ready r s s') (mark : ∃ x rest, s.cursor.rest = x :: rest ∧
    isIdentChar x = false ∧ isBreak x = false) :
    Cursor.Matches r (s.cursor.advance 1) (s'.cursor.advance 1) ∧
      s.cursor.Reaches (s.cursor.advance 1) ∧ s'.cursor.Reaches (s'.cursor.advance 1) := by
  obtain ⟨x, rest, parts, other, inLine⟩ := mark
  exact ready.same.cursor.advance_one_in_line parts other inLine

theorem document_mark (ready : Ready r s s') (mark : s.cursor.onDocumentMark = true)
    (step : s.documentMark? = some t) : ∃ t', s'.documentMark? = some t' ∧ Matches r t t' := by
  obtain ⟨u, dropped, step⟩ := Option.bind_eq_some_iff.1 step
  cases step
  obtain ⟨rfl, dropped', same⟩ := ready.same.close_all_blocks.drop dropped
  have cursors : ∀ s : Scan, s.closeAllBlocks.cursor = s.cursor := fun s => by
    unfold closeAllBlocks
    split <;> rfl
  have before := same.cursor
  simp only [cursors] at before
  obtain ⟨_, x, tail, spelled, parts, _⟩ := Cursor.on_document_mark_iff.1 mark
  have marks : ∀ y ∈ [x, x, x], isIdentChar y = false ∧ isBreak y = false := by
    intro y member
    obtain rfl : y = x := by simpa using member
    rcases spelled with rfl | rfl <;> decide
  obtain ⟨place, reach, reach'⟩ := before.advance_in_line
    (show s.cursor.rest = [x, x, x] ++ tail from parts) (Or.inl (by simpa using (marks x (by simp)).1))
    fun y member => (marks y member).2
  rw [r.text_of_other fun y member => (marks y member).1] at place reach'
  change Cursor.Matches r (s.cursor.advance 3) (s'.cursor.advance 3) at place
  change s.cursor.Reaches (s.cursor.advance 3) at reach
  change s'.cursor.Reaches (s'.cursor.advance 3) at reach'
  have first : (s'.cursor.rest.head? == some '-') = (s.cursor.rest.head? == some '-') :=
    before.head_beq (by decide)
  refine ⟨_, by rw [documentMark?, dropped']; rfl, ?_⟩
  have token : (if s'.cursor.rest.head? == some '-' then Token.documentStart else .documentEnd) =
      Token.respelt r (if s.cursor.rest.head? == some '-' then .documentStart else .documentEnd) := by
    rw [first]
    split <;> rfl
  have pushed := same.push (if s.cursor.rest.head? == some '-' then .documentStart else .documentEnd)
    false place (by simpa only [cursors] using reach) (by simpa only [cursors] using reach') (by simp)
  rw [← token] at pushed
  simpa only [emitMark, cursors] using pushed

theorem mark (ready : Ready r s s') {u u' : Scan} (same : Matches r u u')
    (fits : ∃ x rest, s.cursor.rest = x :: rest ∧ isIdentChar x = false ∧ isBreak x = false)
    (cursor : u.cursor = s.cursor) (cursor' : u'.cursor = s'.cursor) {token : Token} {allowed : Bool}
    (kept : token.respelt r = token)
    (exact : u.outer = [] → allowed = true → s'.cursor.column = s.cursor.column) :
    Matches r ({ u with keyAllowed := allowed }.emitMark token 1)
      ({ u' with keyAllowed := allowed }.emitMark token 1) := by
  obtain ⟨place, reach, reach'⟩ := ready.one fits
  rw [← cursor, ← cursor'] at place
  have pushed := same.push token allowed place (cursor ▸ reach) (cursor' ▸ reach')
    fun block yes => Or.inl (by simp [Cursor.advance, cursor, cursor', exact block yes])
  rwa [kept] at pushed

theorem open_flow (ready : Ready r s s')
    (fits : ∃ x rest, s.cursor.rest = x :: rest ∧ isIdentChar x = false ∧ isBreak x = false)
    {token : Token} (kept : token.respelt r = token) (step : s.openFlow? token = some t) :
    ∃ t', s'.openFlow? token = some t' ∧ Matches r t t' := by
  obtain ⟨u, noted, step⟩ := Option.bind_eq_some_iff.1 step
  cases step
  obtain ⟨k, k', rfl, noted', same⟩ := ready.note noted
  exact ⟨_, by rw [openFlow?, noted']; rfl,
    ready.mark (same.enter true) fits rfl rfl kept (by simp)⟩

theorem close_flow (ready : Ready r s s')
    (fits : ∃ x rest, s.cursor.rest = x :: rest ∧ isIdentChar x = false ∧ isBreak x = false)
    {token : Token} (kept : token.respelt r = token) (step : s.closeFlow? token = some t) :
    ∃ t', s'.closeFlow? token = some t' ∧ Matches r t t' := by
  obtain ⟨u, dropped, step⟩ := Option.bind_eq_some_iff.1 step
  cases step
  obtain ⟨rfl, dropped', same⟩ := ready.same.drop dropped
  have cursors : ∀ s : Scan, s.around.cursor = s.cursor := fun s => by
    unfold around
    split <;> rfl
  exact ⟨_, by rw [closeFlow?, dropped']; rfl,
    ready.mark same.leave fits (cursors _) (cursors _) kept (by simp)⟩

theorem comma (ready : Ready r s s')
    (fits : ∃ x rest, s.cursor.rest = x :: rest ∧ isIdentChar x = false ∧ isBreak x = false)
    (flow : s.outer ≠ []) (step : s.comma? = some t) :
    ∃ t', s'.comma? = some t' ∧ Matches r t t' := by
  obtain ⟨u, dropped, step⟩ := Option.bind_eq_some_iff.1 step
  cases step
  obtain ⟨rfl, dropped', same⟩ := ready.same.drop dropped
  exact ⟨_, by rw [comma?, dropped']; rfl,
    ready.mark same fits rfl rfl rfl fun block => absurd block flow⟩

theorem cursor_open_block (s : Scan) (column place : Nat) (token : Token) :
    (s.openBlock column place token).cursor = s.cursor := by
  unfold openBlock
  split <;> rfl

theorem outer_open_block (s : Scan) (column place : Nat) (token : Token) :
    (s.openBlock column place token).outer = s.outer := by
  unfold openBlock
  split <;> rfl

/-- A mark that may open a block. In a block it may only stand where the columns agree. -/
theorem opening (ready : Ready r s s') {u : Scan} {token : Token} (kept : token.respelt r = token)
    (open_ : ¬(!s.inFlow && !s.keyAllowed) = true)
    (dropped : (s.openBlock s.cursor.column s.tokens.size token).dropCandidate? = some u) :
    ∃ u', (s'.openBlock s'.cursor.column s'.tokens.size token).dropCandidate? = some u' ∧
      Matches r u u' ∧ u.cursor = s.cursor ∧ u'.cursor = s'.cursor ∧
      (u.outer = [] → s'.cursor.column = s.cursor.column) := by
  have columns : s.outer = [] → s'.cursor.column = s.cursor.column := fun block =>
    ready.columns block (by simpa [inFlow, block] using open_)
  rw [drop_candidate_open_block] at dropped ⊢
  obtain ⟨v, before, rfl⟩ := Option.map_eq_some_iff.1 dropped
  obtain ⟨rfl, before', same⟩ := ready.same.drop before
  rw [before', ready.same.size]
  refine ⟨_, rfl, same.open_block rfl rfl columns s.tokens.size kept, cursor_open_block _ _ _ _,
    cursor_open_block _ _ _ _, ?_⟩
  rw [outer_open_block]
  exact columns

theorem item (ready : Ready r s s')
    (fits : ∃ x rest, s.cursor.rest = x :: rest ∧ isIdentChar x = false ∧ isBreak x = false)
    (step : s.item? = some t) : ∃ t', s'.item? = some t' ∧ Matches r t t' := by
  unfold item? at step ⊢
  rw [ready.same.in_flow, ready.same.keyAllowed]
  split at step
  · cases step
  · next open_ =>
      obtain ⟨u, dropped, step⟩ := Option.bind_eq_some_iff.1 step
      cases step
      obtain ⟨u', dropped', same, cursor, cursor', columns⟩ := ready.opening rfl open_ dropped
      rw [if_neg open_, dropped']
      exact ⟨_, rfl, ready.mark same fits cursor cursor' rfl fun block _ => columns block⟩

theorem key (ready : Ready r s s')
    (fits : ∃ x rest, s.cursor.rest = x :: rest ∧ isIdentChar x = false ∧ isBreak x = false)
    (step : s.key? = some t) : ∃ t', s'.key? = some t' ∧ Matches r t t' := by
  unfold key? at step ⊢
  rw [ready.same.in_flow, ready.same.keyAllowed]
  split at step
  · cases step
  · next open_ =>
      obtain ⟨u, dropped, step⟩ := Option.bind_eq_some_iff.1 step
      cases step
      obtain ⟨u', dropped', same, cursor, cursor', columns⟩ := ready.opening rfl open_ dropped
      rw [if_neg open_, dropped']
      refine ⟨_, rfl, ?_⟩
      rw [same.in_flow]
      exact ready.mark same fits cursor cursor' rfl fun block _ => columns block

/-- The scanner with a key announced that began at a candidate. -/
def announced (s : Scan) (k : Candidate) : Scan :=
  ({ s with candidate := none, tokens := s.tokens.insertIdxIfInBounds k.place .key }).openBlock
    k.column k.place .blockMapping

theorem value_of_candidate {k : Candidate} (begun : s.candidate = some k) :
    s.value? = some ({ announced s k with keyAllowed := false }.emitMark .value 1) := by
  have moved := open_block_with_candidate
    { s with tokens := s.tokens.insertIdxIfInBounds k.place .key } none k.column k.place .blockMapping
  rw [announced, ← moved, value?]
  simp only [begun]

theorem value_of (ready : Ready r s s')
    (fits : ∃ x rest, s.cursor.rest = x :: rest ∧ isIdentChar x = false ∧ isBreak x = false)
    {k : Candidate} (begun : s.candidate = some k) (step : s.value? = some t) :
    ∃ t', s'.value? = some t' ∧ Matches r t t' := by
  have alike := ready.same.levels.alike
  rw [begun] at alike
  cases begun' : s'.candidate with
  | none =>
      rw [begun'] at alike
      cases alike
  | some k' =>
      rw [begun'] at alike
      cases alike with
      | some alike =>
          have column : s.outer = [] → k'.column = k.column := by
            intro block
            have related := ready.same.levels.in_block block
            rw [begun, begun'] at related
            cases related with
            | some related => exact related.column
          rw [value_of_candidate begun] at step
          cases step
          refine ⟨_, value_of_candidate begun', ?_⟩
          have keyless := ready.same.with_candidate ready.same.levels.drop
          have inserted := keyless.insert k.place (show Token.key.respelt r = .key from rfl)
          have opened := inserted.open_block rfl rfl column k.place
            (show Token.blockMapping.respelt r = .blockMapping from rfl)
          rw [announced, announced, alike.place]
          exact ready.mark opened fits (cursor_open_block _ _ _ _) (cursor_open_block _ _ _ _) rfl
            (by simp)

theorem value (ready : Ready r s s')
    (fits : ∃ x rest, s.cursor.rest = x :: rest ∧ isIdentChar x = false ∧ isBreak x = false)
    (step : s.value? = some t) : ∃ t', s'.value? = some t' ∧ Matches r t t' := by
  cases begun : s.candidate with
  | some k => exact ready.value_of fits begun step
  | none =>
      have begun' : s'.candidate = none := by
        have alike := ready.same.levels.alike
        rw [begun] at alike
        cases related : s'.candidate with
        | none => rfl
        | some k' =>
            rw [related] at alike
            cases alike
      unfold value? at step ⊢
      rw [begun] at step
      rw [begun', ready.same.in_flow, ready.same.keyAllowed]
      simp only at step ⊢
      split at step
      · cases step
      · next open_ =>
          cases step
          have columns : s.outer = [] → s'.cursor.column = s.cursor.column := fun block =>
            ready.columns block (by simpa [inFlow, block] using open_)
          have opened := ready.same.open_block begun begun' columns s.tokens.size
            (show Token.blockMapping.respelt r = .blockMapping from rfl)
          rw [if_neg open_, ready.same.size]
          refine ⟨_, rfl, ?_⟩
          refine ready.mark opened fits (cursor_open_block _ _ _ _) (cursor_open_block _ _ _ _) rfl
            fun block _ => columns ?_
          rwa [outer_open_block] at block

theorem ends_name_of_ident (c : Char) (ident : isIdentChar c = true) : endsName c = false :=
  forall_ascii (p := fun c => isIdentChar c = true → endsName c = false) (by decide)
    (ascii_of_is_ident_char ident) ident

theorem is_break_of_is_name_char {c : Char} (name : isNameChar c = true) : isBreak c = false := by
  simp only [isNameChar, Bool.or_eq_true, beq_iff_eq] at name
  rcases name with (letter | rfl) | rfl
  · exact is_break_of_ident c (by simp [isIdentChar, letter])
  · decide
  · decide

def pastName (c : Cursor) : Cursor := (c.advance 1).dropWhile isNameChar

theorem name_of_note {s u : Scan} (token : String → Token) (noted : s.noteCandidate? = some u) :
    s.name? token =
      let name := (u.cursor.advance 1).takeWhile isNameChar
      if name.isEmpty then none
      else if (pastName u.cursor).onBlankOrEnd || (pastName u.cursor).rest.head?.any endsName then
        some { u with
          cursor := pastName u.cursor, tokens := u.tokens.push (token (String.ofList name)),
          keyAllowed := false }
      else none := by
  rw [name?, noted]
  rfl

theorem name (ready : Ready r s s')
    (fits : ∃ x rest, s.cursor.rest = x :: rest ∧ isIdentChar x = false ∧ isBreak x = false)
    {token : String → Token}
    (changed : ∀ name, (token name).respelt r = token (respeltString r name))
    (step : s.name? token = some t) : ∃ t', s'.name? token = some t' ∧ Matches r t t' := by
  obtain ⟨u, noted, _⟩ := Option.bind_eq_some_iff.1 step
  rw [name_of_note token noted] at step
  obtain ⟨k, k', rfl, noted', same⟩ := ready.note noted
  obtain ⟨opened, reach, reach'⟩ := ready.one fits
  have spelled : (s'.cursor.advance 1).takeWhile isNameChar =
      r.text ((s.cursor.advance 1).takeWhile isNameChar) := by
    rw [Cursor.takeWhile, opened.rest]
    exact r.take_while_text is_name_char_of_ident _
  have after : Cursor.Matches r (pastName s.cursor) (pastName s'.cursor) :=
    opened.drop_while is_name_char_of_ident
  have on := reach.trans (.of_drop_while (s.cursor.advance 1) fun _ => is_break_of_is_name_char)
  have on' := reach'.trans (.of_drop_while (s'.cursor.advance 1) fun _ => is_break_of_is_name_char)
  have filled : (r.text ((s.cursor.advance 1).takeWhile isNameChar)).isEmpty =
      ((s.cursor.advance 1).takeWhile isNameChar).isEmpty := by
    rw [Bool.eq_iff_iff, List.isEmpty_iff, List.isEmpty_iff, r.text_eq_nil_iff]
  have ends : (pastName s'.cursor).rest.head?.any endsName =
      (pastName s.cursor).rest.head?.any endsName := by
    rw [after.rest, r.any_head_text ends_name_of_ident]
  rw [name_of_note token noted']
  simp only [spelled, filled, after.on_blank_or_end, ends] at step ⊢
  split at step
  · cases step
  · next named =>
      split at step
      · next ended =>
          cases step
          refine ⟨_, by rw [if_neg named, if_pos ended], ?_⟩
          have pushed := same.push
            (token (String.ofList ((s.cursor.advance 1).takeWhile isNameChar))) false after on on'
            (by simp)
          rw [changed, respeltString, String.toList_ofList] at pushed
          exact pushed
      · cases step

theorem block (ready : Ready r s s')
    (fits : ∃ x rest, s.cursor.rest = x :: rest ∧ isIdentChar x = false ∧ isBreak x = false)
    {literal : Bool} (step : s.block? literal = some t) :
    ∃ t', s'.block? literal = some t' ∧ Matches r t t' := by
  obtain ⟨u, dropped, step⟩ := Option.bind_eq_some_iff.1 step
  obtain ⟨⟨text, next⟩, read, step⟩ := Option.bind_eq_some_iff.1 step
  cases step
  obtain ⟨rfl, dropped', same⟩ := ready.same.drop dropped
  obtain ⟨x, rest, parts, other, inLine⟩ := fits
  obtain ⟨next', read', place, tied, reach, reach'⟩ :=
    Block.read_matches ready.same.cursor parts other inLine read
  rw [← ready.same.indents] at read'
  refine ⟨_, by rw [block?, dropped']; simp only [Option.bind_eq_bind, Option.bind_some, read']; rfl,
    ?_⟩
  have pushed := same.push (.scalar false (String.ofList text)) true place reach reach'
    fun _ _ => tied
  rw [Token.respelt, respeltString, String.toList_ofList] at pushed
  exact pushed

theorem quoted (ready : Ready r s s') {single : Bool}
    (fits : s.cursor.rest.head? = some (if single then '\'' else '"'))
    (step : s.quoted? single = some t) : ∃ t', s'.quoted? single = some t' ∧ Matches r t t' := by
  obtain ⟨u, noted, step⟩ := Option.bind_eq_some_iff.1 step
  obtain ⟨⟨text, next⟩, read, step⟩ := Option.bind_eq_some_iff.1 step
  cases step
  obtain ⟨k, k', rfl, noted', same⟩ := ready.note noted
  obtain ⟨next', read', place, reach, reach'⟩ :=
    Quoted.read_matches ready.same.cursor fits read
  refine ⟨_, by rw [quoted?, noted']; simp only [Option.bind_eq_bind, Option.bind_some, read']; rfl, ?_⟩
  have pushed := same.push (.scalar false (String.ofList text)) false place reach reach' (by simp)
  rw [Token.respelt, respeltString, String.toList_ofList] at pushed
  exact pushed

/-- The least column of the further lines of a plain scalar. -/
def margin (indents : List Nat) : Nat := match indents with | [] => 0 | indent :: _ => indent + 1

theorem plain_of_note {s u : Scan} (noted : s.noteCandidate? = some u) :
    s.plain? = (Plain.read? u.inFlow (margin u.indents) u.cursor).bind fun read =>
      some { u with
        cursor := read.cursor, tokens := u.tokens.push (.scalar true (String.ofList read.text)),
        keyAllowed := read.gap.broken } := by
  rw [plain?, noted]
  rfl

theorem plain (ready : Ready r s s')
    (fits : ∃ x rest, s.cursor.rest = x :: rest ∧ isBlankOrBreak x = false)
    (step : s.plain? = some t) : ∃ t', s'.plain? = some t' ∧ Matches r t t' := by
  obtain ⟨u, noted, _⟩ := Option.bind_eq_some_iff.1 step
  rw [plain_of_note noted] at step
  obtain ⟨k, k', rfl, noted', same⟩ := ready.note noted
  obtain ⟨read, found, step⟩ := Option.bind_eq_some_iff.1 step
  cases step
  obtain ⟨x, rest, parts, begins⟩ := fits
  have left : s.inFlow = true ∨ margin s.indents ≤ s.cursor.column + 1 := by
    by_cases block : s.outer = []
    · right
      have inside := ready.inside block
      cases indents : s.indents with
      | nil => exact Nat.zero_le _
      | cons indent more =>
          rw [indents] at inside
          exact Nat.succ_le_succ (inside indent rfl)
    · left
      have levels : s.outer.isEmpty = false := by simpa using block
      simp [inFlow, levels]
  obtain ⟨read', found', result⟩ := Plain.read_matches ready.same.cursor left
    (by simp [parts, begins]) found
  have read'' : Plain.read? s'.inFlow (margin s'.indents) s'.cursor = some read' := by
    rw [ready.same.in_flow, ready.same.indents]
    exact found'
  have pushed := same.push (.scalar true (String.ofList read.text)) read.gap.broken result.cursor
    (Plain.read_reaches found) (Plain.read_reaches found') fun _ broken => Or.inl (result.exact broken)
  rw [Token.respelt, respeltString, String.toList_ofList, ← result.text] at pushed
  refine ⟨_, by rw [plain_of_note noted']; exact congrArg (Option.bind · _) read'', ?_⟩
  simpa only [result.gap] using pushed

end Ready

theorem act_of_ident {inFlow : Bool} {c : Cursor} {x : Char} {rest : List Char}
    (parts : c.rest = x :: rest) (ident : isIdentChar x = true) : act? inFlow c = some .plain := by
  have differs : ∀ y, isIdentChar y = false → (x == y) = false := by
    intro y other
    rw [beq_eq_false_iff_ne]
    rintro rfl
    rw [ident] at other
    cases other
  have mark : c.onDocumentMark = false := by
    rw [Bool.eq_false_iff]
    intro mark
    obtain ⟨_, y, tail, spelled, begun, _⟩ := Cursor.on_document_mark_iff.1 mark
    rw [parts] at begun
    obtain ⟨rfl, _⟩ := List.cons.inj begun
    rcases spelled with rfl | rfl <;> exact absurd ident (by decide)
  have indicator : isIndicator x = false :=
    forall_ascii (p := fun c => isIdentChar c = true → isIndicator c = false) (by decide)
      (ascii_of_is_ident_char ident) ident
  unfold act?
  rw [parts]
  simp only [mark, indicator, is_blank_or_break_of_ident x ident, differs '%' (by decide),
    differs '[' (by decide), differs '\x7b' (by decide), differs ']' (by decide),
    differs '\x7d' (by decide), differs ',' (by decide), differs '-' (by decide),
    differs '?' (by decide), differs ':' (by decide), differs '*' (by decide),
    differs '&' (by decide), differs '!' (by decide), differs '|' (by decide),
    differs '>' (by decide), differs '\'' (by decide), differs '"' (by decide), Bool.and_false,
    Bool.false_and, Bool.or_self, Bool.false_eq_true, if_false]

/-- In both texts the same kind of token comes next. -/
theorem act_matches {inFlow : Bool} {c c' : Cursor} (same : Cursor.Matches r c c') :
    act? inFlow c' = act? inFlow c := by
  rcases text_cases c.rest with none | ⟨x, rest, parts, other⟩ | ⟨run, rest, parts, isRun, fresh⟩
  · have none' : c'.rest = [] := by
      rw [same.rest, none]
      rfl
    rw [act?, act?, none, none']
  · have parts' := same.rest_of_other parts other
    have start : (c'.column == 0) = (c.column == 0) := by
      rw [Bool.eq_iff_iff, beq_iff_eq, beq_iff_eq]
      exact same.column_eq_zero_iff
    unfold act?
    rw [parts, parts', start, same.on_document_mark]
    simp only [r.end_or_text is_blank_or_break_of_ident]
  · obtain ⟨x, y, tail, tail', begun, ident, begun', ident'⟩ := r.head_text_of_run isRun fresh
    rw [act_of_ident (parts.trans begun) ident,
      act_of_ident (same.rest.trans ((congrArg r.text parts).trans begun')) ident']

/-- One token of both texts. Directives and tags are left out, and a comma has brackets around it. -/
theorem Ready.token {s s' t : Scan} (ready : Ready r s s') (step : s.token? = some t)
    (untagged : ∀ token ∈ t.tokens, token.Untagged)
    (commas : s.outer = [] → s.comma? ≠ some t) :
    ∃ t', s'.token? = some t' ∧ Matches r t t' := by
  rw [token_eq] at step ⊢
  obtain ⟨act, found, step⟩ := Option.bind_eq_some_iff.1 step
  rw [ready.same.in_flow, act_matches ready.same.cursor, found, Option.bind_some]
  have fits := fits_of_act found
  cases act with
  | directive =>
      obtain ⟨u, token, next, _, directive, rfl⟩ := directive_eq_some step
      have absent := untagged token (by simp)
      cases token with
      | version => exact absent.elim
      | handle => exact absent.elim
      | _ => cases directive
  | documentMark => exact ready.document_mark fits step
  | openFlow mapping => exact ready.open_flow fits (by cases mapping <;> rfl) step
  | closeFlow mapping => exact ready.close_flow fits (by cases mapping <;> rfl) step
  | comma => exact ready.comma fits (fun block => commas block step) step
  | item => exact ready.item fits step
  | key => exact ready.key fits step
  | value => exact ready.value fits step
  | name isAlias => exact ready.name fits (fun _ => by cases isAlias <;> rfl) step
  | tag =>
      obtain ⟨u, noted, step⟩ := Option.bind_eq_some_iff.1 step
      obtain ⟨⟨written, next⟩, _, step⟩ := Option.bind_eq_some_iff.1 step
      cases step
      exact (untagged (.tag written) (by simp [emit])).elim
  | block literal => exact ready.block fits step
  | quoted single => exact ready.quoted fits step
  | plain => exact ready.plain fits step

/-- Tokens that a text of both kinds may have: no tags, and none out of order. -/
structure Sound (tokens : List Token) : Prop where
  untagged : ∀ token ∈ tokens, token.Untagged
  whole : ¬Broken tokens
  within : ¬Stray tokens

/-- Up to the next token. If a block of the one text ends here and one of the other does not, the first
text holds tokens out of order. -/
theorem Matches.to_token {s s' t : Scan} {fuel : Nat} {final : Array Token} (same : Matches r s s')
    (current : ∀ k ∈ s.candidate, k.line = s.cursor.line) (started : s.cursor.rest ≠ [])
    (step : (s.closeBlocks s.cursor.column).token? = some t) (run : readAll fuel t = some final)
    (whole : ¬Broken final.toList) :
    Ready r (s.closeBlocks s.cursor.column) (s'.closeBlocks s'.cursor.column) := by
  have cursors : (s.closeBlocks s.cursor.column).cursor = s.cursor := by
    unfold Scan.closeBlocks
    split <;> rfl
  have ends : s.outer = [] →
      deeperThan s'.cursor.column s.indents = deeperThan s.cursor.column s.indents := by
    intro block
    by_cases none : deeperThan s.cursor.column s.indents = []
    · have inside := inside_of_deeper_than none
      rw [none]
      exact deeper_than_of_inside fun indent first =>
        Nat.le_trans (inside indent first) same.cursor.column
    · by_cases columns : s'.cursor.column = s.cursor.column
      · rw [columns]
      · refine absurd ?_ whole
        have closed : s.keyAllowed = false := by
          cases allowed : s.keyAllowed with
          | false => rfl
          | true => exact absurd ((same.exact block allowed).resolve_right started) columns
        have keyless : s.candidate = Option.none := by
          cases begun : s.candidate with
          | none => rfl
          | some k => exact absurd (same.deeper_than_of_candidate block begun (current k begun)) none
        have within : s.cursor.column ≠ 0 := fun zero =>
          columns ((same.cursor.first zero).trans zero.symm)
        exact broken_of_close_blocks block closed keyless within none step run
  refine ⟨same.close_blocks current ends, fun block => ?_, by rw [cursors]; exact started⟩
  have block' : s.outer = [] := by
    by_cases flow : s.outer = []
    · exact flow
    · rwa [close_blocks_of_flow flow] at block
  rw [cursors, close_blocks_of_block block']
  exact drop_deeper_than s.indents s.cursor.column

theorem read_all_matches {fuel fuel' : Nat} {s s' : Scan} {final : Array Token} (le : fuel ≤ fuel')
    (same : Matches r s s') (bracketed : s.Bracketed) (run : readAll fuel s = some final)
    (sound : Sound final.toList) :
    ∃ final', readAll fuel' s' = some final' ∧
      final'.toList = final.toList.map (Token.respelt r) := by
  induction fuel generalizing fuel' s s' with
  | zero => cases run
  | succ fuel ih =>
      obtain ⟨fuel', rfl⟩ := Nat.exists_eq_add_one.2 (Nat.lt_of_lt_of_le (Nat.succ_pos fuel) le)
      have placed : ∀ s : Scan, s.Placed 0 := fun s =>
        ⟨Nat.zero_le _, fun _ _ _ _ => Nat.zero_le _⟩
      obtain ⟨t, settled, run⟩ := Option.bind_eq_some_iff.1 run
      have skipped := same.skip (Block.length_lt_fuel s.cursor) (Block.length_lt_fuel s'.cursor)
      obtain ⟨t', settled', matched, current⟩ := skipped.drop_past settled
      have bracketed' := (settled_grown (placed s) settled t.cursor.column).bracketed bracketed
      have cursors : ∀ s : Scan, (s.closeBlocks s.cursor.column).cursor = s.cursor := fun s => by
        unfold Scan.closeBlocks
        split <;> rfl
      rw [readAll, settled']
      simp only [Option.bind_eq_bind, Option.bind_some, cursors, finish_close_blocks] at run ⊢
      rw [matched.cursor.at_end]
      split at run
      · next ended =>
          rw [if_pos ended]
          exact matched.finish run
      · next started =>
          obtain ⟨u, step, run⟩ := Option.bind_eq_some_iff.1 run
          have ready := matched.to_token current (by simpa [Cursor.atEnd] using started) step run
            sound.whole
          have grown := token_grown (placed _) step
          have tokens := read_all_grows (placed u) run
          have untagged : ∀ token ∈ u.tokens, token.Untagged := fun token member =>
            sound.untagged token (tokens.mem (by simpa using member))
          have commas : (t.closeBlocks t.cursor.column).outer = [] →
              (t.closeBlocks t.cursor.column).comma? ≠ some u := fun block comma =>
            sound.within (stray_of_comma bracketed' block comma run)
          obtain ⟨u', step', next⟩ := ready.token step untagged commas
          rw [if_neg started, step']
          exact ih (Nat.le_of_succ_le_succ le) next (grown.bracketed bracketed') run

end Scan

theorem is_document_char_of_ident (c : Char) (ident : isIdentChar c = true) : isDocumentChar c = true :=
  forall_ascii (p := fun c => isIdentChar c = true → isDocumentChar c = true) (by decide)
    (ascii_of_is_ident_char ident) ident

/-- The tokens of a changed text are those of the text with their words changed. -/
theorem Token.of_text_text {text : List Char} {tokens : List Token} (unescaped : Unescaped text)
    (fit : LinesWithin keyLimit 0 text) (fit' : LinesWithin keyLimit 0 (r.text text))
    (read : Token.ofText? text = some tokens) (sound : Scan.Sound tokens) :
    Token.ofText? (r.text text) = some (tokens.map (Token.respelt r)) := by
  unfold Token.ofText? at read ⊢
  split at read
  · next allowed =>
      have allowed' : (r.text text).all isDocumentChar = true := by
        rw [List.all_eq_true] at allowed ⊢
        exact r.forall_mem_text is_document_char_of_ident allowed
      obtain ⟨final, run, rfl⟩ := Option.map_eq_some_iff.1 read
      have start : Scan.Matches r (Scan.start text) (Scan.start (r.text text)) :=
        ⟨⟨rfl, rfl, Nat.le_refl _, fun _ => rfl, unescaped⟩, rfl, rfl, rfl, .block .none,
          fun _ _ => Or.inl rfl, fit, fit'⟩
      have longer := r.length_le_text text
      obtain ⟨final', run', result⟩ := Scan.read_all_matches
        (Nat.add_le_add_right longer 2) start (Nat.le_refl _) run sound
      rw [if_pos allowed', run', Option.map_some, result]
  · cases read

end MessageSchema.Yaml
