import MessageSchema.Proofs.RespeltValues
import MessageSchema.Proofs.LongestTargets
import MessageSchema.Proofs.ValueEquality

/-!
Descriptions renamed in the text. A rename changes the words of a text, so what is read from the renamed
text is the description with all its strings changed. It is refused when two keys of a mapping become
the same. A few places of a text are read by their characters and not by their words: escapes and tags,
scalars without quotes that are no strings, and keys, whose length is limited. Where a rename changes
none of these, equal keys are the only way to a refusal.
-/

namespace MessageSchema.Yaml

set_option autoImplicit false

open Text

variable {r : Respelling}

theorem LinesWithin.of_le {limit column column' : Nat} {text : List Char} (le : column ≤ column')
    (within : LinesWithin limit column' text) : LinesWithin limit column text := by
  induction text generalizing column column' with
  | nil => exact Nat.le_trans le within
  | cons c rest ih =>
      rw [LinesWithin] at within ⊢
      split at within
      · next ends => exact (if_pos ends).symm ▸ ⟨Nat.le_trans le within.1, within.2⟩
      · next inside => exact (if_neg inside).symm ▸ ih (Nat.succ_le_succ le) within

theorem lines_within_word {limit column : Nat} {word : List Char}
    (ident : ∀ c ∈ word, isIdentChar c = true) (rest : List Char) :
    LinesWithin limit column (word ++ rest) ↔ LinesWithin limit (column + word.length) rest := by
  induction word generalizing column with
  | nil => exact Iff.rfl
  | cons c more ih =>
      have inside : isBreak c = false := is_break_of_ident c (ident c (by simp))
      rw [List.cons_append, LinesWithin, if_neg (by simp [inside]),
        ih fun d member => ident d (List.mem_cons_of_mem _ member), List.length_cons]
      rw [Nat.add_assoc, Nat.add_comm 1]

/-- The lines of the changed text are no shorter. -/
theorem LinesWithin.of_text {limit column : Nat} {text : List Char}
    (within : LinesWithin limit column (r.text text)) : LinesWithin limit column text := by
  induction text using text_induction generalizing column with
  | nil => exact within
  | gap c rest other ih =>
      rw [r.text_gap other, LinesWithin] at within
      rw [LinesWithin]
      split at within
      · next ends => exact (if_pos ends).symm ▸ ⟨within.1, ih within.2⟩
      · next inside => exact (if_neg inside).symm ▸ ih within
  | run word rest run fresh ih =>
      rw [r.text_run run fresh, lines_within_word (r.isRun_word run).2] at within
      rw [lines_within_word run.2]
      exact ih (within.of_le (Nat.add_le_add_left (r.length_le run) column))

theorem lines_within_of_length {limit column : Nat} {text : List Char}
    (short : column + text.length ≤ limit) : LinesWithin limit column text := by
  induction text generalizing column with
  | nil => exact short
  | cons c rest ih =>
      rw [List.length_cons] at short
      rw [LinesWithin]
      split
      · exact ⟨by omega, ih (by omega)⟩
      · exact ih (by omega)

theorem unescaped_of_not_mem {text : List Char} (none : '\\' ∉ text) : Unescaped text := by
  rintro front c back rfl
  exact absurd (by simp) none

theorem paired_of_not_mem {tokens : List Token} (none : .flowSequenceEnd ∉ tokens) :
    Paired tokens := by
  rintro front back rfl
  exact absurd (by simp) none

instance (plain : Bool) (text : String) : Decidable (Scalar.Kept r plain text) :=
  inferInstanceAs (Decidable (_ → _))

/-- A text, and its tokens, in which a change of words meets nothing that is read by its characters:
no escape begins with a word, no line becomes too long for a key, no tag and no directive is there, and
scalars without quotes are strings before and after their change. Names of anchors stay different. The
one oddity of the node reader is left out, a key between square brackets that is announced and missing. -/
structure Changeable (r : Respelling) (text : List Char) (tokens : List Token) : Prop where
  unescaped : Unescaped text
  lines : LinesWithin keyLimit 0 (r.text text)
  untagged : ∀ token ∈ tokens, token.Untagged
  paired : Paired tokens
  names : NamesApart r fun name => ∃ token ∈ tokens, token.name? = some name
  scalars : ∀ plain text, .scalar plain text ∈ tokens → Scalar.Kept r plain text

namespace Changeable

variable {text : List Char} {tokens : List Token} {d : Document}

theorem sound (changeable : Changeable r text tokens) (read : Document.ofTokens? tokens = some d) :
    Scan.Sound tokens := by
  obtain ⟨q, walked⟩ := Document.walk_of_of_tokens changeable.paired read
  refine ⟨changeable.untagged, ?_, ?_⟩
  · rintro ⟨front, token, back, rfl, refused⟩
    rw [Place.may_follow_end_of_walk walked] at refused
    cases refused
  · rintro ⟨front, back, rfl, outside⟩
    have inside := Place.closings_lt_openings_of_walk walked
    omega

theorem of_text_text (changeable : Changeable r text tokens)
    (scanned : Token.ofText? text = some tokens) (read : Document.ofTokens? tokens = some d) :
    Document.ofText? (r.text text) = some (d.respelt r) ∧ d.Steady r := by
  have tokens' := Token.of_text_text changeable.unescaped changeable.lines.of_text changeable.lines
    scanned (changeable.sound read)
  have steady : ∀ token ∈ tokens,
      token.Steady r fun name => ∃ token ∈ tokens, token.name? = some name :=
    fun token member => ⟨changeable.untagged token member, fun _ named => ⟨token, member, named⟩,
      fun plain text same => changeable.scalars plain text (same ▸ member)⟩
  obtain ⟨document, whole⟩ := Document.of_tokens_respelt changeable.names steady read
  exact ⟨by rw [Document.ofText?, tokens']; exact document, whole⟩

end Changeable

/-- The changed text holds the changed value, if no mapping in that repeats a key, and nothing else. -/
theorem Value.of_text_respelt {text : String} {tokens : List Token} {v w : Value}
    (read : Value.ofText? text = some v) (scanned : Token.ofText? text.toList = some tokens)
    (changeable : Changeable r text.toList tokens) :
    Value.ofText? (respeltString r text) = some w ↔ w = v.respelt r ∧ (v.respelt r).WellKeyed := by
  obtain ⟨d, document, value⟩ := Option.bind_eq_some_iff.1 read
  rw [Document.ofText?, scanned, Option.bind_some] at document
  obtain ⟨document', steady⟩ := changeable.of_text_text scanned document
  rw [Value.ofText?, respeltString, String.toList_ofList, document', Option.bind_some]
  exact Document.value_respelt steady value

end MessageSchema.Yaml

namespace MessageSchema.Rename

open Text

theorem Rule.length_le_word (rule : Rule) (word : List Char) :
    word.length ≤ (rule.word word).length := by
  unfold Rule.word
  split
  · rw [List.length_append]
    exact Nat.le_add_left _ _
  · exact Nat.le_refl _

theorem Rules.length_le_word (rules : Rules) (word : List Char) :
    word.length ≤ (rules.word word).length := by
  induction rules generalizing word with
  | nil => exact Nat.le_refl _
  | cons rule rest ih => exact Nat.le_trans (rule.length_le_word word) (ih (rule.word word))

end MessageSchema.Rename

namespace MessageSchema.Settings

open Text Yaml

/-- Accepted settings whose targets are made of identifier characters, where no target is just a digit:
the digit that says how deep a block scalar is indented is no name. -/
structure ChangesWords (s : Settings) : Prop where
  accepted : s.validated = .ok s
  ident : ∀ target ∈ s.targets, ∀ c ∈ target.toList, isIdentChar c = true
  noDigit : ∀ target ∈ s.targets, ∀ c, target.toList = [c] → c.isDigit = false

namespace ChangesWords

variable {s : Settings}

theorem spelled (changes : s.ChangesWords) : ∀ rule ∈ s.rules, rule.Spelled :=
  Rename.Rules.spelled_of_targets (checked_of_validated changes.accepted).1 changes.ident

theorem word_digit (changes : s.ChangesWords) {c : Char} (digit : c.isDigit = true) :
    s.rules.word [c] = [c] := by
  refine Rename.Rules.word_of_none fun rule member => Bool.eq_false_iff.2 fun begins => ?_
  have listed := ((Rename.Rules.mem_of_targets _ _ _).1 member).1
  have front := List.isPrefixOf_iff_prefix.1 begins
  rcases List.prefix_cons_iff.1 front with none | ⟨more, same, short⟩
  · exact (changes.spelled rule member).target.1 none
  · rw [List.prefix_nil.1 short] at same
    have other := changes.noDigit rule.target listed c same
    rw [digit] at other
    cases other

/-- The change of words that the rules of the settings make. -/
def respelling (changes : s.ChangesWords) : Respelling where
  word := s.rules.word
  isRun_word := Rename.Rules.is_run_word changes.spelled
  length_le := fun {run} _ => s.rules.length_le_word run
  word_digit := changes.word_digit

theorem value_apply_text (changes : s.ChangesWords) (text : String) :
    (s.rules.applyText text).value = respeltString changes.respelling text := by
  rw [Rename.Rules.apply_text_eq changes.spelled]
  rfl

end ChangesWords

/-- A description whose text is renamed can be read exactly when no two keys of a mapping become the
same, and then it is the description with all its strings renamed. -/
theorem of_text_apply_text_iff {s : Settings} (changes : s.ChangesWords) {text : String} {spec : Spec}
    {tokens : List Token} (read : Spec.ofText text = .ok spec)
    (scanned : Token.ofText? text.toList = some tokens)
    (changeable : Changeable changes.respelling text.toList tokens) (renamed : Spec) :
    Spec.ofText (s.rules.applyText text).value = .ok renamed ↔
      renamed.root = spec.root.respelt changes.respelling ∧
        (spec.root.respelt changes.respelling).WellKeyed := by
  rw [Spec.of_text_eq_ok_iff, changes.value_apply_text]
  exact Value.of_text_respelt ((Spec.of_text_eq_ok_iff text spec).1 read) scanned changeable

def renamingText (target : String) : Settings :=
  { publish := [], targets := [target], mode := .text }

theorem changes_words_config : (renamingText "Config").ChangesWords where
  accepted := by decide +kernel
  ident := by
    have all : (renamingText "Config").targets.all (·.toList.all isIdentChar) = true := by
      decide +kernel
    simpa only [List.all_eq_true] using all
  noDigit := by
    intro target listed c same
    rw [List.mem_singleton.1 listed] at same
    cases same

/-- A key, an anchor with its alias, and a word within a string. -/
def anchoredText : String := "Config: &Config 1\nOther: *Config\nName: My Config\n"

def anchoredTokens : List Token :=
  [.blockMapping, .key, .scalar true "Config", .value, .anchor "Config", .scalar true "1",
    .key, .scalar true "Other", .value, .aliasOf "Config",
    .key, .scalar true "Name", .value, .scalar true "My Config", .blockEnd]

theorem changeable_anchored :
    Changeable changes_words_config.respelling anchoredText.toList anchoredTokens where
  unescaped := unescaped_of_not_mem (by decide +kernel)
  lines := lines_within_of_length (by decide +kernel)
  untagged := by simp [anchoredTokens, Token.Untagged]
  paired := paired_of_not_mem (by decide)
  names := by simp [anchoredTokens, NamesApart, Token.name?]
  scalars := by
    have kept : ∀ token ∈ anchoredTokens,
        (match token with
          | .scalar plain text => decide (Scalar.Kept changes_words_config.respelling plain text)
          | _ => true) = true := by decide +kernel
    exact fun plain text member => of_decide_eq_true (kept (.scalar plain text) member)

theorem of_text_apply_text_anchored :
    let one := Value.number (.int 1)
    Spec.ofText anchoredText = .ok ⟨.mapping [(.string "Config", one), (.string "Other", one),
        (.string "Name", .string "My Config")]⟩ ∧
      Spec.ofText ((renamingText "Config").rules.applyText anchoredText).value = .ok ⟨.mapping
        [(.string "RealtimeConfig", one), (.string "Other", one),
          (.string "Name", .string "My RealtimeConfig")]⟩ := by
  intro one
  have read : Spec.ofText anchoredText = .ok ⟨.mapping [(.string "Config", one),
      (.string "Other", one), (.string "Name", .string "My Config")]⟩ :=
    (Spec.of_text_eq_ok_iff _ _).2 (by decide +kernel)
  have scanned : Token.ofText? anchoredText.toList = some anchoredTokens := by decide +kernel
  have renamed : Value.respelt changes_words_config.respelling (.mapping [(.string "Config", one),
      (.string "Other", one), (.string "Name", .string "My Config")]) =
      .mapping [(.string "RealtimeConfig", one), (.string "Other", one),
        (.string "Name", .string "My RealtimeConfig")] := by decide +kernel
  refine ⟨read, (of_text_apply_text_iff changes_words_config read scanned changeable_anchored _).2
    ⟨renamed.symm, ?_⟩⟩
  rw [renamed]
  simp [Value.WellKeyed, Value.WellKeyedEntries, Value.same, one]

/-- Two keys that become the same. -/
theorem of_text_apply_text_repeated :
    (renamingText "T").validated = .ok (renamingText "T") ∧
      (∀ target ∈ (renamingText "T").targets, ∀ c ∈ target.toList, isIdentChar c = true) ∧
      (∃ spec, Spec.ofText "T: 1\nRealtimeT: 2\n" = .ok spec) ∧
      ∀ renamed, Spec.ofText ((renamingText "T").rules.applyText "T: 1\nRealtimeT: 2\n").value ≠
        .ok renamed := by
  have ident : (renamingText "T").targets.all (fun target => target.toList.all isIdentChar) = true := by
    decide +kernel
  have accepted : (Value.ofText? "T: 1\nRealtimeT: 2\n").isSome = true := by decide +kernel
  have refused : (Value.ofText? ((renamingText "T").rules.applyText
      "T: 1\nRealtimeT: 2\n").value).isNone = true := by decide +kernel
  obtain ⟨root, read⟩ := Option.isSome_iff_exists.1 accepted
  refine ⟨by decide +kernel, ?_, ⟨⟨root⟩, (Spec.of_text_eq_ok_iff _ _).2 read⟩, fun renamed read => ?_⟩
  · simpa only [List.all_eq_true] using ident
  · rw [Spec.of_text_eq_ok_iff, Option.isNone_iff_eq_none.1 refused] at read
    cases read

end MessageSchema.Settings
