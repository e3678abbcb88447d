import MessageSchema.Command.Json
import Mathlib.Data.List.Basic

/-!
JSON as far as a classification needs it: strings, lists and objects. The values have a layout, with
every part on a line of its own, and a reader that takes any layout and any escape. The main
statements say that the reader gets back what has been laid out, and that a classification is written
in the layout of an object with two lists, so that it is read back from its text.
-/

namespace MessageSchema.Command.Json

set_option autoImplicit false

/-- Numbers and the words for truth and nothing are left out. -/
inductive Value where
  | string (text : String)
  | array (items : List Value)
  | object (fields : List (String × Value))

/-! ### Layout -/

def newline (depth : Nat) : List Char := '\n' :: List.replicate (2 * depth) ' '

mutual

/-- The parts of a value stand on lines of their own, two spaces further in. Brackets without parts
stand side by side. -/
def pretty (depth : Nat) : Value → List Char
  | .string text => (Json.string text).toList
  | .array [] => ['[', ']']
  | .array (first :: rest) =>
      '[' :: (newline (depth + 1) ++ (pretty (depth + 1) first ++ (prettyItems (depth + 1) rest ++
        (newline depth ++ [']']))))
  | .object [] => ['\x7b', '\x7d']
  | .object ((name, value) :: rest) =>
      '\x7b' :: (newline (depth + 1) ++ ((Json.string name).toList ++ (':' :: ' ' ::
        (pretty (depth + 1) value ++ (prettyFields (depth + 1) rest ++
          (newline depth ++ ['\x7d']))))))

def prettyItems (depth : Nat) : List Value → List Char
  | [] => []
  | item :: rest => ',' :: (newline depth ++ (pretty depth item ++ prettyItems depth rest))

def prettyFields (depth : Nat) : List (String × Value) → List Char
  | [] => []
  | (name, value) :: rest =>
      ',' :: (newline depth ++ ((Json.string name).toList ++ (':' :: ' ' :: (pretty depth value ++
        prettyFields depth rest))))

end

/-! ### Reading tokens -/

inductive Token where
  | text (text : String)
  | openArray
  | closeArray
  | openObject
  | closeObject
  | colon
  | comma
  deriving DecidableEq

def isBlank (c : Char) : Bool := [' ', '\t', '\n', '\r'].contains c

def mark? (c : Char) : Option Token :=
  if c = '[' then some .openArray
  else if c = ']' then some .closeArray
  else if c = '\x7b' then some .openObject
  else if c = '\x7d' then some .closeObject
  else if c = ':' then some .colon
  else if c = ',' then some .comma
  else none

def digit? (c : Char) : Option Nat :=
  if '0' ≤ c ∧ c ≤ '9' then some (c.toNat - '0'.toNat)
  else if 'a' ≤ c ∧ c ≤ 'f' then some (c.toNat - 'a'.toNat + 10)
  else if 'A' ≤ c ∧ c ≤ 'F' then some (c.toNat - 'A'.toNat + 10)
  else none

def unit? (a b c d : Char) : Option Nat := do
  let first ← digit? a
  let second ← digit? b
  let third ← digit? c
  let fourth ← digit? d
  some (((first * 16 + second) * 16 + third) * 16 + fourth)

def letter? (c : Char) : Option Char :=
  if c = '"' ∨ c = '\\' ∨ c = '/' then some c
  else if c = 'b' then some '\x08'
  else if c = 'f' then some '\x0c'
  else if c = 'n' then some '\n'
  else if c = 'r' then some '\r'
  else if c = 't' then some '\t'
  else none

def isHigh (unit : Nat) : Bool := 0xD800 ≤ unit && unit < 0xDC00

def isLow (unit : Nat) : Bool := 0xDC00 ≤ unit && unit < 0xE000

def paired (high low : Nat) : Char :=
  Char.ofNat (0x10000 + (high - 0xD800) * 0x400 + (low - 0xDC00))

def escape? : List Char → Option (Char × List Char)
  | 'u' :: a :: b :: c :: d :: rest => do
      let unit ← unit? a b c d
      if isLow unit then none
      else if isHigh unit then
        match rest with
        | '\\' :: 'u' :: a :: b :: c :: d :: rest => do
            let low ← unit? a b c d
            if isLow low then some (paired unit low, rest) else none
        | _ => none
      else some (Char.ofNat unit, rest)
  | c :: rest => (letter? c).map (·, rest)
  | [] => none

def character? (c : Char) (rest : List Char) : Option (Char × List Char) :=
  if c = '\\' then escape? rest
  else if c.toNat < 0x20 then none
  else some (c, rest)

theorem length_le_of_escape {chars rest : List Char} {c : Char}
    (read : escape? chars = some (c, rest)) : rest.length ≤ chars.length := by
  unfold escape? at read
  split at read
  · rw [Option.bind_eq_bind, Option.bind_eq_some_iff] at read
    obtain ⟨unit, -, read⟩ := read
    split at read
    · cases read
    · split at read
      · split at read
        · rw [Option.bind_eq_some_iff] at read
          obtain ⟨low, -, read⟩ := read
          split at read
          · rw [Option.some.injEq, Prod.mk.injEq] at read
            rw [← read.2]
            simp only [List.length_cons]
            omega
          · cases read
        · cases read
      · cases read
        simp only [List.length_cons]
        omega
  · obtain ⟨d, -, same⟩ := Option.map_eq_some_iff.1 read
    cases same
    exact Nat.le_succ _
  · cases read

theorem length_le_of_character {c d : Char} {rest more : List Char}
    (read : character? c rest = some (d, more)) : more.length ≤ rest.length := by
  unfold character? at read
  split at read
  · exact length_le_of_escape read
  · split at read
    · cases read
    · cases read
      exact Nat.le_refl _

/-- The text up to the quote that ends it, and what follows the quote. -/
def text? (chars : List Char) : Option (List Char × List Char) :=
  match chars with
  | [] => none
  | c :: rest =>
      if c = '"' then some ([], rest)
      else
        match _ : character? c rest with
        | none => none
        | some (d, more) => (text? more).map fun read => (d :: read.1, read.2)
termination_by chars.length
decreasing_by
  exact Nat.lt_succ_of_le (length_le_of_character ‹_›)

theorem text_quote (rest : List Char) : text? ('"' :: rest) = some ([], rest) := by
  rw [text?, if_pos rfl]

theorem text_cons {c d : Char} {rest more : List Char} (other : c ≠ '"')
    (read : character? c rest = some (d, more)) :
    text? (c :: rest) = (text? more).map fun read => (d :: read.1, read.2) := by
  rw [text?, if_neg other]
  split
  · next none => rw [read] at none; cases none
  · next found =>
      rw [read] at found
      cases found
      rfl

theorem length_lt_of_text {chars text rest : List Char}
    (read : text? chars = some (text, rest)) : rest.length < chars.length := by
  fun_induction text? chars generalizing text rest
  case case1 => cases read
  case case2 =>
    cases read
    exact Nat.lt_succ_self _
  case case3 => cases read
  case case4 c rest other d more found ih =>
    obtain ⟨found', read', same⟩ := Option.map_eq_some_iff.1 read
    cases same
    exact Nat.lt_succ_of_lt (Nat.lt_of_lt_of_le (ih read') (length_le_of_character found))

/-- The tokens of a text. Blanks between them mean nothing. -/
def tokens? (chars : List Char) : Option (List Token) :=
  match chars with
  | [] => some []
  | c :: rest =>
      if isBlank c then tokens? rest
      else
        match mark? c with
        | some token => (tokens? rest).map (token :: ·)
        | none =>
            if c = '"' then
              match _ : text? rest with
              | none => none
              | some (text, more) => (tokens? more).map (.text (String.ofList text) :: ·)
            else none
termination_by chars.length
decreasing_by
  · exact Nat.lt_succ_self _
  · exact Nat.lt_succ_self _
  · exact Nat.lt_succ_of_lt (length_lt_of_text ‹_›)

theorem tokens_quote {rest text more : List Char} (read : text? rest = some (text, more)) :
    tokens? ('"' :: rest) = (tokens? more).map (.text (String.ofList text) :: ·) := by
  have other : mark? '"' = none := rfl
  rw [tokens?, if_neg (by decide)]
  simp only [other, if_true]
  split
  · next none =>
      rw [read] at none
      cases none
  · next found =>
      rw [read] at found
      cases found
      rfl

/-! ### What is escaped -/

theorem escape_hex_digit (n : Fin 32) (rest : List Char) :
    escape? ('u' :: '0' :: '0' :: hexDigit (n / 16) :: hexDigit (n % 16) :: rest) =
      some (Char.ofNat n, rest) := by
  have unit : unit? '0' '0' (hexDigit (n / 16)) (hexDigit (n % 16)) = some n.val := by
    revert n
    decide
  have single : isLow n.val = false ∧ isHigh n.val = false := by
    revert n
    decide
  simp only [escape?, unit, Option.bind_eq_bind, Option.bind_some, single.1, single.2,
    Bool.false_eq_true, if_false]

/-- The characters that are written as a letter behind a backslash, each with its letter. -/
def letters : List (Char × Char) :=
  [('"', '"'), ('\\', '\\'), ('\x08', 'b'), ('\x0c', 'f'), ('\n', 'n'), ('\r', 'r'), ('\t', 't')]

theorem escaped_letter : ∀ pair ∈ letters,
    pair.2 ≠ 'u' ∧ escaped pair.1 = ['\\', pair.2] ∧ letter? pair.2 = some pair.1 := by
  decide

theorem escaped_of_other {c : Char} (other : c ∉ letters.map (·.1)) :
    escaped c = if c.toNat < 0x20 then
      ['\\', 'u', '0', '0', hexDigit (c.toNat / 16), hexDigit (c.toNat % 16)]
    else [c] := by
  simp only [letters, List.map_cons, List.map_nil, List.mem_cons, List.not_mem_nil, or_false, not_or] at other
  simp [escaped, other]

theorem text_letter {letter c : Char} (other : letter ≠ 'u') (read : letter? letter = some c)
    (rest : List Char) :
    text? ('\\' :: letter :: rest) = (text? rest).map fun read => (c :: read.1, read.2) := by
  apply text_cons (by decide)
  rw [character?, if_pos rfl, escape?, read]
  · rfl
  · intro a b c d more same _
    exact other same

theorem text_escaped (c : Char) (rest : List Char) :
    text? (escaped c ++ rest) = (text? rest).map fun read => (c :: read.1, read.2) := by
  by_cases special : c ∈ letters.map (·.1)
  · rcases List.mem_map.1 special with ⟨pair, listed, rfl⟩
    rcases escaped_letter pair listed with ⟨other, written, read⟩
    rw [written]
    exact text_letter other read rest
  · rw [escaped_of_other special]
    split
    · next control =>
        have read := escape_hex_digit ⟨c.toNat, control⟩ rest
        rw [Char.ofNat_toNat] at read
        exact text_cons (by decide) read
    · next printable =>
        have quote : c ≠ '"' := fun same => special (same ▸ by decide)
        have slash : c ≠ '\\' := fun same => special (same ▸ by decide)
        apply text_cons quote
        rw [character?, if_neg slash, if_neg printable]
        rfl

theorem text_string (text rest : List Char) :
    text? (text.flatMap escaped ++ '"' :: rest) = some (text, rest) := by
  induction text with
  | nil => exact text_quote rest
  | cons c more ih =>
      rw [List.flatMap_cons, List.append_assoc, text_escaped, ih]
      rfl

/-! ### The tokens of a layout -/

/-- Whatever follows these characters, they are read as these tokens. -/
def Lexes (chars : List Char) (tokens : List Token) : Prop :=
  ∀ rest, tokens? (chars ++ rest) = (tokens? rest).map (tokens ++ ·)

theorem lexes_nil : Lexes [] [] := by
  intro rest
  simp

theorem Lexes.append {first second : List Char} {tokens more : List Token}
    (lexes : Lexes first tokens) (lexes' : Lexes second more) :
    Lexes (first ++ second) (tokens ++ more) := by
  intro rest
  rw [List.append_assoc, lexes, lexes', Option.map_map]
  simp only [Function.comp_def, List.append_assoc]

theorem lexes_blank {c : Char} (blank : isBlank c = true) : Lexes [c] [] := by
  intro rest
  rw [List.singleton_append, tokens?, if_pos blank]
  simp

theorem lexes_mark {c : Char} {token : Token} (visible : isBlank c = false)
    (mark : mark? c = some token) : Lexes [c] [token] := by
  intro rest
  rw [List.singleton_append, tokens?, if_neg (by simp [visible]), mark]
  rfl

theorem lexes_newline (depth : Nat) : Lexes (newline depth) [] := by
  have spaces : ∀ count, Lexes (List.replicate count ' ') [] := by
    intro count
    induction count with
    | zero => exact lexes_nil
    | succ count ih => exact (lexes_blank (by decide)).append ih
  exact (lexes_blank (by decide)).append (spaces _)

theorem lexes_string (text : String) : Lexes (Json.string text).toList [.text text] := by
  intro rest
  have quoted : (Json.string text).toList ++ rest =
      '"' :: (text.toList.flatMap escaped ++ '"' :: rest) := by
    simp [Json.string]
  rw [quoted, tokens_quote (text_string text.toList rest), String.ofList_toList]
  rfl

mutual

def Value.tokens : Value → List Token
  | .string text => [.text text]
  | .array [] => [.openArray, .closeArray]
  | .array (first :: rest) => .openArray :: (first.tokens ++ (itemTokens rest ++ [.closeArray]))
  | .object [] => [.openObject, .closeObject]
  | .object ((name, value) :: rest) =>
      .openObject :: .text name :: .colon :: (value.tokens ++ (fieldTokens rest ++ [.closeObject]))

def itemTokens : List Value → List Token
  | [] => []
  | item :: rest => .comma :: (item.tokens ++ itemTokens rest)

def fieldTokens : List (String × Value) → List Token
  | [] => []
  | (name, value) :: rest => .comma :: .text name :: .colon :: (value.tokens ++ fieldTokens rest)

end

theorem lexes_field (name : String) {chars : List Char} {tokens : List Token}
    (lexes : Lexes chars tokens) :
    Lexes ((Json.string name).toList ++ (':' :: ' ' :: chars)) (.text name :: .colon :: tokens) :=
  (lexes_string name).append
    ((lexes_mark (c := ':') (by decide) rfl).append ((lexes_blank (by decide)).append lexes))

mutual

theorem lexes_pretty (depth : Nat) : (value : Value) → Lexes (pretty depth value) value.tokens
  | .string text => by
      rw [pretty, Value.tokens]
      exact lexes_string text
  | .array [] => by
      rw [pretty, Value.tokens]
      exact (lexes_mark (c := '[') (by decide) rfl).append (lexes_mark (by decide) rfl)
  | .array (first :: rest) => by
      rw [pretty, Value.tokens]
      exact (lexes_mark (c := '[') (by decide) rfl).append ((lexes_newline _).append
        ((lexes_pretty _ first).append ((lexes_pretty_items _ rest).append
          ((lexes_newline _).append (lexes_mark (by decide) rfl)))))
  | .object [] => by
      rw [pretty, Value.tokens]
      exact (lexes_mark (c := '\x7b') (by decide) rfl).append (lexes_mark (by decide) rfl)
  | .object ((name, value) :: rest) => by
      rw [pretty, Value.tokens]
      exact (lexes_mark (c := '\x7b') (by decide) rfl).append ((lexes_newline _).append
        (lexes_field name ((lexes_pretty _ value).append ((lexes_pretty_fields _ rest).append
          ((lexes_newline _).append (lexes_mark (by decide) rfl))))))

theorem lexes_pretty_items (depth : Nat) :
    (items : List Value) → Lexes (prettyItems depth items) (itemTokens items)
  | [] => by
      rw [prettyItems, itemTokens]
      exact lexes_nil
  | item :: rest => by
      rw [prettyItems, itemTokens]
      exact (lexes_mark (c := ',') (by decide) rfl).append ((lexes_newline _).append
        ((lexes_pretty _ item).append (lexes_pretty_items _ rest)))

theorem lexes_pretty_fields (depth : Nat) :
    (fields : List (String × Value)) → Lexes (prettyFields depth fields) (fieldTokens fields)
  | [] => by
      rw [prettyFields, fieldTokens]
      exact lexes_nil
  | (name, value) :: rest => by
      rw [prettyFields, fieldTokens]
      exact (lexes_mark (c := ',') (by decide) rfl).append ((lexes_newline _).append
        (lexes_field name ((lexes_pretty _ value).append (lexes_pretty_fields _ rest))))

end

/-! ### Reading values -/

/-- A list or an object that has begun, with what it has so far. -/
inductive Frame where
  | array (items : List Value)
  /-- The name is that of the field that is being read. -/
  | object (fields : List (String × Value)) (name : String)

mutual

/-- The value of tokens of which a part is the next, inside the frames, the innermost first. -/
def next? (frames : List Frame) : List Token → Option Value
  | .text text :: rest => after? frames (.string text) rest
  | .openArray :: .closeArray :: rest => after? frames (.array []) rest
  | .openArray :: rest => next? (.array [] :: frames) rest
  | .openObject :: .closeObject :: rest => after? frames (.object []) rest
  | .openObject :: .text name :: .colon :: rest => next? (.object [] name :: frames) rest
  | _ => none

def after? (frames : List Frame) (part : Value) : List Token → Option Value
  | [] => if frames.isEmpty then some part else none
  | .comma :: rest =>
      match frames, rest with
      | .array items :: frames, rest => next? (.array (items ++ [part]) :: frames) rest
      | .object fields name :: frames, .text next :: .colon :: rest =>
          next? (.object (fields ++ [(name, part)]) next :: frames) rest
      | _, _ => none
  | .closeArray :: rest =>
      match frames with
      | .array items :: frames => after? frames (.array (items ++ [part])) rest
      | _ => none
  | .closeObject :: rest =>
      match frames with
      | .object fields name :: frames => after? frames (.object (fields ++ [(name, part)])) rest
      | _ => none
  | _ => none

end

/-- The value of a text that is one value and nothing else. -/
def read? (chars : List Char) : Option Value := (tokens? chars).bind (next? [])

theorem next_open_array (frames : List Frame) (item : Value) (rest : List Token) :
    next? frames (.openArray :: (item.tokens ++ rest)) =
      next? (.array [] :: frames) (item.tokens ++ rest) := by
  rcases item with text | (_ | ⟨first, more⟩) | (_ | ⟨⟨name, value⟩, more⟩) <;> rfl

mutual

theorem next_tokens (frames : List Frame) (rest : List Token) :
    (value : Value) → next? frames (value.tokens ++ rest) = after? frames value rest
  | .string text => by
      rw [Value.tokens]
      rfl
  | .array [] => by
      rw [Value.tokens]
      rfl
  | .array (first :: more) => by
      rw [Value.tokens, List.cons_append, List.append_assoc, next_open_array, next_tokens,
        List.append_assoc, List.singleton_append, after_items]
      rfl
  | .object [] => by
      rw [Value.tokens]
      rfl
  | .object ((name, value) :: more) => by
      rw [Value.tokens]
      simp only [List.cons_append, List.append_assoc]
      show next? (.object [] name :: frames) _ = _
      rw [next_tokens, List.nil_append, after_fields]
      rfl

theorem after_items (frames : List Frame) (rest : List Token) (items : List Value) (item : Value) :
    (more : List Value) →
      after? (.array items :: frames) item (itemTokens more ++ .closeArray :: rest) =
        after? frames (.array (items ++ item :: more)) rest
  | [] => by
      rw [itemTokens]
      rfl
  | next :: more => by
      rw [itemTokens, List.cons_append, List.append_assoc]
      show next? (.array (items ++ [item]) :: frames) _ = _
      rw [next_tokens, after_items, List.append_assoc, List.singleton_append]

theorem after_fields (frames : List Frame) (rest : List Token) (fields : List (String × Value))
    (name : String) (value : Value) :
    (more : List (String × Value)) →
      after? (.object fields name :: frames) value (fieldTokens more ++ .closeObject :: rest) =
        after? frames (.object (fields ++ (name, value) :: more)) rest
  | [] => by
      rw [fieldTokens]
      rfl
  | (next, following) :: more => by
      rw [fieldTokens]
      simp only [List.cons_append, List.append_assoc]
      show next? (.object (fields ++ [(name, value)]) next :: frames) _ = _
      rw [next_tokens, after_fields, List.append_assoc, List.singleton_append]

end

/-- What has been laid out is read back, also with blanks behind it. -/
theorem read_pretty (depth : Nat) (value : Value) {tail : List Char} (blank : Lexes tail []) :
    read? (pretty depth value ++ tail) = some value := by
  have tokens : tokens? (pretty depth value ++ tail) = some value.tokens := by
    have ending := blank []
    rw [List.append_nil, tokens?, Option.map_some, List.nil_append] at ending
    rw [lexes_pretty, ending, Option.map_some, List.append_nil]
  have whole := next_tokens [] [] value
  rw [List.append_nil] at whole
  rw [read?, tokens, Option.bind_some, whole]
  rfl

/-- No value begins with a character that is neither a blank nor a mark nor a quote. -/
theorem read_of_stray {c : Char} (visible : isBlank c = false) (unmarked : mark? c = none)
    (unquoted : c ≠ '"') (rest : List Char) : read? (c :: rest) = none := by
  rw [read?, tokens?, if_neg (by simp [visible]), unmarked]
  simp only [if_neg unquoted, Option.bind_none]

/-! ### Classifications -/

def ofClassification (c : Classification) : Value :=
  .object [("publish", .array (c.publish.map .string)),
    ("subscribe", .array (c.subscribe.map .string))]

def field? (name : String) : Value → Option Value
  | .object fields => (fields.find? (·.1 == name)).map (·.2)
  | _ => none

def string? : Value → Option String
  | .string text => some text
  | _ => none

def strings? : Value → Option (List String)
  | .array items => items.mapM string?
  | _ => none

/-- The classification that a text tells. -/
def classification? (text : String) : Option Classification := do
  let value ← read? text.toList
  let publish ← (field? "publish" value).bind strings?
  let subscribe ← (field? "subscribe" value).bind strings?
  some ⟨publish, subscribe⟩

theorem strings_strings (texts : List String) :
    strings? (.array (texts.map .string)) = some texts := by
  induction texts with
  | nil => rfl
  | cons text rest ih =>
      simp only [strings?] at ih
      simp only [strings?, List.map_cons, List.mapM_cons, string?, ih]
      rfl

theorem pretty_items_strings (depth : Nat) (texts : List String) :
    prettyItems depth (texts.map .string) =
      texts.flatMap fun text => (',' :: newline depth) ++ (Json.string text).toList := by
  induction texts with
  | nil => rw [List.map_nil, prettyItems, List.flatMap_nil]
  | cons text rest ih =>
      rw [List.map_cons, prettyItems, ih, pretty, List.flatMap_cons, List.cons_append,
        List.cons_append, List.append_assoc]

theorem intercalate_cons (separator first : List Char) (rest : List (List Char)) :
    separator.intercalate (first :: rest) = first ++ rest.flatMap (separator ++ ·) := by
  induction rest generalizing first with
  | nil => simp [List.intercalate]
  | cons next rest ih =>
      rw [List.intercalate_cons_cons, ih, List.flatMap_cons, List.append_assoc, List.append_assoc]

theorem to_list_strings (texts : List String) :
    (strings texts).toList = pretty 1 (.array (texts.map .string)) := by
  cases texts with
  | nil =>
      rw [List.map_nil, pretty]
      rfl
  | cons first rest =>
      have lines : (",\n    ".intercalate ((first :: rest).map string)).toList =
          (string first).toList ++ prettyItems 2 (rest.map .string) := by
        rw [String.toList_intercalate, List.map_map, List.map_cons, intercalate_cons,
          pretty_items_strings, List.flatMap_map]
        rfl
      rw [strings, if_neg (by simp), String.toList_append, String.toList_append, lines,
        List.map_cons, pretty, pretty]
      simp only [List.append_assoc]
      rfl

theorem to_list_classification (c : Classification) :
    (classification c).toList = pretty 0 (ofClassification c) := by
  have opening : "\x7b\n  \"publish\": ".toList =
      '\x7b' :: (newline 1 ++ ((string "publish").toList ++ [':', ' '])) := by decide
  have between : ",\n  \"subscribe\": ".toList =
      ',' :: (newline 1 ++ ((string "subscribe").toList ++ [':', ' '])) := by decide
  have closing : "\n\x7d".toList = newline 0 ++ ['\x7d'] := by decide
  unfold classification
  simp only [ofClassification, pretty, prettyFields, String.toList_append, to_list_strings, opening,
    between, closing, Nat.zero_add, List.append_assoc, List.cons_append, List.nil_append]

/-- The text of a classification, with a line break behind it, tells that classification. -/
theorem classification_classification (c : Classification) :
    classification? (classification c ++ "\n") = some c := by
  have read : read? (classification c ++ "\n").toList = some (ofClassification c) := by
    rw [String.toList_append, to_list_classification]
    exact read_pretty 0 _ (lexes_blank (c := '\n') (by decide))
  have publish : field? "publish" (ofClassification c) =
      some (.array (c.publish.map .string)) := by
    simp [field?, ofClassification]
  have subscribe : field? "subscribe" (ofClassification c) =
      some (.array (c.subscribe.map .string)) := by
    simp [field?, ofClassification]
  rw [classification?, read]
  simp only [Option.bind_eq_bind, Option.bind_some, publish, subscribe, strings_strings]

end MessageSchema.Command.Json
