import MessageSchema.Proofs.HandlerText

/-!
The names that a handler module writes down as paths. Each handled message is named in its handler
type, in its arm and where its data is decoded, and always behind the module of the models or behind
the enumeration. A path ends in a name that an item can have, so the module is well-formed only when
every handled message has such a name. The test for identifiers lets the underscore and the keywords
of the language pass, and it is only by these that a path goes wrong.
-/

namespace MessageSchema.Handlers

set_option autoImplicit false

open Text

/-- The message whose data the handlers of a type are given. -/
def given? (line : String) : Option String := do
  let type ← wordAfter "pub type " ' ' line
  wordAfter ("pub type " ++ type ++ " = fn(models::") ')' line

def decoded? : String → Option String := wordAfter "                    let message: models::" ' '

/-- The last names of the paths in some lines: of the models that handlers are given, of those that
are decoded, and of the names in the enumeration. -/
def pathNames (enumName : String) (lines : List String) : List String :=
  lines.filterMap given? ++ lines.filterMap decoded? ++ lines.filterMap (matched? enumName)

theorem not_mem_name {name : String} {c : Char} (ident : isIdentifier name = true)
    (other : isIdentChar c = false) : c ∉ name.toList := by
  intro member
  rw [is_ident_char_of_mem_is_ident_word ident c member] at other
  cases other

theorem filter_map_named {line : String → String} {word : String → Option String}
    {names : List String} (each : ∀ name ∈ names, word (line name) = some name) :
    (names.map line).filterMap word = names := by
  rw [List.filterMap_map]
  exact (List.filterMap_eq_map_iff_forall_eq_some.2 each).trans (List.map_id names)

namespace Options

variable (o : Options) (c : Classification)

theorem given_type_line {name : String} (ident : isIdentifier name = true) :
    given? (o.typeLine name) = some name := by
  have first : o.typeLine name = "pub type " ++ o.handlerType name ++
      (" = fn(models::" ++ name ++ ")" ++ o.returned ++ ";") := by
    simp only [typeLine, String.append_assoc]
  have second : o.typeLine name = "pub type " ++ o.handlerType name ++ " = fn(models::" ++ name ++
      (")" ++ o.returned ++ ";") := by
    simp only [typeLine, String.append_assoc]
  have typed : wordAfter "pub type " ' ' (o.typeLine name) = some (o.handlerType name) := by
    rw [first]
    exact word_after_append (o.not_mem_handler_type ident (by decide)) (by simp [String.toList_append])
  have own : wordAfter ("pub type " ++ o.handlerType name ++ " = fn(models::") ')'
      (o.typeLine name) = some name := by
    rw [second]
    exact word_after_append (not_mem_name ident (by decide)) (by simp [String.toList_append])
  simp only [given?, typed, own, Option.bind_eq_bind, Option.bind_some]

theorem filter_map_given : (o.lines c).filterMap given? = handled c := by
  have others : ∀ line, starts "pub type " line = false → given? line = none := by
    intro line other
    simp only [given?, word_after_eq_none other, Option.bind_eq_bind, Option.bind_none]
  rw [← filter_map_filter others, o.filter_types c]
  exact filter_map_named fun name member => o.given_type_line (is_identifier_of_mem_handled member)

def decodeLine (name : String) : String :=
  "                    let message: models::" ++ name ++ " = from_slice(&data)?;"

theorem filter_decoded :
    (o.lines c).filter (starts "                    let message: models::") =
      (handled c).map decodeLine := by
  rw [← Test.opening_holds]
  exact Test.map_of_arms _ o (Readings.decoded readings) c fun _ => rfl

theorem filter_map_decoded : (o.lines c).filterMap decoded? = handled c := by
  have others : ∀ line, starts "                    let message: models::" line = false →
      decoded? line = none := fun _ other => word_after_eq_none other
  rw [← filter_map_filter others, o.filter_decoded c]
  apply filter_map_named
  intro name member
  exact word_after_append (not_mem_name (is_identifier_of_mem_handled member) (by decide)) (by decide)

theorem filter_map_matched : (o.lines c).filterMap (matched? o.enumName) = handled c := by
  have others : ∀ line, starts "            models::" line = false →
      matched? o.enumName line = none := by
    intro line other
    rw [matched?, String.append_assoc]
    exact word_after_of_starts _ other
  rw [← filter_map_filter others, o.filter_arms c]
  exact filter_map_named fun name member => o.matched_arm_line (is_identifier_of_mem_handled member)

theorem path_names_lines :
    pathNames o.enumName (o.lines c) = handled c ++ handled c ++ handled c := by
  rw [pathNames, o.filter_map_given c, o.filter_map_decoded c, o.filter_map_matched c]

end Options

theorem is_identifier_of_mem_keywords : ∀ word ∈ keywords, isIdentifier word = true := by
  decide

/-- The words that pass for identifiers and are no names of items. -/
theorem is_identifier_of_not_name {word : String} (blocked : word = "_" ∨ word ∈ keywords) :
    isIdentifier word = true := by
  rcases blocked with rfl | keyword
  · decide
  · exact is_identifier_of_mem_keywords word keyword

theorem mem_handled_iff {c : Classification} {name : String} :
    name ∈ handled c ↔ name ∈ c.subscribe ∧ IsAsciiIdentifier name := by
  rw [handled, List.mem_filter, is_identifier_iff]

theorem mem_skipped_iff {c : Classification} {name : String} :
    name ∈ skipped c ↔ name ∈ c.subscribe ∧ ¬IsAsciiIdentifier name := by
  rw [skipped, List.mem_filter, Bool.not_eq_true', ← is_identifier_iff, Bool.not_eq_true]

theorem handled_named_iff {c : Classification} :
    (∀ name ∈ handled c, IsItemName name) ↔
      ∀ name ∈ c.subscribe, name ≠ "_" ∧ name ∉ keywords := by
  constructor
  · intro named name member
    rw [← not_or]
    intro blocked
    have ident := (is_identifier_iff name).1 (is_identifier_of_not_name blocked)
    have free := named name (mem_handled_iff.2 ⟨member, ident⟩)
    rcases blocked with blank | keyword
    · exact free.notBlank blank
    · exact free.notKeyword keyword
  · intro apart name member
    rcases mem_handled_iff.1 member with ⟨known, ident⟩
    exact (is_item_name_iff ident).2 (apart name known)

/-- A message is handled when its name is an identifier by its characters. Names of items always
are; the other way the underscore and the keywords are handled too. In the text of the module the
paths end in the names of the handled messages, so that they are all well-formed just when no message
from the server is named by the underscore or by a keyword. -/
theorem paths_of_text (o : Options) (c : Classification) (path : Unbroken o.modelsPath)
    (enum : Unbroken o.enumName) :
    (∀ name, name ∈ handled c ↔ name ∈ c.subscribe ∧ IsAsciiIdentifier name) ∧
    (∀ name, name ∈ skipped c ↔ name ∈ c.subscribe ∧ ¬IsAsciiIdentifier name) ∧
    (∀ name ∈ c.subscribe, IsItemName name → name ∈ handled c) ∧
    (∀ name ∈ handled c, IsItemName name ↔ name ≠ "_" ∧ name ∉ keywords) ∧
    pathNames o.enumName (textLines (render o c)) = handled c ++ handled c ++ handled c ∧
    ((∀ name ∈ pathNames o.enumName (textLines (render o c)), IsItemName name) ↔
      ∀ name ∈ c.subscribe, name ≠ "_" ∧ name ∉ keywords) := by
  have names : pathNames o.enumName (textLines (render o c)) =
      handled c ++ handled c ++ handled c := by
    rw [text_lines_render o c path enum, o.path_names_lines c]
  refine ⟨fun _ => mem_handled_iff, fun _ => mem_skipped_iff, ?_, ?_, names, ?_⟩
  · intro name member free
    exact mem_handled_iff.2 ⟨member, free.ident⟩
  · intro name member
    exact is_item_name_iff (mem_handled_iff.1 member).2
  · rw [names, ← handled_named_iff]
    simp only [List.mem_append, or_self]

/-- A module with good names only. -/
theorem paths_of_text_named :
    Unbroken "crate::models" ∧ Unbroken "Names" ∧
    ∀ name ∈ pathNames "Names" (textLines (render ⟨"crate::models", "Names", false⟩
      ⟨[], ["AudioAdded", "end-of-text", "Info"]⟩)), IsItemName name := by
  have path : Unbroken "crate::models" := by decide
  have enum : Unbroken "Names" := by decide
  have settled := paths_of_text ⟨"crate::models", "Names", false⟩
    ⟨[], ["AudioAdded", "end-of-text", "Info"]⟩ path enum
  exact ⟨path, enum, settled.2.2.2.2.2.2 (by decide)⟩

/-- Messages may be named by a keyword or by the underscore. They get slots, and the paths of the
module end in these words. -/
theorem paths_blocked :
    handled ⟨[], ["type", "_"]⟩ = ["type", "_"] ∧ skipped ⟨[], ["type", "_"]⟩ = [] ∧
    "type" ∈ keywords ∧ ¬IsItemName "type" ∧ ¬IsItemName "_" ∧
    pathNames "Messages" (textLines (render {} ⟨[], ["type", "_"]⟩)) =
      ["type", "_", "type", "_", "type", "_"] ∧
    ¬∀ c : Classification, ∀ name ∈ handled c, IsItemName name := by
  have slots : handled ⟨[], ["type", "_"]⟩ = ["type", "_"] := by decide
  have keyword : "type" ∈ keywords := by decide
  have unnamed : ¬IsItemName "type" := fun free => free.notKeyword keyword
  refine ⟨slots, by decide, keyword, unnamed, fun free => free.notBlank rfl, ?_, ?_⟩
  · rw [text_lines_render {} _ (by decide) (by decide), Options.path_names_lines {}, slots]
    rfl
  · intro named
    apply unnamed
    apply named ⟨[], ["type", "_"]⟩
    rw [slots]
    exact List.mem_cons_self

end MessageSchema.Handlers
