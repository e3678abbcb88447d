import MessageSchema.Proofs.HandlerSlots

/-!
Lines of a text, and how what a line is for can be told from how it begins. Of a line that is made
from a name the first words are known without the name. These are its shape, and a test of lines that
asks for the first words only is settled by the shape. A list of shapes then tells which lines of a
list the test picks out, whatever the names are.
-/

namespace MessageSchema

set_option autoImplicit false

namespace Text

/-- The lines of a text. A line break at its end opens no further line. -/
def textLines (text : String) : List String :=
  let pieces := (text.toList.splitOn '\n').map String.ofList
  if pieces.getLast? = some "" then pieces.dropLast else pieces

def Unbroken (text : String) : Prop := '\n' ∉ text.toList

instance (text : String) : Decidable (Unbroken text) := inferInstanceAs (Decidable (_ ∉ _))

theorem Unbroken.append {first second : String} (whole : Unbroken first) (whole' : Unbroken second) :
    Unbroken (first ++ second) := by
  unfold Unbroken
  rw [String.toList_append, List.mem_append, not_or]
  exact ⟨whole, whole'⟩

theorem unbroken_of_list {chars : List Char} (free : chars.contains '\n' = false) :
    Unbroken (String.ofList chars) := by
  rw [Unbroken, String.toList_ofList]
  intro member
  rw [List.contains_iff_mem.2 member] at free
  cases free

theorem unbroken_of_is_ident_char {text : String} (ident : ∀ c ∈ text.toList, isIdentChar c = true) :
    Unbroken text := by
  intro member
  exact absurd (ident _ member) (by decide)

theorem split_on_join {lines : List String} (unbroken : ∀ line ∈ lines, Unbroken line) :
    ((String.join (lines.map (· ++ "\n"))).toList.splitOn '\n').map String.ofList = lines ++ [""] := by
  induction lines with
  | nil => rfl
  | cons line rest ih =>
      have others := ih fun other member => unbroken other (List.mem_cons_of_mem _ member)
      have chars : (String.join ((line :: rest).map (· ++ "\n"))).toList =
          line.toList ++ '\n' :: (String.join (rest.map (· ++ "\n"))).toList := by
        rw [List.map_cons, String.join_cons, String.toList_append, String.toList_append,
          List.append_assoc]
        rfl
      rw [chars, List.splitOn_append_cons_self_of_not_mem (unbroken line List.mem_cons_self),
        List.map_cons, String.ofList_toList, others, List.cons_append]

/-- Texts without line breaks that are written one to a line are the lines of what is written. -/
theorem text_lines_join {lines : List String} (unbroken : ∀ line ∈ lines, Unbroken line) :
    textLines (String.join (lines.map (· ++ "\n"))) = lines := by
  simp only [textLines, split_on_join unbroken, List.getLast?_concat, if_true, List.dropLast_concat]

def starts (opening line : String) : Bool := opening.toList.isPrefixOf line.toList

/-- A line without the blanks before its first word. -/
def unindented (line : String) : String := String.ofList (line.toList.dropWhile (· == ' '))

end Text

namespace Handlers

open Text

/-! ### What is known of a line -/

/-- What is known of a line before its names are: the whole of it, or how it begins. -/
inductive Shape where
  | whole (text : String)
  | front (text : String)

namespace Shape

def Admits : Shape → String → Prop
  | whole text, line => line = text
  | front text, line => Begins text line

def starts? (opening : String) : Shape → Option Bool
  | whole text => some (starts opening text)
  | front text =>
      if starts opening text then some true else if starts text opening then none else some false

def unindented : Shape → Shape
  | whole text => whole (Text.unindented text)
  | front text => front (Text.unindented text)

theorem starts_of_admits {opening line : String} {shape : Shape} {answer : Bool}
    (admits : shape.Admits line) (told : shape.starts? opening = some answer) :
    starts opening line = answer := by
  cases shape with
  | whole text =>
      have same : line = text := admits
      rw [same]
      exact Option.some.inj told
  | front text =>
      rcases admits with ⟨rest, rfl⟩
      simp only [starts?, starts, List.isPrefixOf_iff_prefix] at told
      split at told
      · next known =>
          rw [← Option.some.inj told, starts, List.isPrefixOf_iff_prefix, String.toList_append]
          exact known.trans (List.prefix_append _ _)
      · next unknown =>
          split at told
          · cases told
          · next apart =>
              rw [← Option.some.inj told, starts, ← Bool.not_eq_true, List.isPrefixOf_iff_prefix,
                String.toList_append]
              intro begins
              rcases List.prefix_or_prefix_of_prefix begins (List.prefix_append _ _) with short | long
              · exact unknown short
              · exact apart long

theorem Admits.unindented {shape : Shape} {line : String} (admits : shape.Admits line) :
    shape.unindented.Admits (Text.unindented line) := by
  cases shape with
  | whole text => exact congrArg Text.unindented admits
  | front text =>
      rcases admits with ⟨rest, rfl⟩
      simp only [Shape.unindented, Admits, Text.unindented, String.toList_append,
        List.dropWhile_append]
      split
      · next blank =>
          rw [List.isEmpty_iff.1 blank]
          exact ⟨_, (String.empty_append).symm⟩
      · rw [String.ofList_append]
        exact begins_append _ _

end Shape

/-- A test of lines that can be settled by their shape. -/
structure Test where
  holds : String → Bool
  settled? : Shape → Option Bool
  sound : ∀ shape line answer, shape.Admits line → settled? shape = some answer → holds line = answer

namespace Test

def opening (text : String) : Test where
  holds := starts text
  settled? := Shape.starts? text
  sound := fun _ _ _ admits told => Shape.starts_of_admits admits told

def word (text : String) : Test where
  holds := fun line => starts text (unindented line)
  settled? := fun shape => shape.unindented.starts? text
  sound := fun _ _ _ admits told => Shape.starts_of_admits admits.unindented told

def either (t u : Test) : Test where
  holds := fun line => t.holds line || u.holds line
  settled? := fun shape => (t.settled? shape).bind fun first => (u.settled? shape).map (first || ·)
  sound := by
    intro shape line answer admits told
    rcases Option.bind_eq_some_iff.1 told with ⟨first, settled, more⟩
    rcases Option.map_eq_some_iff.1 more with ⟨second, settled', result⟩
    rw [t.sound shape line first admits settled, u.sound shape line second admits settled', result]

theorem opening_holds (text : String) : (opening text).holds = starts text := rfl

theorem settled_either {t u : Test} {shape : Shape} {first second : Bool}
    (settled : t.settled? shape = some first) (settled' : u.settled? shape = some second) :
    (t.either u).settled? shape = some (first || second) := by
  simp only [either, settled, settled', Option.bind_some, Option.map_some]

/-! What a test makes of a shape is decided on characters. -/

theorem opening_whole (front text : List Char) :
    (opening (String.ofList front)).settled? (.whole (String.ofList text)) =
      some (front.isPrefixOf text) := by
  simp [opening, Shape.starts?, starts]

theorem opening_front (front text : List Char) :
    (opening (String.ofList front)).settled? (.front (String.ofList text)) =
      if front.isPrefixOf text then some true
      else if text.isPrefixOf front then none else some false := by
  simp [opening, Shape.starts?, starts]

theorem word_whole (front text : List Char) :
    (word (String.ofList front)).settled? (.whole (String.ofList text)) =
      some (front.isPrefixOf (text.dropWhile (· == ' '))) := by
  simp [word, Shape.unindented, Shape.starts?, starts, Text.unindented]

theorem word_front (front text : List Char) :
    (word (String.ofList front)).settled? (.front (String.ofList text)) =
      if front.isPrefixOf (text.dropWhile (· == ' ')) then some true
      else if (text.dropWhile (· == ' ')).isPrefixOf front then none else some false := by
  simp [word, Shape.unindented, Shape.starts?, starts, Text.unindented]

def kept (answers : List Bool) (lines : List String) : List String :=
  ((answers.zip lines).filter (·.1)).map (·.2)

theorem kept_silent (count : Nat) (lines : List String) :
    kept (List.replicate count false) lines = [] := by
  induction lines generalizing count with
  | nil => rw [kept, List.zip_nil_right, List.filter_nil, List.map_nil]
  | cons line rest ih =>
      cases count with
      | zero => rfl
      | succ count => exact ih count

theorem kept_none (line : String) : kept [false] [line] = [] := rfl

variable (t : Test)

abbrev Tells (shapes : List Shape) (answers : List Bool) : Prop :=
  List.Forall₂ (fun shape answer => t.settled? shape = some answer) shapes answers

theorem filter_of_shapes {shapes : List Shape} {lines : List String} {answers : List Bool}
    (fit : List.Forall₂ Shape.Admits shapes lines) (tells : t.Tells shapes answers) :
    lines.filter t.holds = kept answers lines := by
  induction tells generalizing lines with
  | nil =>
      cases fit
      rfl
  | @cons shape answer _ _ settled _ ih =>
      cases fit with
      | @cons _ line _ _ admits others =>
          have here := t.sound _ _ _ admits settled
          cases answer with
          | false =>
              rw [List.filter_cons_of_neg (by rw [here]; decide), ih others]
              rfl
          | true =>
              rw [List.filter_cons_of_pos here, ih others]
              rfl

theorem filter_eq_nil_of_shapes {shapes : List Shape} {lines : List String}
    (within : ∀ line ∈ lines, ∃ shape ∈ shapes, shape.Admits line)
    (told : ∀ shape ∈ shapes, t.settled? shape = some false) : lines.filter t.holds = [] := by
  rw [List.filter_eq_nil_iff]
  intro line member
  rcases within line member with ⟨shape, known, admits⟩
  rw [t.sound shape line false admits (told shape known)]
  decide

end Test

end Handlers

end MessageSchema
