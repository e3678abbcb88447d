import MessageSchema.Yaml.Cursor
import MessageSchema.Yaml.Scalar

/-!
Block scalars: indented lines after a bar, which keeps the line breaks, or an angle bracket, which
folds them. A sign tells whether the breaks at the end are kept, and a digit gives the indentation
when the first line begins with a space.
-/

namespace MessageSchema.Yaml.Block

set_option autoImplicit false

inductive Ending where
  /-- All breaks at the end fall away. -/
  | strip
  /-- The last line keeps its break. -/
  | clip
  /-- Empty lines at the end are kept. -/
  | keep
  deriving DecidableEq

structure Header where
  ending : Ending
  /-- Indentation in addition to that of the parent; zero when the first line decides. -/
  indent : Nat

def ending? : List Char → Option (Ending × List Char)
  | '+' :: rest => some (.keep, rest)
  | '-' :: rest => some (.strip, rest)
  | _ => none

/-- The digit of an indentation, which is never zero. -/
def digit? : List Char → Option (Option Nat × List Char)
  | c :: rest =>
      if c == '0' then none
      else if c.isDigit then some (some (Scalar.digitValue c), rest)
      else some (none, c :: rest)
  | [] => some (none, [])

/-- Reads sign and digit in either order and gives back how many characters they were. -/
def header? (text : List Char) : Option (Header × Nat) :=
  match ending? text with
  | some (ending, rest) => do
      let (indent, _) ← digit? rest
      some (⟨ending, indent.getD 0⟩, if indent.isSome then 2 else 1)
  | none => do
      let (indent, rest) ← digit? text
      match indent with
      | none => some (⟨.clip, 0⟩, 0)
      | some n =>
          match ending? rest with
          | some (ending, _) => some (⟨ending, n⟩, 2)
          | none => some (⟨.clip, n⟩, 1)

/-- Empty lines and the indentation of the line after them. -/
structure Breaks where
  text : List Char
  /-- Widest indentation seen. -/
  widest : Nat
  cursor : Cursor

/-- Skips empty lines. As long as the indentation is unknown (zero) every leading space belongs to
it; a tab in its place is refused. -/
def breaks? (indent : Nat) : Nat → Breaks → Option Breaks
  | 0, b => some b
  | fuel + 1, b =>
      let spaces := (b.cursor.takeWhile (· == ' ')).length
      let skipped := if indent = 0 then spaces else min spaces (indent - b.cursor.column)
      let place := b.cursor.advance skipped
      let widest := max b.widest place.column
      if (indent = 0 || place.column < indent) && place.rest.head? == some '\t' then none
      else if place.onBreak then
        breaks? indent fuel ⟨b.text ++ place.breakText, widest, place.nextLine⟩
      else some ⟨b.text, widest, place⟩

/-- A scalar read so far: its text, the break that ended the last line, the empty lines after it,
and whether the last line began with a blank. -/
structure Reading where
  text : List Char
  lineBreak : List Char
  empty : List Char
  blank : Bool
  cursor : Cursor

/-- The lines of a scalar. Folding joins two lines with a space unless one of them begins with a
blank. -/
def lines? (literal : Bool) (indent : Nat) : Nat → Reading → Option Reading
  | 0, r => some r
  | fuel + 1, r =>
      if r.cursor.column != indent || r.cursor.atEnd then some r
      else do
        let blank := r.cursor.onBlank
        let joint :=
          if !literal && r.lineBreak == ['\n'] && !r.blank && !blank then
            if r.empty.isEmpty then [' '] else []
          else r.lineBreak
        let line := r.cursor.takeWhile fun c => !isBreak c
        let after := r.cursor.advance line.length
        let found ← breaks? indent after.fuel ⟨[], 0, after.nextLine⟩
        lines? literal indent fuel
          ⟨r.text ++ joint ++ r.empty ++ line, after.breakText, found.text, blank, found.cursor⟩

/-- Reads a block scalar whose mark is at the cursor. `parent` is the column of the enclosing
collection, if there is one. -/
def read? (literal : Bool) (parent : Option Nat) (c : Cursor) : Option (List Char × Cursor) := do
  let opened := c.advance 1
  let (header, length) ← header? opened.rest
  let spaced := (opened.advance length).dropWhile isBlank
  let commented := if spaced.rest.head? == some '#' then spaced.toBreak else spaced
  if !commented.onBreakOrEnd then none
  else
    let body := commented.nextLine
    let given := if header.indent = 0 then 0 else parent.getD 0 + header.indent
    let found ← breaks? given body.fuel ⟨[], 0, body⟩
    let least := match parent with | none => 1 | some column => column + 1
    let indent := if given = 0 then max found.widest least else given
    let r ← lines? literal indent found.cursor.fuel ⟨[], [], found.text, false, found.cursor⟩
    let text :=
      match header.ending with
      | .strip => r.text
      | .clip => r.text ++ r.lineBreak
      | .keep => r.text ++ r.lineBreak ++ r.empty
    some (text, r.cursor)

end MessageSchema.Yaml.Block
