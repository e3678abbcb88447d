import MessageSchema.Yaml.Nesting
import MessageSchema.Yaml.Pen

/-!
The text of a value. Collections are written as blocks, two columns for each level, except that a
sequence under a key of a mapping is not indented; empty collections are written with brackets.
Tags stand before their values.
-/

namespace MessageSchema.Yaml

set_option autoImplicit false

namespace Printer

/-- A key of at most this many bytes may stand on the line of its value. -/
def keyLimit : Nat := 128

def scalarText? : Value → Option String
  | .null => some "null"
  | .bool b => some (if b then "true" else "false")
  | .number n => some n.text
  | _ => none

/-- A tag's name behind its mark, which is not repeated. A null character ends it. -/
def tagBody (tag : Tag) : List Char :=
  let body := match tag.name.toList with | '!' :: rest => rest | chars => chars
  body.takeWhile (· != '\x00')

/-- A tag as it is written. The mark alone is written verbatim. -/
def tagMark (tag : Tag) : List Char :=
  match tagBody tag with
  | [] => ['!', '<', '%', '2', '1', '>']
  | body => '!' :: body.flatMap Pen.tagText

def tagSize (tag : Tag) : Nat := 1 + (String.ofList (tagBody tag)).utf8ByteSize

/-- The bytes of a key that fits on one line, its tags included. -/
def keySize? : Value → Option Nat
  | .string text => if text.toList.any isBreak then none else some text.utf8ByteSize
  | .sequence items => if items.isEmpty then some 0 else none
  | .mapping entries => if entries.isEmpty then some 0 else none
  | .tagged tag value => (keySize? value).map (· + tagSize tag)
  | value => (scalarText? value).map String.utf8ByteSize

def isSimpleKey (key : Value) : Bool := (keySize? key).any (· ≤ keyLimit)

inductive Place where
  | root
  | item
  | entry
  deriving DecidableEq

/-- The column of a block collection that stands in one at `indent`, or at the root. A sequence under
a key stays at the column of the key. -/
def sequenceColumn (indent : Option Nat) (place : Place) (p : Pen) : Nat :=
  match indent with
  | none => 0
  | some column => if place = .entry && !p.indented then column else column + 2

def mappingColumn (indent : Option Nat) : Nat :=
  match indent with
  | none => 0
  | some column => column + 2

def textColumn (indent : Option Nat) : Nat := (indent.getD 0) + 2

mutual

def value (indent : Option Nat) (place : Place) : Value → Pen → Pen
  | .string text, p => p.string (textColumn indent) text.toList
  | .tagged tag inner, p => value indent place inner (p.mark (tagMark tag))
  | .sequence [], p => p.mark ['[', ']']
  | .sequence (first :: rest), p =>
      let column := sequenceColumn indent place p
      items column (first :: rest) p
  | .mapping [], p => p.mark ['\x7b', '\x7d']
  | .mapping (first :: rest), p =>
      entries (mappingColumn indent) (first :: rest) p
  | .null, p => p.plain ['n', 'u', 'l', 'l']
  | .bool b, p => p.plain (if b then "true" else "false").toList
  | .number n, p => p.plain n.text.toList

def items (column : Nat) : List Value → Pen → Pen
  | [], p => p
  | item :: rest, p =>
      items column rest (value (some column) .item item ((p.indentTo column).itemMark '-'))

/-- A key that does not fit on a line has a mark of its own, and so has its value. -/
def entries (column : Nat) : List (Value × Value) → Pen → Pen
  | [], p => p
  | (key, body) :: rest, p =>
      let placed := p.indentTo column
      let announced :=
        if isSimpleKey key then (value (some column) .entry key placed).closeMark [':']
        else
          let written := value (some column) .entry key (placed.itemMark '?')
          (written.indentTo column).itemMark ':'
      entries column rest (value (some column) .entry body announced)

end

end Printer

namespace Value

def written (value : Value) : String :=
  ((Printer.value none .root value Pen.start).indentTo 0).written

def toText (value : Value) : Except Unwritable String :=
  match value.fault? with
  | some reason => .error reason
  | none => .ok value.written

end Value

end MessageSchema.Yaml
