/-!
A place in a text: what is left to read, and the line and column where it stands. Columns decide the
structure of a block document, and the distance from the start limits how long a key may be.
-/

namespace MessageSchema.Yaml

set_option autoImplicit false

def isBlank (c : Char) : Bool := c == ' ' || c == '\t'

/-- Line feed, carriage return, next line, and the line and paragraph separators. -/
def isBreak (c : Char) : Bool :=
  c == '\n' || c == '\r' || c == '\u0085' || c == '\u2028' || c == '\u2029'

def isBlankOrBreak (c : Char) : Bool := isBlank c || isBreak c

/-- Whether a text ends here or its next character is one of a class. -/
def endOr (test : Char → Bool) : List Char → Bool
  | [] => true
  | c :: _ => test c

def isNameChar (c : Char) : Bool := c.isAlphanum || c == '-' || c == '_'

def isDocumentChar (c : Char) : Bool :=
  let n := c.toNat
  n == 0x09 || n == 0x0A || n == 0x0D || (0x20 ≤ n && n ≤ 0x7E) || n == 0x85 ||
    (0xA0 ≤ n && n ≤ 0xD7FF) || (0xE000 ≤ n && n ≤ 0xFFFD) || 0x10000 ≤ n

structure Cursor where
  rest : List Char
  index : Nat
  line : Nat
  column : Nat

namespace Cursor

def start (text : List Char) : Cursor := ⟨text, 0, 0, 0⟩

/-- Past characters of the same line. -/
def advance (c : Cursor) (count : Nat) : Cursor :=
  { c with rest := c.rest.drop count, index := c.index + count, column := c.column + count }

/-- Past one line break, where a carriage return and the line feed after it are one. -/
def nextLine (c : Cursor) : Cursor :=
  match c.rest with
  | '\r' :: '\n' :: rest => ⟨rest, c.index + 2, c.line + 1, 0⟩
  | _ :: rest => ⟨rest, c.index + 1, c.line + 1, 0⟩
  | [] => c

/-- The text of the line break at the cursor: a line feed, except for the two separators. -/
def breakText (c : Cursor) : List Char :=
  match c.rest with
  | '\u2028' :: _ => ['\u2028']
  | '\u2029' :: _ => ['\u2029']
  | _ :: _ => ['\n']
  | [] => []

def takeWhile (c : Cursor) (test : Char → Bool) : List Char := c.rest.takeWhile test

def dropWhile (c : Cursor) (test : Char → Bool) : Cursor :=
  c.advance (c.rest.takeWhile test).length

theorem rest_drop_while (c : Cursor) (test : Char → Bool) :
    (c.dropWhile test).rest = c.rest.dropWhile test := by
  have dropped :
      (c.rest.takeWhile test ++ c.rest.dropWhile test).drop (c.rest.takeWhile test).length =
        c.rest.dropWhile test := List.drop_left
  rwa [List.takeWhile_append_dropWhile] at dropped

def atEnd (c : Cursor) : Bool := c.rest.isEmpty

def onBreak (c : Cursor) : Bool := c.rest.head?.any isBreak

def onBlank (c : Cursor) : Bool := c.rest.head?.any isBlank

def onBreakOrEnd (c : Cursor) : Bool := endOr isBreak c.rest

def onBlankOrEnd (c : Cursor) : Bool := endOr isBlankOrBreak c.rest

def toBreak (c : Cursor) : Cursor := c.dropWhile fun x => !isBreak x

/-- Three hyphens or three points that stand alone at the start of a line end a document. -/
def onDocumentMark (c : Cursor) : Bool :=
  c.column == 0 &&
    match c.rest with
    | '-' :: '-' :: '-' :: rest => endOr isBlankOrBreak rest
    | '.' :: '.' :: '.' :: rest => endOr isBlankOrBreak rest
    | _ => false

/-- An upper bound for the steps that read on from here. -/
def fuel (c : Cursor) : Nat := c.rest.length + 1

end Cursor

end MessageSchema.Yaml
