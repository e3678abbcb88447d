import MessageSchema.Yaml.ScalarStyle

/-!
A pen that writes a document. It remembers the column and two facts about what stands before it on
the line, because they decide whether the next mark needs a space and whether a nested collection
may begin on the same line.
-/

namespace MessageSchema.Yaml

set_option autoImplicit false

structure Pen where
  written : String
  column : Nat
  /-- The pen stands after blank space or at the start of a line. -/
  afterBlank : Bool
  /-- Nothing but indentation and marks of collections stands on the line. -/
  indented : Bool

namespace Pen

def start : Pen := ⟨"", 0, true, true⟩

def put (p : Pen) (text : List Char) : Pen :=
  { p with written := p.written ++ String.ofList text, column := p.column + text.length }

def breakLine (p : Pen) : Pen := { p with written := p.written.push '\n', column := 0 }

/-- A separator character breaks the line just as a line feed does. -/
def putBreak (p : Pen) (c : Char) : Pen := { p with written := p.written.push c, column := 0 }

/-- Writes a mark, with a space before it unless there is one. -/
def mark (p : Pen) (text : List Char) : Pen :=
  let spaced := if p.afterBlank then p else p.put [' ']
  { spaced.put text with afterBlank := false, indented := false }

/-- Writes a mark right behind what stands there. -/
def closeMark (p : Pen) (text : List Char) : Pen :=
  { p.put text with afterBlank := false, indented := false }

/-- Writes the mark of an item or of a key, after which a collection may begin on the line. -/
def itemMark (p : Pen) (c : Char) : Pen :=
  let spaced := if p.afterBlank then p else p.put [' ']
  { spaced.put [c] with afterBlank := false }

/-- Moves to a column, on a new line unless the pen stands at or before that column with nothing
but indentation on the line. -/
def indentTo (p : Pen) (column : Nat) : Pen :=
  let fresh := p.indented && (p.column < column || (p.column == column && p.afterBlank))
  let q := if fresh then p else p.breakLine
  { q.put (List.replicate (column - q.column) ' ') with afterBlank := true, indented := true }

def plain (p : Pen) (text : List Char) : Pen := p.mark text

/-- The characters between single quotes. A run of line breaks begins with an extra one if it begins
with a line feed, and the line after it is indented. -/
def singleBody (column : Nat) : Bool → List Char → Pen → Pen
  | afterBreak, [], p => if afterBreak then p.indentTo column else p
  | afterBreak, c :: rest, p =>
      if isBreak c then
        let opened := if !afterBreak && c == '\n' then p.breakLine else p
        singleBody column true rest { opened.putBreak c with indented := true }
      else
        let placed := if afterBreak then p.indentTo column else p
        let text := if c == '\'' then ['\'', '\''] else [c]
        singleBody column false rest { placed.put text with indented := false }

def single (p : Pen) (column : Nat) (text : List Char) : Pen :=
  (singleBody column false text (p.mark ['\''])).closeMark ['\'']

def hexDigits (width n : Nat) : List Char :=
  let digits := (Nat.toDigits 16 n).map Char.toUpper
  List.replicate (width - digits.length) '0' ++ digits

def doubleText (c : Char) : List Char :=
  if c == '"' then ['\\', '"']
  else if c == '\\' then ['\\', '\\']
  else if ScalarStyle.isPrintable c && !isBreak c then [c]
  else
    match c.toNat with
    | 0x00 => ['\\', '0']
    | 0x07 => ['\\', 'a']
    | 0x08 => ['\\', 'b']
    | 0x09 => ['\\', 't']
    | 0x0A => ['\\', 'n']
    | 0x0B => ['\\', 'v']
    | 0x0C => ['\\', 'f']
    | 0x0D => ['\\', 'r']
    | 0x1B => ['\\', 'e']
    | 0x85 => ['\\', 'N']
    | 0x2028 => ['\\', 'L']
    | 0x2029 => ['\\', 'P']
    | n =>
        if n ≤ 0xFF then ['\\', 'x'] ++ hexDigits 2 n
        else if n ≤ 0xFFFF then ['\\', 'u'] ++ hexDigits 4 n
        else ['\\', 'U'] ++ hexDigits 8 n

def double (p : Pen) (text : List Char) : Pen :=
  ((p.mark ['"']).put (text.flatMap doubleText)).closeMark ['"']

def literalBody (column : Nat) : Bool → List Char → Pen → Pen
  | _, [], p => p
  | afterBreak, c :: rest, p =>
      if isBreak c then literalBody column true rest { p.putBreak c with indented := true }
      else
        let placed := if afterBreak then p.indentTo column else p
        literalBody column false rest { placed.put [c] with indented := false }

/-- The indentation is given when the first line begins with a space or is empty. -/
def literalIndent (text : List Char) : List Char :=
  if text.head?.any ScalarStyle.isSpaceOrBreak then ['2'] else []

/-- A text without a break at the end strips the one that the block has; a text that is a single
break or ends with two keeps them all. -/
def literalEnding (text : List Char) : List Char :=
  match text.reverse with
  | [] => ['-']
  | last :: before =>
      if !isBreak last then ['-']
      else
        match before with
        | [] => ['+']
        | c :: _ => if isBreak c then ['+'] else []

def literal (p : Pen) (column : Nat) (text : List Char) : Pen :=
  let header := (p.mark (['|'] ++ literalIndent text ++ literalEnding text)).breakLine
  literalBody column true text { header with afterBlank := true, indented := true }

/-- Writes a string whose further lines stand at a column. -/
def string (p : Pen) (column : Nat) (text : List Char) : Pen :=
  match ScalarStyle.ofText text with
  | .plain => p.plain text
  | .single => p.single column text
  | .double => p.double text
  | .literal => p.literal column text

def isTagChar (c : Char) : Bool := isNameChar c || ";/?:@&=+$,_.~*'()[]".toList.contains c

/-- A character of a tag, or the octets of its encoding. -/
def tagText (c : Char) : List Char :=
  if isTagChar c then [c]
  else (String.singleton c).toUTF8.toList.flatMap fun octet => '%' :: hexDigits 2 octet.toNat

end Pen

end MessageSchema.Yaml
