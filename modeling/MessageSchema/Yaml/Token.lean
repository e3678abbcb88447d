import MessageSchema.Yaml.Plain
import MessageSchema.Yaml.Quoted
import MessageSchema.Yaml.Block
import MessageSchema.Yaml.TagText

/-!
The tokens of a document. Indentation becomes explicit: every block collection has a token where it
opens and one where it closes. A key is recognised by the colon behind it, so the token that
announces it is put in afterwards, in front of what has been read since the key began.
-/

namespace MessageSchema.Yaml

set_option autoImplicit false

inductive Token where
  | version (major minor : Nat)
  | handle (name : String) (replacement : TagText.Spelling)
  | documentStart
  | documentEnd
  | blockSequence
  | blockMapping
  | blockEnd
  | flowSequence
  | flowSequenceEnd
  | flowMapping
  | flowMappingEnd
  | item
  | comma
  | key
  | value
  | anchor (name : String)
  | aliasOf (name : String)
  | tag (written : TagText.Written)
  | scalar (plain : Bool) (text : String)
  deriving DecidableEq

/-- A place where a key may have begun: the number of tokens before it, and its position. A key at
the indentation of its block must turn out to be one. -/
structure Candidate where
  required : Bool
  place : Nat
  index : Nat
  line : Nat
  column : Nat

/-- A key is written on one line and within 1024 characters. -/
def Candidate.isPast (candidate : Candidate) (c : Cursor) : Bool :=
  candidate.line < c.line || candidate.index + 1024 < c.index

/-- Tokens read so far, and what decides about the next one: the columns of the open block
collections, the possible key on this level of brackets and on the levels outside, and whether a key
may begin here. -/
structure Scan where
  cursor : Cursor
  tokens : Array Token
  indents : List Nat
  candidate : Option Candidate
  outer : List (Option Candidate)
  keyAllowed : Bool

namespace Scan

def start (text : List Char) : Scan := ⟨Cursor.start text, #[], [], none, [], true⟩

def inFlow (s : Scan) : Bool := !s.outer.isEmpty

def isDeeper (s : Scan) (column : Nat) : Bool :=
  match s.indents with
  | [] => true
  | indent :: _ => indent < column

def emit (s : Scan) (token : Token) : Scan := { s with tokens := s.tokens.push token }

def emitMark (s : Scan) (token : Token) (length : Nat) : Scan :=
  { s with tokens := s.tokens.push token, cursor := s.cursor.advance length }

/-- A key that had to come and did not is an error; any other possibility just lapses. -/
def lapse? (candidate : Option Candidate) : Option (Option Candidate) :=
  if candidate.any (·.required) then none else some none

def dropCandidate? (s : Scan) : Option Scan :=
  (lapse? s.candidate).map fun candidate => { s with candidate := candidate }

def dropPast? (s : Scan) : Option Scan := do
  let settle (candidate : Option Candidate) : Option (Option Candidate) :=
    if candidate.any (·.isPast s.cursor) then lapse? candidate else some candidate
  let candidate ← settle s.candidate
  let outer ← s.outer.mapM settle
  some { s with candidate := candidate, outer := outer }

def noteCandidate? (s : Scan) : Option Scan :=
  if !s.keyAllowed then some s
  else do
    let s ← s.dropCandidate?
    let c := s.cursor
    let required := !s.inFlow && s.indents.head? == some c.column
    some { s with candidate := some ⟨required, s.tokens.size, c.index, c.line, c.column⟩ }

/-- Opens a block collection at a column, unless one is open there. -/
def openBlock (s : Scan) (column place : Nat) (token : Token) : Scan :=
  if s.inFlow || !s.isDeeper column then s
  else
    { s with
      indents := column :: s.indents, tokens := s.tokens.insertIdxIfInBounds place token }

def deeperThan (column : Nat) (indents : List Nat) : List Nat :=
  indents.takeWhile fun indent => column < indent

def closeBlocks (s : Scan) (column : Nat) : Scan :=
  if s.inFlow then s
  else
    let closing := deeperThan column s.indents
    { s with
      indents := s.indents.drop closing.length
      tokens := s.tokens ++ (closing.map fun _ => Token.blockEnd).toArray }

def closeAllBlocks (s : Scan) : Scan :=
  if s.inFlow then s
  else
    { s with indents := [], tokens := s.tokens ++ (s.indents.map fun _ => Token.blockEnd).toArray }

/-- Skips blanks, comments and line breaks. A byte order mark may begin a line and takes a column of
it. A tab may separate tokens, but not indent a line. -/
def skipBlank : Nat → Scan → Scan
  | 0, s => s
  | fuel + 1, s =>
      let marked :=
        if s.cursor.column == 0 && s.cursor.rest.head? == some '\ufeff' then s.cursor.advance 1
        else s.cursor
      let tabs := s.inFlow || !s.keyAllowed
      let spaced := marked.dropWhile fun c => c == ' ' || (tabs && c == '\t')
      let after := if spaced.rest.head? == some '#' then spaced.toBreak else spaced
      if after.onBreak then
        skipBlank fuel
          { s with cursor := after.nextLine, keyAllowed := s.keyAllowed || !s.inFlow }
      else { s with cursor := after }

/-- Nothing but a comment may follow on the line. -/
def endLine? (c : Cursor) : Option Cursor :=
  let spaced := c.dropWhile isBlank
  let after := if spaced.rest.head? == some '#' then spaced.toBreak else spaced
  if after.onBreak then some after.nextLine
  else if after.atEnd then some after
  else none

/-- The number of a version has at most nine digits. -/
def versionNumber? (c : Cursor) : Option (Nat × Cursor) := do
  let digits := c.takeWhile (·.isDigit)
  if 9 < digits.length then none
  else
    let n ← Scalar.natural? 10 digits
    some (n, c.advance digits.length)

def versionDirective? (c : Cursor) : Option (Token × Cursor) := do
  let (major, afterMajor) ← versionNumber? (c.dropWhile isBlank)
  if afterMajor.rest.head? != some '.' then none
  else
    let (minor, after) ← versionNumber? (afterMajor.advance 1)
    some (.version major minor, after)

def handleDirective? (c : Cursor) : Option (Token × Cursor) := do
  let spaced := c.dropWhile isBlank
  let handle ← TagText.handle? spaced.rest
  let after := spaced.advance handle.length
  if !(TagText.isClosed handle || handle == ['!']) || !after.onBlank then none
  else
    let place := after.dropWhile isBlank
    let uri ← TagText.uri? true place.fuel place.rest
    let rest := place.advance uri.length
    if uri.length = 0 || !rest.onBlankOrEnd then none
    else some (.handle (String.ofList handle) (TagText.upToNull uri.spelling), rest)

def directive? (s : Scan) : Option Scan := do
  let s ← s.closeAllBlocks.dropCandidate?
  let opened := s.cursor.advance 1
  let name := opened.takeWhile isNameChar
  let after := opened.advance name.length
  if !after.onBlankOrEnd then none
  else
    let (token, rest) ←
      if name == "YAML".toList then versionDirective? after
      else if name == "TAG".toList then handleDirective? after
      else none
    let next ← endLine? rest
    some ({ s with cursor := next, keyAllowed := false }.emit token)

def documentMark? (s : Scan) : Option Scan := do
  let s ← s.closeAllBlocks.dropCandidate?
  let token := if s.cursor.rest.head? == some '-' then Token.documentStart else Token.documentEnd
  some ({ s with keyAllowed := false }.emitMark token 3)

def openFlow? (s : Scan) (token : Token) : Option Scan := do
  let s ← s.noteCandidate?
  some ({ s with outer := s.candidate :: s.outer, candidate := none, keyAllowed := true }.emitMark
    token 1)

def closeFlow? (s : Scan) (token : Token) : Option Scan := do
  let s ← s.dropCandidate?
  let closed :=
    match s.outer with
    | candidate :: outer => { s with candidate := candidate, outer := outer }
    | [] => s
  some ({ closed with keyAllowed := false }.emitMark token 1)

def comma? (s : Scan) : Option Scan := do
  let s ← s.dropCandidate?
  some ({ s with keyAllowed := true }.emitMark .comma 1)

def item? (s : Scan) : Option Scan := do
  if !s.inFlow && !s.keyAllowed then none
  else
    let s ← (s.openBlock s.cursor.column s.tokens.size .blockSequence).dropCandidate?
    some ({ s with keyAllowed := true }.emitMark .item 1)

def key? (s : Scan) : Option Scan := do
  if !s.inFlow && !s.keyAllowed then none
  else
    let s ← (s.openBlock s.cursor.column s.tokens.size .blockMapping).dropCandidate?
    some ({ s with keyAllowed := !s.inFlow }.emitMark .key 1)

/-- A colon behind a possible key makes it one; otherwise the key is missing or was marked. -/
def value? (s : Scan) : Option Scan := do
  match s.candidate with
  | some key =>
      let announced := { s with tokens := s.tokens.insertIdxIfInBounds key.place .key }
      let opened := announced.openBlock key.column key.place .blockMapping
      some ({ opened with candidate := none, keyAllowed := false }.emitMark .value 1)
  | none =>
      if !s.inFlow && !s.keyAllowed then none
      else
        let opened := s.openBlock s.cursor.column s.tokens.size .blockMapping
        some ({ opened with keyAllowed := !s.inFlow }.emitMark .value 1)

def endsName (c : Char) : Bool := "?:,]\x7d%@".toList.contains c || c == '\x60'

/-- The name of an anchor ends at a blank or at a mark that cannot belong to a scalar. -/
def name? (s : Scan) (token : String → Token) : Option Scan := do
  let s ← s.noteCandidate?
  let opened := s.cursor.advance 1
  let name := opened.takeWhile isNameChar
  let after := opened.advance name.length
  if name.isEmpty then none
  else if after.onBlankOrEnd || after.rest.head?.any endsName then
    some ({ s with cursor := after, keyAllowed := false }.emit (token (String.ofList name)))
  else none

def tag? (s : Scan) : Option Scan := do
  let s ← s.noteCandidate?
  let (written, next) ← TagText.read? s.inFlow s.cursor
  some ({ s with cursor := next, keyAllowed := false }.emit (.tag written))

def block? (s : Scan) (literal : Bool) : Option Scan := do
  let s ← s.dropCandidate?
  let (text, next) ← Block.read? literal s.indents.head? s.cursor
  some ({ s with cursor := next, keyAllowed := true }.emit (.scalar false (String.ofList text)))

def quoted? (s : Scan) (single : Bool) : Option Scan := do
  let s ← s.noteCandidate?
  let (text, next) ← Quoted.read? single s.cursor
  some ({ s with cursor := next, keyAllowed := false }.emit (.scalar false (String.ofList text)))

def plain? (s : Scan) : Option Scan := do
  let s ← s.noteCandidate?
  let margin := match s.indents with | [] => 0 | indent :: _ => indent + 1
  let read ← Plain.read? s.inFlow margin s.cursor
  some ({ s with cursor := read.cursor, keyAllowed := read.gap.broken }.emit
    (.scalar true (String.ofList read.text)))

/-- Marks that never begin a plain scalar, even when a word follows at once. -/
def isIndicator (c : Char) : Bool :=
  ",[]\x7b\x7d#&*!|>'\"%@".toList.contains c || c == '\x60'

/-- Reads the token at the cursor, which is not at the end. -/
def token? (s : Scan) : Option Scan :=
  match s.cursor.rest with
  | [] => none
  | c :: rest =>
      let apart := endOr isBlankOrBreak rest
      if s.cursor.column == 0 && c == '%' then s.directive?
      else if s.cursor.onDocumentMark then s.documentMark?
      else if c == '[' then s.openFlow? .flowSequence
      else if c == '\x7b' then s.openFlow? .flowMapping
      else if c == ']' then s.closeFlow? .flowSequenceEnd
      else if c == '\x7d' then s.closeFlow? .flowMappingEnd
      else if c == ',' then s.comma?
      else if c == '-' && apart then s.item?
      else if c == '?' && (s.inFlow || apart) then s.key?
      else if c == ':' && (s.inFlow || apart) then s.value?
      else if c == '*' then s.name? .aliasOf
      else if c == '&' then s.name? .anchor
      else if c == '!' then s.tag?
      else if c == '|' && !s.inFlow then s.block? true
      else if c == '>' && !s.inFlow then s.block? false
      else if c == '\'' then s.quoted? true
      else if c == '"' then s.quoted? false
      else if isIndicator c || isBlankOrBreak c then none
      else s.plain?

def finish? (s : Scan) : Option (Array Token) := do
  let s ← s.closeAllBlocks.dropCandidate?
  some s.tokens

/-- Reads on to the end. Every step reads at least one character. -/
def readAll : Nat → Scan → Option (Array Token)
  | 0, _ => none
  | fuel + 1, s => do
      let s ← (skipBlank s.cursor.fuel s).dropPast?
      let s := s.closeBlocks s.cursor.column
      if s.cursor.atEnd then s.finish?
      else
        let s ← s.token?
        readAll fuel s

end Scan

def Token.ofText? (text : List Char) : Option (List Token) :=
  if text.all isDocumentChar then
    (Scan.readAll (text.length + 2) (Scan.start text)).map Array.toList
  else none

end MessageSchema.Yaml
