import MessageSchema.Yaml.Token

/-!
The nodes of a document: its syntax with every scalar still a text. Anchors are numbered as they are
met, and an alias refers to a number, so that what a name means may change along the way.
-/

namespace MessageSchema.Yaml

set_option autoImplicit false

/-- What a tag says about a node. Only local tags are kept in the values of a document; four global
ones choose the kind of a scalar, and any other makes a scalar a string. -/
inductive Label where
  | none
  | local (name : String)
  | null
  | bool
  | int
  | float
  | other
  deriving DecidableEq

namespace Label

def globalStem : String := "tag:yaml.org,2002:"

/-- A local tag begins with an exclamation mark, which is no part of its name unless it stands
alone. -/
def ofText (text : String) : Label :=
  match text.toList with
  | '!' :: rest => .local (if rest.isEmpty then "!" else String.ofList rest)
  | _ =>
      if text == globalStem ++ "null" then null
      else if text == globalStem ++ "bool" then bool
      else if text == globalStem ++ "int" then int
      else if text == globalStem ++ "float" then float
      else other

/-- A missing character leaves a local tag without effect; a global tag with one is not known. -/
def ofSpelling (spelling : TagText.Spelling) : Label :=
  match spelling.text? with
  | some text => ofText text
  | Option.none => if spelling.head? == some (some '!') then none else other

end Label

inductive Node where
  | aliasOf (target : Nat)
  | scalar (anchor : Option Nat) (label : Label) (plain : Bool) (text : String)
  | sequence (anchor : Option Nat) (label : Label) (items : List Node)
  | mapping (anchor : Option Nat) (label : Label) (entries : List (Node × Node))
  deriving Inhabited

namespace Node

/-- A node that is not there: a plain scalar without text. -/
def empty : Node := scalar none .none true ""

/-- What is left to read, the replacements of the tag handles, and the number each anchor name
stands for. -/
structure Source where
  tokens : List Token
  handles : List (String × TagText.Spelling)
  anchors : List (String × Nat)

abbrev Reader := StateT Source Option

namespace Reader

def refuse {α : Type} : Reader α := fun _ => none

def peek : Reader (Option Token) := fun s => some (s.tokens.head?, s)

def skip : Reader Unit := fun s => some ((), { s with tokens := s.tokens.drop 1 })

def isNext (tokens : List Token) : Reader Bool := do
  let next ← peek
  pure (next.any tokens.contains)

def accept (token : Token) : Reader Bool := do
  if ← isNext [token] then
    skip
    pure true
  else pure false

/-- A new anchor gets the count of the names so far as its number, also when its name is one of
them. -/
def anchor (name : String) : Reader Nat := fun s =>
  let number := s.anchors.length
  let known := s.anchors.any (·.1 == name)
  let anchors :=
    if known then s.anchors.map fun entry => if entry.1 == name then (name, number) else entry
    else s.anchors ++ [(name, number)]
  some (number, { s with anchors := anchors })

def target (name : String) : Reader Nat := fun s =>
  (s.anchors.find? (·.1 == name)).map fun entry => (entry.2, s)

def label (written : TagText.Written) : Reader Label := fun s =>
  if written.handle.isEmpty then some (Label.ofSpelling written.suffix, s)
  else
    (s.handles.find? (·.1 == written.handle)).map fun entry =>
      (Label.ofSpelling (entry.2 ++ written.suffix), s)

structure Properties where
  anchor : Option String
  tag : Option TagText.Written

/-- An anchor and a tag, in either order, each at most once. -/
def properties : Reader Properties := do
  match ← peek with
  | some (.anchor name) =>
      skip
      match ← peek with
      | some (.tag written) => skip; pure ⟨some name, some written⟩
      | _ => pure ⟨some name, none⟩
  | some (.tag written) =>
      skip
      match ← peek with
      | some (.anchor name) => skip; pure ⟨some name, some written⟩
      | _ => pure ⟨none, some written⟩
  | _ => pure ⟨none, none⟩

def labelOf (tag : Option TagText.Written) : Reader Label :=
  match tag with
  | none => pure .none
  | some written => label written

def numberOf (name : Option String) : Reader (Option Nat) :=
  match name with
  | none => pure none
  | some name => some <$> anchor name

end Reader

open Reader

mutual

/-- A node. Block collections and sequences that are not indented are only read where they may
stand. -/
def read : Nat → Bool → Bool → Reader Node
  | 0, _, _ => refuse
  | fuel + 1, block, unindented => do
      match ← peek with
      | some (.aliasOf name) => skip; aliasOf <$> target name
      | _ =>
          let given ← properties
          let label ← labelOf given.tag
          match ← peek with
          | some (.scalar plain text) =>
              skip
              pure (scalar (← numberOf given.anchor) label plain text)
          | some .flowSequence =>
              skip
              let anchor ← numberOf given.anchor
              sequence anchor label <$> flowItems fuel true
          | some .flowMapping =>
              skip
              let anchor ← numberOf given.anchor
              mapping anchor label <$> flowEntries fuel true
          | next =>
              if unindented && next == some .item then
                let anchor ← numberOf given.anchor
                sequence anchor label <$> items fuel [.item, .key, .value, .blockEnd] false
              else if block && next == some .blockSequence then
                skip
                let anchor ← numberOf given.anchor
                sequence anchor label <$> items fuel [.item, .blockEnd] true
              else if block && next == some .blockMapping then
                skip
                let anchor ← numberOf given.anchor
                mapping anchor label <$> entries fuel
              else if given.anchor.isSome || given.tag.isSome then
                pure (scalar (← numberOf given.anchor) label true "")
              else refuse

/-- A node, unless one of these tokens shows that it is missing. -/
def readUnless : Nat → List Token → Bool → Bool → Reader Node
  | 0, _, _, _ => refuse
  | fuel + 1, stops, block, unindented => do
      if ← isNext stops then pure empty else read fuel block unindented

/-- The items of a block sequence. One that is not indented ends without a token of its own. -/
def items : Nat → List Token → Bool → Reader (List Node)
  | 0, _, _ => refuse
  | fuel + 1, stops, closed => do
      if ← accept .item then
        let item ← readUnless fuel stops true false
        (item :: ·) <$> items fuel stops closed
      else if !closed then pure []
      else if ← accept .blockEnd then pure []
      else refuse

def entries : Nat → Reader (List (Node × Node))
  | 0 => refuse
  | fuel + 1 => do
      if ← accept .key then
        let stops := [Token.key, .value, .blockEnd]
        let key ← readUnless fuel stops true true
        let value ← if ← accept .value then readUnless fuel stops true true else pure empty
        ((key, value) :: ·) <$> entries fuel
      else if ← accept .blockEnd then pure []
      else refuse

/-- The items between square brackets. A key among them is a mapping of one entry. -/
def flowItems : Nat → Bool → Reader (List Node)
  | 0, _ => refuse
  | fuel + 1, first => do
      if ← accept .flowSequenceEnd then pure []
      else
        let separated ← if first then pure true else accept .comma
        if !separated then refuse
        else if ← accept .key then
          let entry ← flowPair fuel
          (mapping none .none [entry] :: ·) <$> flowItems fuel false
        else if ← accept .flowSequenceEnd then pure []
        else
          let item ← read fuel false false
          (item :: ·) <$> flowItems fuel false

/-- A key between square brackets whose announcement has been read. A missing key takes the token
after it along. -/
def flowPair : Nat → Reader (Node × Node)
  | 0 => refuse
  | fuel + 1 => do
      let key ←
        if ← isNext [.value, .comma, .flowSequenceEnd] then
          skip
          pure empty
        else read fuel false false
      if ← accept .value then
        let value ← readUnless fuel [.comma, .flowSequenceEnd] false false
        pure (key, value)
      else pure (key, empty)

/-- The entries between braces. A node without a colon is a key without a value. -/
def flowEntries : Nat → Bool → Reader (List (Node × Node))
  | 0, _ => refuse
  | fuel + 1, first => do
      if ← accept .flowMappingEnd then pure []
      else
        let separated ← if first then pure true else accept .comma
        if !separated then refuse
        else if ← accept .key then
          let key ← readUnless fuel [.value, .comma, .flowMappingEnd] false false
          let value ←
            if ← accept .value then readUnless fuel [.comma, .flowMappingEnd] false false
            else pure empty
          ((key, value) :: ·) <$> flowEntries fuel false
        else if ← accept .flowMappingEnd then pure []
        else
          let key ← read fuel false false
          ((key, empty) :: ·) <$> flowEntries fuel false

end

/-- The nodes with an anchor, with its number, in document order. -/
def anchor? : Node → Option Nat
  | aliasOf _ => none
  | scalar anchor _ _ _ => anchor
  | sequence anchor _ _ => anchor
  | mapping anchor _ _ => anchor

mutual

def anchored (node : Node) : List (Nat × Node) :=
  let self := match node.anchor? with | some number => [(number, node)] | none => []
  match node with
  | sequence _ _ items => self ++ anchoredItems items
  | mapping _ _ entries => self ++ anchoredEntries entries
  | _ => self

def anchoredItems : List Node → List (Nat × Node)
  | [] => []
  | item :: rest => anchored item ++ anchoredItems rest

def anchoredEntries : List (Node × Node) → List (Nat × Node)
  | [] => []
  | (key, value) :: rest => anchored key ++ anchored value ++ anchoredEntries rest

end

mutual

/-- How many marks a node takes: one for a scalar or an alias, two for the ends of a collection. -/
def size : Node → Nat
  | aliasOf _ => 1
  | scalar _ _ _ _ => 1
  | sequence _ _ items => 2 + sizeItems items
  | mapping _ _ entries => 2 + sizeEntries entries

def sizeItems : List Node → Nat
  | [] => 0
  | item :: rest => size item + sizeItems rest

def sizeEntries : List (Node × Node) → Nat
  | [] => 0
  | (key, value) :: rest => size key + size value + sizeEntries rest

end

end Node

end MessageSchema.Yaml
