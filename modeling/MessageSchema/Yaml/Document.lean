import MessageSchema.Yaml.Node

/-!
A text holds at most one document. Its nodes become a value: scalars get their meaning, aliases
become copies of what they refer to, and a mapping may not repeat a key. Two bounds keep a small text
from standing for a huge value: how deep collections lie in each other, and how often aliases are
followed.
-/

namespace MessageSchema.Yaml

set_option autoImplicit false

structure Document where
  root : Option Node

namespace Document

/-- Collections lie at most this deep in each other. -/
def depthLimit : Nat := 128

/-- Aliases are followed at most this often for each mark of the document. -/
def aliasFactor : Nat := 100

def defaultHandles : List (String × TagText.Spelling) :=
  [("!", .ofText "!"), ("!!", .ofText Label.globalStem)]

/-- The directives in front of a document: one version, which must be known, and handles that are
all different. -/
structure Directives where
  version : Bool
  handles : List (String × TagText.Spelling)

def Directives.add? (d : Directives) : Token → Option Directives
  | .version major minor =>
      if d.version || major != 1 || !(minor == 1 || minor == 2) then none
      else some { d with version := true }
  | .handle name replacement =>
      if d.handles.any (·.1 == name) then none
      else some { d with handles := d.handles ++ [(name, replacement)] }
  | _ => none

def isDirective : Token → Bool
  | .version _ _ => true
  | .handle _ _ => true
  | _ => false

/-- Calls for each token at most four steps of the node reader. -/
def nodeFuel (tokens : List Token) : Nat := 4 * tokens.length + 8

/-- After the document nothing may follow but marks of its end. -/
def ends (tokens : List Token) : Bool := tokens.all (· == .documentEnd)

def readRoot? (handles : List (String × TagText.Spelling)) (tokens : List Token) : Option Document := do
  let (root, after) ← (Node.read (nodeFuel tokens) true false).run ⟨tokens, handles, []⟩
  if ends after.tokens then some ⟨some root⟩ else none

/-- A document that begins with directives or a mark, and so may be empty. -/
def readExplicit? (tokens : List Token) : Option Document := do
  let directives ← (tokens.takeWhile isDirective).foldlM Directives.add? ⟨false, []⟩
  match tokens.dropWhile isDirective with
  | .documentStart :: content =>
      match content with
      | [] => some ⟨some Node.empty⟩
      | .documentEnd :: rest => if ends rest then some ⟨some Node.empty⟩ else none
      | _ => readRoot? (directives.handles ++ defaultHandles) content
  | _ => none

def ofTokens? : List Token → Option Document
  | [] => some ⟨none⟩
  | first :: rest =>
      if isDirective first || first == .documentStart then readExplicit? (first :: rest)
      else readRoot? defaultHandles (first :: rest)

def ofText? (text : List Char) : Option Document := (Token.ofText? text).bind ofTokens?

end Document

abbrev Expanding := StateT Nat Option

namespace Node

/-- The node that an alias stands for, counted; any other node stands for itself. -/
def follow (targets : Nat → Option Node) (limit : Nat) : Node → Expanding Node
  | aliasOf number => fun count =>
      if limit ≤ count then none else (targets number).map (·, count + 1)
  | node => pure node

def plainValue? (plain : Bool) (text : String) : Option Value :=
  if !plain then some (.string text)
  else
    match Scalar.meaning text.toList with
    | .null => some .null
    | .bool b => some (.bool b)
    | .number n => some (.number n)
    | .wide => none
    | .string => some (.string text)

def scalarValue? (label : Label) (plain : Bool) (text : String) : Option Value :=
  let chars := text.toList
  match label with
  | .none => plainValue? plain text
  | .local name => (plainValue? plain text).map (.tagged (Tag.ofText name))
  | .null => if Scalar.isNullWord chars then some .null else none
  | .bool => (Scalar.boolWord? chars).map .bool
  | .int =>
      match (Scalar.integer? chars).filter Scalar.fitsDocument with
      | some n => some (.number (.int n))
      | none => none
  | .float => (Scalar.float? chars).map fun x => .number (.float x)
  | .other => some (.string text)

def withLabel (label : Label) (value : Value) : Value :=
  match label with
  | .local name => .tagged (Tag.ofText name) value
  | _ => value

/-- A mapping of these entries, unless a key is repeated. -/
def distinct? : Mapping → Mapping → Option Mapping
  | read, [] => some read
  | read, (key, value) :: rest =>
      if Mapping.contains read key then none else distinct? (read ++ [(key, value)]) rest

def mappingValue (label : Label) (read : Mapping) : Expanding Value := fun count =>
  (distinct? [] read).map fun entries => (withLabel label (.mapping entries), count)

/-- The value of a node, in which collections may lie in each other as deep as the first number
says. -/
def value (targets : Nat → Option Node) (limit : Nat) : Nat → Node → Expanding Value
  | 0, node => do
      match ← follow targets limit node with
      | scalar _ label plain text => fun count => (scalarValue? label plain text).map (·, count)
      | _ => fun _ => none
  | depth + 1, node => do
      match ← follow targets limit node with
      | scalar _ label plain text => fun count => (scalarValue? label plain text).map (·, count)
      | sequence _ label children =>
          let values ← children.mapM (value targets limit depth)
          pure (withLabel label (.sequence values))
      | mapping _ label children =>
          let read ← children.mapM fun entry => do
            let key ← value targets limit depth entry.1
            let body ← value targets limit depth entry.2
            pure (key, body)
          mappingValue label read
      | aliasOf _ => fun _ => none

end Node

namespace Document

/-- The node an anchor number stands for: the last that took it. The nodes come in reverse order. -/
def target? (anchored : List (Nat × Node)) (number : Nat) : Option Node :=
  (anchored.find? (·.1 == number)).map (·.2)

/-- The value of a document. An empty document is null. -/
def value? (d : Document) : Option Value :=
  match d.root with
  | none => some .null
  | some root =>
      let anchored := root.anchored.reverse
      ((root.value (target? anchored) (aliasFactor * root.size) depthLimit).run 0).map (·.1)

end Document

def Value.ofText? (text : String) : Option Value :=
  (Document.ofText? text.toList).bind Document.value?

end MessageSchema.Yaml
