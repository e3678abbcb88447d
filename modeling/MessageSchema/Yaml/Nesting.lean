import MessageSchema.Yaml.Value

/-!
Which values can be written. A tag may not stand right under another one. Besides, a tagged value and
a mapping of one entry look alike until their key is known, so such a mapping is opened together with
its key. Where the key is one of the two itself, the opening falls to the key alone: what follows lands
one level further out, and the close of the mapping meets a collection that is not its own.
-/

namespace MessageSchema.Yaml

set_option autoImplicit false

inductive Unwritable where
  /-- A tag right under another tag. -/
  | nestedTags
  /-- The close of a mapping where none can be closed; the flag says whether any collection is open
  there. -/
  | strayClose (enclosed : Bool)
  deriving DecidableEq

namespace Unwritable

def message : Unwritable → String
  | nestedTags => "serializing nested enums in YAML is not supported yet"
  | strayClose true => "expected SCALAR, SEQUENCE-START, MAPPING-START, or ALIAS"
  | strayClose false => "expected DOCUMENT-START or STREAM-END"

end Unwritable

/-- An open collection by what it expects next. -/
inductive Slot where
  | item
  | key
  | value
  deriving DecidableEq

namespace Slot

/-- When a node is complete, an innermost mapping expects the other part of an entry. -/
def fill : List Slot → List Slot
  | key :: outer => value :: outer
  | value :: outer => key :: outer
  | slots => slots

/-- Closes a mapping, which must expect a key. -/
def closeMapping : List Slot → Except Unwritable (List Slot)
  | key :: outer => .ok (fill outer)
  | [] => .error (.strayClose false)
  | _ => .error (.strayClose true)

end Slot

namespace Value

/-- A tagged value and a mapping of one entry look alike until their key is known. -/
def looksTagged : Value → Bool
  | tagged _ _ => true
  | mapping [_] => true
  | _ => false

mutual

/-- The open collections after a value has been put among them. The flag says that a tag stands in
front of the value. -/
def place (underTag : Bool) : Value → List Slot → Except Unwritable (List Slot)
  | tagged _ (tagged _ _), _ => .error .nestedTags
  | tagged _ value, slots => place true value slots
  | sequence items, slots => do
      let _ ← placeItems items (.item :: slots)
      pure (Slot.fill slots)
  | mapping [(key, value)], slots => do
      let opened := if !underTag && looksTagged key then slots else .key :: slots
      let afterKey ← place false key opened
      let afterValue ← place false value afterKey
      Slot.closeMapping afterValue
  | mapping entries, slots => do
      let after ← placeEntries entries (.key :: slots)
      Slot.closeMapping after
  | _, slots => .ok (Slot.fill slots)

def placeItems : List Value → List Slot → Except Unwritable (List Slot)
  | [], slots => .ok slots
  | item :: rest, slots => do
      let after ← place false item slots
      placeItems rest after

def placeEntries : List (Value × Value) → List Slot → Except Unwritable (List Slot)
  | [], slots => .ok slots
  | (key, value) :: rest, slots => do
      let afterKey ← place false key slots
      let afterValue ← place false value afterKey
      placeEntries rest afterValue

end

/-- The first reason, in writing order, why a value cannot be written. -/
def fault? (value : Value) : Option Unwritable :=
  match value.place false [] with
  | .ok _ => none
  | .error reason => some reason

end Value

end MessageSchema.Yaml
