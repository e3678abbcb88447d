import MessageSchema.Decimal.Style

/-!
The values of a document. Mappings keep the order in which their entries were written, and a key may
be any value. Two numbers of different kinds are different keys, whatever they amount to.
-/

namespace MessageSchema.Yaml

set_option autoImplicit false

/-- A whole number of a document lies between `-2 ^ 63` and `2 ^ 64 - 1`. -/
inductive Number where
  | int (value : Int)
  | float (value : Binary64)
  deriving DecidableEq

namespace Number

/-- Floating-point numbers are positional from `1e-5` up to below `1e16`. -/
def floatStyle : DecimalStyle where
  leastPositional := -5
  greatestPositional := 15
  infinity := ['.', 'i', 'n', 'f']
  nan := ['.', 'n', 'a', 'n']

def text : Number → String
  | int value => toString value
  | float value => floatStyle.write value

def same : Number → Number → Bool
  | int a, int b => a == b
  | float a, float b => a.same b
  | _, _ => false

theorem same_refl (n : Number) : n.same n = true := by
  cases n <;> simp [same, Binary64.same_refl]

end Number

/-- A local tag, named without its exclamation mark. The tag that is nothing but the mark keeps it
as its name. -/
structure Tag where
  name : String
  deriving DecidableEq

namespace Tag

/-- One leading mark is no part of the name. -/
def ofText (text : String) : Tag :=
  match text.toList with
  | '!' :: c :: rest => ⟨String.ofList (c :: rest)⟩
  | _ => ⟨text⟩

def text (tag : Tag) : String := "!" ++ tag.name

end Tag

inductive Value where
  | null
  | bool (value : Bool)
  | number (value : Number)
  | string (text : String)
  | sequence (items : List Value)
  | mapping (entries : List (Value × Value))
  | tagged (tag : Tag) (value : Value)
  deriving Inhabited

abbrev Mapping := List (Value × Value)

namespace Value

mutual

/-- Equality of keys. Mappings are equal when they have equal entries in any order. -/
def same : Value → Value → Bool
  | null, null => true
  | bool a, bool b => a == b
  | number a, number b => a.same b
  | string a, string b => a == b
  | sequence a, sequence b => sameItems a b
  | mapping a, mapping b => a.length == b.length && entriesWithin a b
  | tagged s a, tagged t b => s == t && same a b
  | _, _ => false

def sameItems : List Value → List Value → Bool
  | [], [] => true
  | a :: as, b :: bs => same a b && sameItems as bs
  | _, _ => false

def entriesWithin : List (Value × Value) → List (Value × Value) → Bool
  | [], _ => true
  | (key, value) :: rest, other =>
      other.any (fun entry => same key entry.1 && same value entry.2) && entriesWithin rest other

end

theorem same_string {value : Value} {text : String} :
    value.same (string text) = true ↔ value = string text := by
  cases value <;> simp [same]

theorem string_same {value : Value} {text : String} :
    (string text).same value = true ↔ string text = value := by
  cases value <;> simp [same]

def untag : Value → Value
  | tagged _ value => untag value
  | value => value

/-- Applies a change to the value under all its tags and keeps the tags. -/
def underTags (change : Value → Value) : Value → Value
  | tagged tag value => tagged tag (underTags change value)
  | value => change value

def entries? (value : Value) : Option Mapping :=
  match value.untag with
  | mapping entries => some entries
  | _ => none

def text? (value : Value) : Option String :=
  match value.untag with
  | string text => some text
  | _ => none

/-- A key as a name. Numbers and booleans are spelled as the document shows them; null, composite
and tagged keys have no name. -/
def spelling? : Value → Option String
  | string text => some text
  | number n => some n.text
  | bool b => some (if b then "true" else "false")
  | _ => none

def isString (name : String) : Value → Bool
  | string text => text == name
  | _ => false

theorem is_string_iff {name : String} {value : Value} :
    value.isString name = true ↔ value = string name := by
  cases value <;> simp [isString]

end Value

namespace Mapping

/-- The value of the entry whose key is this plain string. -/
def find? (entries : Mapping) (name : String) : Option Value :=
  (List.find? (fun entry => entry.1.isString name) entries).map (·.2)

def contains (entries : Mapping) (key : Value) : Bool := entries.any fun entry => entry.1.same key

/-- A later value takes the place of an earlier one under an equal key; the earlier key stays. -/
def insert : Mapping → Value → Value → Mapping
  | [], key, value => [(key, value)]
  | (k, v) :: rest, key, value =>
      if k.same key then (k, value) :: rest else (k, v) :: insert rest key value

def insertAll (entries added : Mapping) : Mapping :=
  added.foldl (fun entries entry => entries.insert entry.1 entry.2) entries

/-- The keys among the added entries that find an equal one already there, in order. -/
def replaced : Mapping → Mapping → List Value
  | _, [] => []
  | entries, (key, value) :: rest =>
      let later := replaced (entries.insert key value) rest
      if entries.contains key then key :: later else later

/-- A mapping written entry by entry, repeated keys included. -/
def ofEntries (entries : Mapping) : Mapping := insertAll [] entries

def adjust (entries : Mapping) (name : String) (change : Value → Value) : Mapping :=
  entries.map fun entry => if entry.1.isString name then (entry.1, change entry.2) else entry

end Mapping

/-- The value under a string key, seen through tags of the mapping. -/
def Value.get? (value : Value) (name : String) : Option Value :=
  value.entries?.bind (·.find? name)

end MessageSchema.Yaml
