import MessageSchema.Files.Path

/-!
A disk: directories and files by their place, and the directory from which relative paths are read.
A path leads step by step through directories that must exist; only its last step may be new. There are
no links on a disk and nothing is forbidden; what a system refuses beyond that is a fault of its own.
-/

namespace MessageSchema.Files

set_option autoImplicit false

abbrev Location := List String

/-- What a file holds: a text, or bytes that are the encoding of none. -/
inductive Content where
  | text (text : String)
  | bytes (bytes : List UInt8)
  deriving DecidableEq

inductive Entry where
  | directory
  | file (content : Content)
  deriving DecidableEq

structure Disk where
  entries : List (Location × Entry)
  home : Location

namespace Disk

/-- What is at a place. The root is a directory. -/
def find? (d : Disk) (place : Location) : Option Entry :=
  if place.isEmpty then some .directory
  else (d.entries.find? (·.1 == place)).map (·.2)

def put (d : Disk) (place : Location) (entry : Entry) : Disk :=
  if d.entries.any (·.1 == place) then
    { d with entries := d.entries.map fun old => if old.1 == place then (place, entry) else old }
  else { d with entries := d.entries ++ [(place, entry)] }

theorem home_put (d : Disk) (place : Location) (entry : Entry) :
    (d.put place entry).home = d.home := by
  unfold put
  split <;> rfl

/-- A name in a directory takes at most this many octets. -/
def nameLimit : Nat := 255

def lookup (d : Disk) (place : Location) (name : String) : Except Fault (Option Entry) :=
  if nameLimit < name.utf8ByteSize then .error .tooLong else .ok (d.find? (place ++ [name]))

def enter (d : Disk) (place : Location) (step : String) : Except Fault Location :=
  if step == "." then .ok place
  else if step == ".." then .ok place.dropLast
  else
    match d.lookup place step with
    | .error fault => .error fault
    | .ok (some .directory) => .ok (place ++ [step])
    | .ok (some (.file _)) => .error .notDirectory
    | .ok none => .error .notFound

def walk (d : Disk) (place : Location) (steps : List String) : Except Fault Location :=
  steps.foldlM d.enter place

/-- What a path leads to: a directory, or a name in one, whatever stands under it. -/
inductive Goal where
  | directory
  | name (place : Location) (name : String)

def origin (d : Disk) (path : Path) : Location := if path.absolute then [] else d.home

def goal (d : Disk) (path : Path) : Except Fault Goal :=
  match path.fault? with
  | some fault => .error fault
  | none =>
      match path.steps.getLast? with
      | none => if path.absolute then .ok .directory else .error .notFound
      | some last =>
          match d.walk (d.origin path) path.steps.dropLast with
          | .error fault => .error fault
          | .ok place =>
              if last == "." || last == ".." then .ok .directory else .ok (.name place last)

def isDirectory (d : Disk) (path : Path) : Bool :=
  match d.goal path with
  | .ok .directory => true
  | .ok (.name place name) => d.find? (place ++ [name]) == some .directory
  | .error _ => false

def read (d : Disk) (path : Path) : Except Fault String :=
  match d.goal path with
  | .error fault => .error fault
  | .ok .directory => .error .isDirectory
  | .ok (.name place name) =>
      match d.lookup place name with
      | .error fault => .error fault
      | .ok none => .error .notFound
      | .ok (some .directory) => .error .isDirectory
      | .ok (some (.file content)) =>
          if path.closed then .error .notDirectory
          else
            match content with
            | .text text => .ok text
            | .bytes _ => .error .notText

/-- Writes a text to the file that a path leads to, in place of what it held. A path that asks for a
directory is refused before its last name is looked up. -/
def write (d : Disk) (path : Path) (text : String) : Except Fault Disk :=
  match d.goal path with
  | .error fault => .error fault
  | .ok .directory => .error .isDirectory
  | .ok (.name place name) =>
      if path.closed then .error .isDirectory
      else
        match d.lookup place name with
        | .error fault => .error fault
        | .ok (some .directory) => .error .isDirectory
        | .ok _ => .ok (d.put (place ++ [name]) (.file (.text text)))

def makeDirectory (d : Disk) (path : Path) : Except Fault Disk :=
  match d.goal path with
  | .error fault => .error fault
  | .ok .directory => .error .occupied
  | .ok (.name place name) =>
      match d.lookup place name with
      | .error fault => .error fault
      | .ok (some _) => .error .occupied
      | .ok none => .ok (d.put (place ++ [name]) .directory)

def ensureDirectory (d : Disk) (path : Path) : Except Fault Disk :=
  match d.makeDirectory path with
  | .ok made => .ok made
  | .error fault => if d.isDirectory path then .ok d else .error fault

/-- Makes the first of some directories, each in the one after it, and those that it lacks. What has
been made stays also when a later step fails. -/
def ensureFirst : List Path → Disk → Disk × Option Fault
  | [], d => (d, none)
  | path :: parents, d =>
      match d.ensureDirectory path with
      | .ok made => (made, none)
      | .error .notFound =>
          match ensureFirst parents d with
          | (made, some fault) => (made, some fault)
          | (made, none) =>
              match made.ensureDirectory path with
              | .ok whole => (whole, none)
              | .error fault => (made, some fault)
      | .error fault => (d, some fault)

def ensureDirectories (d : Disk) (path : Path) : Disk × Option Fault :=
  ensureFirst path.ancestry d

end Disk

end MessageSchema.Files
