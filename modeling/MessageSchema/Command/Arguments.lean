import MessageSchema.Synthetic
import MessageSchema.Rename.Rule

/-!
The arguments of the command line. Options come as words after two hyphens or as letters after one,
letters may be run together, and a value may follow as the next argument or in the same one. Lists
are separated by commas and may come in several parts; any other option comes at most once. Help is a
flag of the program and of each command, and also a command of its own.
-/

namespace MessageSchema.Command

set_option autoImplicit false

inductive Verb where
  | transform
  | classify
  | handlers
  deriving DecidableEq

namespace Verb

def name : Verb → String
  | transform => "transform"
  | classify => "classify"
  | handlers => "handlers"

def ofName? (name : String) : Option Verb :=
  [transform, classify, handlers].find? (·.name == name)

theorem of_name_name (verb : Verb) : ofName? verb.name = some verb := by
  cases verb <;> rfl

end Verb

inductive Opt where
  | verbose
  | config
  | input
  | publish
  | rename
  | lead
  | renameMode
  | template
  | output
  | clientMessages
  | json
  | modelsPath
  | asynchronous
  deriving DecidableEq

namespace Opt

def long : Opt → String
  | verbose => "verbose"
  | config => "config"
  | input => "input"
  | publish => "publish"
  | rename => "rename"
  | lead => "prefix"
  | renameMode => "rename-mode"
  | template => "template"
  | output => "output"
  | clientMessages => "client-messages"
  | json => "json"
  | modelsPath => "models-path"
  | asynchronous => "async"

def short? : Opt → Option Char
  | verbose => some 'v'
  | config => some 'c'
  | input => some 'i'
  | publish => some 'p'
  | template => some 't'
  | output => some 'o'
  | _ => none

def isFlag : Opt → Bool
  | verbose => true
  | json => true
  | asynchronous => true
  | _ => false

def isList : Opt → Bool
  | publish => true
  | rename => true
  | _ => false

/-- What values an option takes. A path is never empty, and a choice is one of its words. -/
def accepts (opt : Opt) (value : String) : Bool :=
  match opt with
  | config | input | template | output => !value.isEmpty
  | renameMode => (Rename.Mode.ofName? value).isSome
  | clientMessages => (ClientSource.ofText? value).isSome
  | _ => true

/-- The options of each command, in the order of its help. -/
def ofVerb : Verb → List Opt
  | .transform =>
      [config, verbose, input, publish, rename, lead, renameMode, template, output, clientMessages]
  | .classify => [config, verbose, input, publish, rename, lead, renameMode, json]
  | .handlers =>
      [config, verbose, input, publish, rename, lead, renameMode, output, modelsPath, asynchronous]

end Opt

/-- The values of one option, in order; a flag that is set has no value. -/
abbrev Values := List (Opt × List String)

namespace Values

def get? (values : Values) (opt : Opt) : Option (List String) :=
  (values.find? (·.1 == opt)).map (·.2)

def has (values : Values) (opt : Opt) : Bool := values.any (·.1 == opt)

def single? (values : Values) (opt : Opt) : Option String := (values.get? opt).bind (·.head?)

def add (values : Values) (opt : Opt) (more : List String) : Values :=
  if values.has opt then
    values.map fun entry => if entry.1 == opt then (opt, entry.2 ++ more) else entry
  else values ++ [(opt, more)]

end Values

/-- What there is help about: the program, one of its commands, or the help itself. -/
inductive Page where
  | program
  | verb (verb : Verb)
  | help
  deriving DecidableEq

inductive Request where
  | version
  | help (page : Page) (long : Bool)
  | run (verb : Verb) (verbose : Bool) (values : Values)
  deriving DecidableEq

/-- Why the arguments of a command are not read to their end. They are refused without telling why,
for the usage is shown instead; a wish for help is granted as soon as it is read. -/
inductive Stop where
  | refused
  | help (long : Bool)

abbrev Parsed (α : Type) := Except Stop α

/-- The items of a list, empty ones included. -/
def splitItems (text : String) : List String :=
  (text.toList.foldr
    (fun c items =>
      if c == ',' then [] :: items
      else
        match items with
        | item :: rest => (c :: item) :: rest
        | [] => [[c]])
    [[]]).map String.ofList

/-- Sets a flag, which may be set only once. -/
def setFlag (opt : Opt) (values : Values) : Parsed Values :=
  if values.has opt then .error .refused else .ok (values.add opt [])

def setValue (opt : Opt) (value : String) (values : Values) : Parsed Values :=
  if opt.isList then .ok (values.add opt (splitItems value))
  else if values.has opt || !opt.accepts value then .error .refused
  else .ok (values.add opt [value])

/-- An argument that could be an option is never the value of another one. -/
def looksLikeOption (argument : String) : Bool :=
  match argument.toList with
  | '-' :: _ :: _ => true
  | _ => false

/-- The text of a long option before and after its first equals sign. -/
def splitEquals (text : List Char) : String × Option String :=
  let name := text.takeWhile (· != '=')
  match text.dropWhile (· != '=') with
  | _ :: value => (String.ofList name, some (String.ofList value))
  | [] => (String.ofList name, none)

def known (opt : Option Opt) : Parsed Opt :=
  match opt with
  | some opt => .ok opt
  | none => .error .refused

def byLong (options : List Opt) (name : String) : Parsed Opt :=
  known (options.find? (·.long == name))

def byShort (options : List Opt) (letter : Char) : Parsed Opt :=
  if letter == 'h' then .error (.help false)
  else known (options.find? (·.short? == some letter))

/-- The effect of letters that were run together: the values so far, and the option that still needs
its value from the next argument. -/
def readLetters (options : List Opt) : List Char → Values → Parsed (Values × Option Opt)
  | [], values => .ok (values, none)
  | letter :: rest, values => do
      let opt ← byShort options letter
      if opt.isFlag then
        let values ← setFlag opt values
        readLetters options rest values
      else
        match rest with
        | [] => .ok (values, some opt)
        | '=' :: value =>
            let values ← setValue opt (String.ofList value) values
            .ok (values, none)
        | value =>
            let values ← setValue opt (String.ofList value) values
            .ok (values, none)

def readOption (options : List Opt) (argument : String) (values : Values) :
    Parsed (Values × Option Opt) :=
  match argument.toList with
  | ['-', '-', 'h', 'e', 'l', 'p'] => .error (.help true)
  | '-' :: '-' :: text => do
      let (name, value) := splitEquals text
      let opt ← byLong options name
      match opt.isFlag, value with
      | true, some _ => .error .refused
      | true, none => (setFlag opt values).map (·, none)
      | false, some value => (setValue opt value values).map (·, none)
      | false, none => .ok (values, some opt)
  | '-' :: letter :: text => readLetters options (letter :: text) values
  | _ => .error .refused

/-- The options of a command. Nothing but options is accepted; two hyphens alone end them. -/
def readOptions (options : List Opt) : List String → Option Opt → Values → Parsed Values
  | [], none, values => .ok values
  | [], some _, _ => .error .refused
  | argument :: rest, pending, values =>
      match pending with
      | some opt =>
          if looksLikeOption argument then .error .refused
          else do
            let values ← setValue opt argument values
            readOptions options rest none values
      | none =>
          if argument == "--" then if rest.isEmpty then .ok values else .error .refused
          else do
            let (values, pending) ← readOption options argument values
            readOptions options rest pending values

/-- The command after the verb. Handlers have no default place. -/
def command? (verb : Verb) (verbose : Bool) (arguments : List String) : Option Request :=
  match readOptions (Opt.ofVerb verb) arguments none [] with
  | .error .refused => none
  | .error (.help long) => some (.help (.verb verb) long)
  | .ok values =>
      if verb = .handlers && !values.has .output then none
      else some (.run verb (verbose || values.has .verbose) values)

/-- The letters before the verb. Only the one for more output lets the reading go on. -/
def leadingLetters? : List Char → Bool → Option (Bool × Option Request)
  | [], verbose => some (verbose, none)
  | 'V' :: _, verbose => some (verbose, some .version)
  | 'h' :: _, verbose => some (verbose, some (.help .program false))
  | 'v' :: rest, verbose => if verbose then none else leadingLetters? rest true
  | _, _ => none

def page? : List String → Option Page
  | [] => some .program
  | [name] => if name == "help" then some .help else (Verb.ofName? name).map .verb
  | _ => none

/-- The arguments from the first on. The version and the help are told as soon as they are asked
for. -/
def request? : List String → Bool → Option Request
  | [], _ => none
  | argument :: rest, verbose =>
      if argument == "--version" then some .version
      else if argument == "--help" then some (.help .program true)
      else if argument == "--verbose" then if verbose then none else request? rest true
      else if argument == "help" then (page? rest).map (.help · true)
      else
        match argument.toList with
        | '-' :: '-' :: _ => none
        | '-' :: letter :: letters => do
            let (verbose, asked) ← leadingLetters? (letter :: letters) verbose
            match asked with
            | some request => some request
            | none => request? rest verbose
        | _ => do
            let verb ← Verb.ofName? argument
            command? verb verbose rest

end MessageSchema.Command
