import MessageSchema.Command.Arguments
import MessageSchema.Handlers

/-!
The pages of help: what a command is for, how it is called, its options and some examples. The short
page of a command gives every option one line, unless the options are so long that some line would
not fit; the long page sets what is said below the option and tells every choice apart. A page has no
colours here, and a line that is too long is not broken.
-/

namespace MessageSchema.Command

set_option autoImplicit false

namespace Verb

def about : Verb → String
  | transform => "Transform an AsyncAPI spec into an OpenAPI document"
  | classify => "Show how messages are split into publish and subscribe"
  | handlers => "Generate the event-handler module for server messages"

def examples? : Verb → Option String
  | transform => some
      ("  # Use the defaults (../schemas/realtime.yml -> openapi-transformed.yaml)\n" ++
        "  asyncapi-openapi transform\n\n" ++
        "  # Explicit files and publish messages\n" ++
        "  asyncapi-openapi transform \\\n" ++
        "    --input realtime.yml \\\n" ++
        "    --template template-openapi.yaml \\\n" ++
        "    --output openapi.yaml \\\n" ++
        "    --publish StartRecognition,AddAudio,EndOfStream\n\n" ++
        "  # Settings from a config file\n" ++
        "  asyncapi-openapi transform --config bridge.yaml")
  | classify => none
  | handlers => some
      ("  asyncapi-openapi handlers \\\n" ++
        "    --input realtime.yml \\\n" ++
        "    --output src/realtime/handlers.rs")

end Verb

namespace Opt

def about : Opt → String
  | verbose => "Enable verbose output"
  | config => "YAML config file (flags override its values)"
  | input => "AsyncAPI spec file"
  | publish => "Comma-separated list of client-originated message names"
  | rename => "Comma-separated list of type names to prefix"
  | lead => "Prefix for renamed types"
  | renameMode => "How renamed types are located"
  | template => "OpenAPI template to merge schemas into"
  | output => "Output file"
  | clientMessages => "Where ClientMessages takes its names from"
  | json => "Print the classification as JSON"
  | modelsPath => "Module path of the generated models"
  | asynchronous => "Generate future-returning handlers and an async dispatcher"

def default? : Opt → Option String
  | modelsPath => some ({} : Handlers.Options).modelsPath
  | _ => none

def choices : Opt → List (String × String)
  | renameMode =>
      [("tree", "Exact match on schema keys and $ref targets"),
        ("text", "Left-bounded match on the raw text")]
  | clientMessages =>
      [("subscribe", "Same list as ServerMessages"), ("publish", "Client-originated messages")]
  | _ => []

def usage (opt : Opt) : String :=
  if opt.isFlag then "--" ++ opt.long
  else
    let value := opt.long.toList.map fun c => if c == '-' then '_' else c.toUpper
    "--" ++ opt.long ++ " <" ++ String.ofList value ++ ">"

end Opt

namespace Help

structure Row where
  shown : String
  about : String
  default? : Option String
  choices : List (String × String)

def lettered (letter : Option Char) (word : String) : String :=
  match letter with
  | some letter => "-" ++ String.singleton letter ++ ", " ++ word
  | none => "    " ++ word

def flagRow (letter : Char) (word about : String) : Row :=
  ⟨lettered (some letter) word, about, none, []⟩

def optionRow (opt : Opt) : Row :=
  ⟨lettered opt.short? opt.usage, opt.about, opt.default?, opt.choices⟩

def longest (texts : List String) : Nat := (texts.map (·.length)).foldr max 0

def padded (width : Nat) (text : String) : String :=
  text ++ String.ofList (List.replicate (width - text.length) ' ')

def table (rows : List (String × String)) : String :=
  let width := longest (rows.map (·.1))
  String.intercalate "\n" (rows.map fun row => "  " ++ padded width row.1 ++ "  " ++ row.2)

namespace Row

def note (row : Row) : String :=
  let chosen :=
    if row.choices.isEmpty then ""
    else " [possible values: " ++ String.intercalate ", " (row.choices.map (·.1)) ++ "]"
  match row.default? with
  | some value => row.about ++ " [default: " ++ value ++ "]" ++ chosen
  | none => row.about ++ chosen

def below (text : String) : String := "\n          " ++ text

def full (row : Row) : String :=
  let value :=
    match row.default? with
    | some value => below "" ++ below ("[default: " ++ value ++ "]")
    | none => ""
  let width := longest (row.choices.map (·.1)) + 2
  let chosen :=
    if row.choices.isEmpty then ""
    else
      "\n" ++ below "Possible values:" ++
        String.join (row.choices.map fun choice =>
          below ("- " ++ padded width (choice.1 ++ ": ") ++ choice.2))
  "  " ++ row.shown ++ below row.about ++ value ++ chosen

end Row

/-- The rows leave little room on a line of a hundred characters, and some row needs more. -/
def crowded (rows : List Row) : Bool :=
  let taken := longest (rows.map (·.shown)) + 8
  decide (40 < taken) && rows.any fun row => decide (100 < taken + row.note.length)

def options (long : Bool) (rows : List Row) : String :=
  if long then String.intercalate "\n\n" (rows.map Row.full)
  else if crowded rows then
    String.intercalate "\n" (rows.map fun row => "  " ++ row.shown ++ Row.below row.note)
  else table (rows.map fun row => (row.shown, row.note))

def page (about usage : String) (sections : List (String × String)) : String :=
  about ++ "\n\nUsage: asyncapi-openapi " ++ usage ++ "\n" ++
    String.join (sections.map fun part => "\n" ++ part.1 ++ ":\n" ++ part.2 ++ "\n")

def helpAbout : String := "Print this message or the help of the given subcommand(s)"

/-- The page of the program. It is the same at length, as there is no more to say. -/
def program : String :=
  let verbs := [Verb.transform, .classify, .handlers].map fun verb => (verb.name, verb.about)
  let rows := [optionRow .verbose, flagRow 'h' "--help" "Print help",
    flagRow 'V' "--version" "Print version"]
  page "Turn AsyncAPI message specs into OpenAPI documents" "[OPTIONS] <COMMAND>"
    [("Commands", table (verbs ++ [("help", helpAbout)])), ("Options", options false rows)]

/-- The page of a command. It names its short or its long form, whichever it is not. -/
def verb (verb : Verb) (long : Bool) : String :=
  let other := if long then "Print help (see a summary with '-h')"
    else "Print help (see more with '--help')"
  let required := if verb = .handlers then " " ++ Opt.output.usage else ""
  let rows := (Opt.ofVerb verb).map optionRow ++ [flagRow 'h' "--help" other]
  page verb.about (verb.name ++ " [OPTIONS]" ++ required)
    (("Options", options long rows) ::
      (match verb.examples? with
      | some text => [("EXAMPLES", text)]
      | none => []))

def text (subject : Page) (long : Bool) : String :=
  match subject with
  | .program => program
  | .verb command => verb command long
  | .help =>
      page helpAbout "help [COMMAND]..."
        [("Arguments", table [("[COMMAND]...", "Print help for the subcommand(s)")])]

end Help

end MessageSchema.Command
