import GanttChart.Source

/-! Command line options. -/

namespace GanttChart.CommandLine

structure Options where
  format : Format
  /-- Where the settings are read from. -/
  config : Option String
  scale : Option Scale
  /-- Where the drawing goes; standard output when open. -/
  output : Option String
  /-- Where the schedule is read from; standard input when open. -/
  input : Option String

def Options.standard : Options := ⟨.plain, none, none, none, none⟩

/-- What an option needs that stands last. -/
inductive Need where
  | path
  | scale

inductive UsageError where
  | missingValue (option : String) (need : Need)
  | unknownScale (text : String)
  | unknownOption (option : String)
  | extraArgument (argument : String)

def UsageError.message : UsageError → String
  | missingValue option .path => option ++ " needs a path"
  | missingValue option .scale => option ++ " needs daily or weekly"
  | unknownScale text => Scale.unknownMessage text
  | unknownOption option => "unknown option \x27" ++ option ++ "\x27"
  | extraArgument argument => "unexpected extra argument \x27" ++ argument ++ "\x27"

namespace Options

/-- Reads arguments from left to right into the options before them; none when help is asked for.
A lone dash takes back an input file. -/
def readFrom (o : Options) : List String → Except UsageError (Option Options)
  | [] => .ok (some o)
  | "-h" :: _ => .ok none
  | "--help" :: _ => .ok none
  | "--json" :: rest => readFrom { o with format := .json } rest
  | "--yaml" :: rest => readFrom { o with format := .yaml } rest
  | ["--config"] => .error (.missingValue "--config" .path)
  | "--config" :: path :: rest => readFrom { o with config := some path } rest
  | ["--scale"] => .error (.missingValue "--scale" .scale)
  | "--scale" :: text :: rest =>
    match Scale.ofText? text with
    | some scale => readFrom { o with scale := some scale } rest
    | none => .error (.unknownScale text)
  | ["-o"] => .error (.missingValue "--output" .path)
  | ["--output"] => .error (.missingValue "--output" .path)
  | "-o" :: path :: rest => readFrom { o with output := some path } rest
  | "--output" :: path :: rest => readFrom { o with output := some path } rest
  | "-" :: rest => readFrom { o with input := none } rest
  | argument :: rest =>
    if argument.startsWith "-" then .error (.unknownOption argument)
    else if o.input.isSome then .error (.extraArgument argument)
    else readFrom { o with input := some argument } rest

/-- Reads all arguments; none when help is asked for. -/
def read (arguments : List String) : Except UsageError (Option Options) :=
  readFrom .standard arguments

end Options

/-- What a command line asks for. -/
inductive Order where
  | draw (o : Options)
  | help
  | refuse (e : UsageError)
  /-- Reading comes to an argument that is no text, and panics. -/
  | panic

/-- The texts of the arguments up to the first one that is no text, and whether there is such a
one. -/
def textsBefore : List ByteArray → List String × Bool
  | [] => ([], false)
  | octets :: rest =>
    match String.fromUTF8? octets with
    | some text => (text :: (textsBefore rest).1, (textsBefore rest).2)
    | none => ([], true)

/-- What becomes of a result that was read from texts, with or without an argument behind them that
is no text. An option that needs a value comes to the argument behind it, as does all that is read
to its end. -/
def Order.ofResult (broken : Bool) : Except UsageError (Option Options) → Order
  | .ok none => .help
  | .ok (some o) => if broken then .panic else .draw o
  | .error (.missingValue option need) =>
    if broken then .panic else .refuse (.missingValue option need)
  | .error e => .refuse e

/-- Reads arguments, which are turned into text one by one as reading comes to them. -/
def Order.ofArguments (arguments : List ByteArray) : Order :=
  .ofResult (textsBefore arguments).2 (Options.read (textsBefore arguments).1)

end GanttChart.CommandLine
