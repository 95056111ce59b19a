import GanttChart.CommandLine.Options
import GanttChart.Drawing.Svg

/-! What a command line does: it draws the schedule of a file or of standard input. Files and
streams are given from outside, so that a run can be followed without a system. -/

namespace GanttChart.CommandLine

/-- Access to files in a monad; a failure is told by its reason. -/
structure Folder (m : Type → Type) where
  /-- The octets of a file. -/
  read : String → ExceptT String m ByteArray
  /-- Writes a text to a file. -/
  write : String → String → ExceptT String m Unit
  /-- The octets of all of standard input. -/
  input : ExceptT String m ByteArray

/-- Standard output and standard error in a monad; a failure is told by its reason. -/
structure Streams (m : Type → Type) where
  print : String → ExceptT String m Unit
  tell : String → ExceptT String m Unit

def help : String :=
  "Usage: cli [options] [<input>|-]\n\nRender a schedule as an SVG Gantt chart. "
    ++ "Reads stdin when no input file is given.\n\nOptions:\n"
    ++ "  --json                    Input is a JSON schedule document instead of notation\n"
    ++ "  --yaml                    Input is a YAML schedule document instead of notation\n"
    ++ "  --config <path>           JSON chart configuration file\n"
    ++ "  --scale <daily|weekly>    Override the scale set in the schedule\n"
    ++ "  -o, --output <path>       Write the SVG to a file instead of stdout\n"
    ++ "  -h, --help                Show this help\n"

variable {m : Type → Type} [Monad m]

/-- The failure of an action with what was tried in front of its reason. -/
def attempting {α : Type} (what : String) (action : ExceptT String m α) : ExceptT String m α :=
  action.adapt fun reason => what ++ ": " ++ reason

/-- Octets as text; they have to be UTF-8. -/
def textOf (octets : ByteArray) : ExceptT String m String :=
  match String.fromUTF8? octets with
  | some text => return text
  | none => throw "stream did not contain valid UTF-8"

def Folder.readFile (folder : Folder m) (path : String) : ExceptT String m String :=
  attempting ("cannot read " ++ path) do textOf (← folder.read path)

/-- A result in which a fault is told by its message. -/
def orMessage {α : Type} (result : Except ScheduleError α) : ExceptT String m α :=
  match result with
  | .ok a => return a
  | .error e => throw e.message

def Folder.readConfig (folder : Folder m) : Option String → ExceptT String m ChartConfig
  | none => return .standard
  | some path => do
    let text ← folder.readFile path
    attempting ("invalid config " ++ path) (orMessage (ChartConfig.read text))

def Folder.readInput (folder : Folder m) : Option String → ExceptT String m String
  | some path => folder.readFile path
  | none => attempting "cannot read stdin" do textOf (← folder.input)

/-- The drawing that the options ask for. Settings are read first, then the schedule. -/
def Options.drawing (o : Options) (folder : Folder m) : ExceptT String m Drawing := do
  let config ← folder.readConfig o.config
  let text ← folder.readInput o.input
  orMessage (Drawing.ofText o.format text config o.scale)

/-- Writes a drawing where the options want it. -/
def Options.send (o : Options) (folder : Folder m) (streams : Streams m) (d : Drawing) :
    ExceptT String m Unit :=
  match o.output with
  | none =>
    attempting "cannot write stdout" do
      streams.print d.svg
      streams.print "\n"
  | some path => attempting ("cannot write " ++ path) (folder.write path d.svg)

/-- Draws what the options say; nothing is written before the drawing is there. -/
def Options.draw (o : Options) (folder : Folder m) (streams : Streams m) :
    ExceptT String m Unit := do
  let d ← o.drawing folder
  o.send folder streams d

/-- The exit code of a panic. What the runtime writes about it is left out. -/
def panicCode : Nat := 101

/-- Goes on after something has been said; that it cannot be said is a panic. -/
def said (action : ExceptT String m Unit) (next : m Nat) : m Nat := do
  match ← action.run with
  | .ok () => next
  | .error _ => return panicCode

def errorLine (message : String) : String := "error: " ++ message ++ "\n"

/-- What is wrong with the arguments is told together with the help. -/
def Streams.misuse (streams : Streams m) (e : UsageError) : m Nat :=
  said (streams.tell (errorLine e.message)) (said (streams.print help) (return 2))

/-- Does what a command line asks for, and gives the exit code. -/
def Order.run (folder : Folder m) (streams : Streams m) : Order → m Nat
  | .panic => return panicCode
  | .refuse e => streams.misuse e
  | .help => said (streams.print CommandLine.help) (return 0)
  | .draw o => do
    match ← (o.draw folder streams).run with
    | .ok () => return 0
    | .error message => said (streams.tell (errorLine message)) (return 1)

def run (folder : Folder m) (streams : Streams m) (arguments : List ByteArray) : m Nat :=
  (Order.ofArguments arguments).run folder streams

end GanttChart.CommandLine
