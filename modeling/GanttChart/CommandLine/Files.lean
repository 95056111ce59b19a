import GanttChart.CommandLine.Fault
import GanttChart.CommandLine.Run

/-! Command lines run over files that are held as a list, with a folder in which the run takes place
and with streams: standard input is a pipe, and the others collect what is written. The system may
refuse to read or to open whatever stands in a place, and everything that is written to may fail
after a part. There are no links: a folder is reached in one way. -/

namespace GanttChart.CommandLine

/-- The names on the way from the root folder. -/
abbrev Place := List String

inductive Stream where
  | stdin
  | stdout
  | stderr
  | nowhere
  deriving DecidableEq

inductive Entry where
  | folder
  | file (octets : ByteArray)
  /-- A device, through which a stream is read and written. -/
  | device (s : Stream)

/-- What octets are written to. -/
inductive Sink where
  | file (place : Place)
  | stream (s : Stream)
  deriving DecidableEq

/-- What the system refuses: to read in a place, to open what is in a place or to put a file there,
and to take more than so many octets for a sink. -/
structure Limits where
  reading : Place → Option Fault
  opening : Place → Option Fault
  taking : Sink → Option (Nat × Fault)

def Limits.none : Limits := ⟨fun _ => .none, fun _ => .none, fun _ => .none⟩

structure Files where
  /-- What is in which place; the root folder is none of them. -/
  entries : List (Place × Entry)
  /-- The folder that paths without a leading slash start from. -/
  here : Place
  /-- What is still to be read from standard input. -/
  stdin : Except Fault ByteArray
  /-- What has been written to standard output. -/
  stdout : ByteArray
  stderr : ByteArray
  limits : Limits

namespace Files

/-- The devices of a system, and the folder of `ofTexts`. -/
def usual : List (Place × Entry) :=
  [(["dev"], .folder), (["dev", "null"], .device .nowhere), (["dev", "stdin"], .device .stdin),
    (["dev", "stdout"], .device .stdout), (["dev", "stderr"], .device .stderr),
    (["tmp"], .folder), (["tmp", "run"], .folder)]

/-- A folder with the given texts by their names, in a system without limits. -/
def ofTexts (texts : List (String × String)) (stdin : String) : Files where
  entries := usual ++ texts.map fun (name, text) => (["tmp", "run", name], .file text.toUTF8)
  here := ["tmp", "run"]
  stdin := .ok stdin.toUTF8
  stdout := .empty
  stderr := .empty
  limits := .none

def content? (f : Files) (place : Place) : Option Entry :=
  if place.isEmpty then some .folder else (f.entries.find? fun e => e.1 == place).map (·.2)

/-- The files of the folder that hold texts, by their names. -/
def namedTexts (f : Files) : List (String × String) :=
  f.entries.filterMap fun (place, entry) =>
    match entry, place.getLast? with
    | .file octets, some name =>
      if place.dropLast = f.here then (String.fromUTF8? octets).map fun text => (name, text)
      else none
    | _, _ => none

/-! ## Paths -/

/-- Whether a step of a path names something, rather than a folder seen from another one. -/
def isName (step : String) : Bool := step != "." && step != ".."

/-- How many octets a name may be long. -/
def nameLimit : Nat := 255

/-- How many octets a path may be long. -/
def pathLimit : Nat := 4095

def isLong (step : String) : Bool := nameLimit < step.utf8ByteSize

/-- Follows steps that have to lead from a folder to a folder. -/
def walk (f : Files) : Place → List String → Except Fault Place
  | inside, [] => .ok inside
  | inside, "." :: rest => f.walk inside rest
  | inside, ".." :: rest => f.walk inside.dropLast rest
  | inside, name :: rest =>
    if isLong name then .error .longName
    else
      match f.content? (inside ++ [name]) with
      | some .folder => f.walk (inside ++ [name]) rest
      | some _ => .error .notFolder
      | none => .error .missing

/-- The steps of a path; empty ones mean nothing. -/
def stepsOf (path : String) : List String :=
  (Text.fieldsOf '/' path).filter fun step => !step.isEmpty

/-- A place with what is in it; it is good for a file if there is no folder. If nothing is there,
that is a fault unless `creating` is true. -/
def found (creating slash : Bool) (place : Place) : Option Entry → Except Fault Place
  | some .folder => .error .folder
  | some _ => if slash then .error .notFolder else .ok place
  | none => if creating then .ok place else .error .missing

/-- Where a path leads, to something that is no folder. A path with a slash at its end has to lead
to a folder. -/
def place (f : Files) (creating : Bool) (path : String) : Except Fault Place := do
  let slash := path.endsWith "/"
  if path.isEmpty then throw .missing
  if pathLimit < path.utf8ByteSize then throw .longName
  match (stepsOf path).getLast? with
  | none => throw .folder
  | some last =>
    let inside ← f.walk (if path.startsWith "/" then [] else f.here) (stepsOf path).dropLast
    if !isName last || (creating && slash) then throw .folder
    if isLong last then throw .longName
    found creating slash (inside ++ [last]) (f.content? (inside ++ [last]))

/-! ## Reading and writing -/

/-- Reads standard input to its end, and nothing is left of it. -/
def drain (f : Files) : Except Fault ByteArray × Files := (f.stdin, { f with stdin := .ok .empty })

def read (f : Files) (path : String) : Except Fault ByteArray × Files :=
  match f.place false path with
  | .error fault => (.error fault, f)
  | .ok place =>
    match f.limits.reading place, f.content? place with
    | some fault, _ => (.error fault, f)
    | none, some (.file octets) => (.ok octets, f)
    | none, some (.device .stdin) => f.drain
    | none, some (.device _) => (.ok .empty, f)
    | none, _ => (.error .missing, f)

/-- What is written to through a path. -/
def sink (f : Files) (path : String) : Except Fault Sink := do
  let place ← f.place true path
  match f.limits.opening place, f.content? place with
  | some fault, _ => throw fault
  | none, some (.device s) => return .stream s
  | none, _ => return .file place

/-- Puts a file in a place, instead of an earlier one. -/
def put (f : Files) (place : Place) (octets : ByteArray) : Files :=
  { f with entries := (f.entries.filter fun e => e.1 != place) ++ [(place, .file octets)] }

/-- How many octets a sink has taken before; a file starts anew when it is opened. -/
def used (f : Files) : Sink → Nat
  | .stream .stdout => f.stdout.size
  | .stream .stderr => f.stderr.size
  | .stream .stdin | .stream .nowhere | .file _ => 0

/-- The files after octets have come to a sink: a file holds them and nothing else, and an output
stream has them behind earlier ones. -/
def arrive (f : Files) : Sink → ByteArray → Files
  | .file place, octets => f.put place octets
  | .stream .stdout, octets => { f with stdout := f.stdout ++ octets }
  | .stream .stderr, octets => { f with stderr := f.stderr ++ octets }
  | .stream .stdin, _ | .stream .nowhere, _ => f

/-- How many more octets a sink takes, and the fault of what follows; none if there is no end. -/
def room? (f : Files) (sink : Sink) : Option (Nat × Fault) :=
  (f.limits.taking sink).map fun (n, fault) => (n - f.used sink, fault)

/-- Writes octets to a sink. Where it has no room for all of them, as many as it has room for come
to it all the same, at least so far that a file has been opened and emptied. -/
def deliver (f : Files) (sink : Sink) (octets : ByteArray) : Except Fault Unit × Files :=
  match f.room? sink with
  | none => (.ok (), f.arrive sink octets)
  | some (n, fault) =>
    if octets.size ≤ n then (.ok (), f.arrive sink octets)
    else (.error fault, f.arrive sink (octets.extract 0 n))

def write (f : Files) (path text : String) : Except Fault Unit × Files :=
  match f.sink path with
  | .error fault => (.error fault, f)
  | .ok sink => f.deliver sink text.toUTF8

/-! ## Runs -/

/-- What a system does with its files, in a monad that keeps them. -/
def perform {α : Type} (action : Files → Except Fault α × Files) :
    ExceptT String (StateM Files) α :=
  ExceptT.mk fun f => ((action f).1.mapError Fault.message, (action f).2)

def folder : Folder (StateM Files) where
  read path := perform fun f => f.read path
  write path text := perform fun f => f.write path text
  input := perform drain

def streams : Streams (StateM Files) where
  print text := perform fun f => f.deliver (.stream .stdout) text.toUTF8
  tell text := perform fun f => f.deliver (.stream .stderr) text.toUTF8

/-- Runs a command line over the files, and gives its exit code and the files after it. -/
def execute (f : Files) (arguments : List ByteArray) : Nat × Files :=
  (CommandLine.run folder streams arguments).run f

structure Outcome where
  code : Nat
  stdout : String
  stderr : String

/-- The same for arguments that are texts, with the texts on the streams. -/
def run (f : Files) (arguments : List String) : Outcome × Files :=
  let (code, after) := f.execute (arguments.map String.toUTF8)
  let shown (octets : ByteArray) : String := (String.fromUTF8? octets).getD ""
  (⟨code, shown after.stdout, shown after.stderr⟩, after)

end Files

end GanttChart.CommandLine
