import GanttChart.CommandLine.Fault
import GanttChart.CommandLine.Run

/-! The command line program. -/

namespace GanttChart.CommandLine

/-- The number and the words of the system for a failure. -/
def reason : IO.Error → String
  | .noFileOrDirectory _ _ _ => Fault.missing.message
  | .permissionDenied _ code _ =>
    if code = 1 then "Operation not permitted (os error 1)" else Fault.denied.message
  | .inappropriateType _ code _ =>
    if code = 20 then Fault.notFolder.message else Fault.folder.message
  | .invalidArgument _ code _ =>
    if code = 36 then Fault.longName.message else "Invalid argument (os error 22)"
  | .resourceExhausted _ code details =>
    if code = 28 then Fault.noRoom.message else details
  | .resourceVanished code details =>
    if code = 32 then Fault.closed.message else details
  | .hardwareFault code details =>
    if code = 5 then Fault.damaged.message else details
  | e => toString e

/-- An action whose failure is told by its reason. -/
def withReason {α : Type} (action : IO α) : ExceptT String IO α :=
  ExceptT.mk do
    try
      return .ok (← action)
    catch e => return .error (reason e)

def systemFolder : Folder IO where
  read path := withReason (IO.FS.readBinFile path)
  write path text := withReason (IO.FS.writeFile path text)
  input := withReason (do (← IO.getStdin).readBinToEnd)

def systemStreams : Streams IO where
  print text := withReason do
    let stdout ← IO.getStdout
    stdout.putStr text
    stdout.flush
  tell text := withReason (IO.eprint text)

end GanttChart.CommandLine

def main (arguments : List String) : IO UInt32 := do
  let code ← GanttChart.CommandLine.run GanttChart.CommandLine.systemFolder
    GanttChart.CommandLine.systemStreams (arguments.map String.toUTF8)
  return code.toUInt32
