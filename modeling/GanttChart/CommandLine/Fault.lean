/-! Why the system does not do what it is asked for. -/

namespace GanttChart.CommandLine

inductive Fault where
  /-- Nothing is there. -/
  | missing
  /-- A step on the way is no folder. -/
  | notFolder
  /-- There is a folder where a file was wanted. -/
  | folder
  | longName
  | denied
  /-- The disk is full. -/
  | noRoom
  /-- Nobody reads any more what is written. -/
  | closed
  /-- The disk fails. -/
  | damaged
  deriving DecidableEq

/-- The words and the number of the system for a fault. -/
def Fault.message : Fault → String
  | missing => "No such file or directory (os error 2)"
  | notFolder => "Not a directory (os error 20)"
  | folder => "Is a directory (os error 21)"
  | longName => "File name too long (os error 36)"
  | denied => "Permission denied (os error 13)"
  | noRoom => "No space left on device (os error 28)"
  | closed => "Broken pipe (os error 32)"
  | damaged => "Input/output error (os error 5)"

end GanttChart.CommandLine
