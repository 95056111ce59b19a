import GanttChart.Text.Quoted
import GanttChart.Value

/-! Why a structured value is not of an expected shape. -/

namespace GanttChart

inductive ShapeError where
  /-- A value of one kind where another was wanted. -/
  | wrongKind (got : Value) (wanted : String)
  /-- A list standing for a record, with too few or too many items. -/
  | wrongLength (length : Nat) (wanted : String)
  | missingField (name : String)
  | unknownVariant (name : String) (known : List String)
  /-- An object standing for a variant must have one key. -/
  | notSingleKey
  /-- A value that fits none of the forms of a type. -/
  | noForm (type : String)

namespace ShapeError

/-- What a value is, in messages. -/
def kind : Value → String
  | .null => "null"
  | .bool true => "boolean `true`"
  | .bool false => "boolean `false`"
  | .num (.whole n) => "integer `" ++ toString n ++ "`"
  | .num (.real x) => "floating point `" ++ Number.Style.value.text x ++ "`"
  | .str s => "string " ++ Text.quoted s
  | .list _ => "sequence"
  | .object _ => "map"

def message : ShapeError → String
  | wrongKind got wanted => "invalid type: " ++ kind got ++ ", expected " ++ wanted
  | wrongLength n wanted => "invalid length " ++ toString n ++ ", expected " ++ wanted
  | missingField name => "missing field `" ++ name ++ "`"
  | unknownVariant name known =>
    "unknown variant `" ++ name ++ "`, expected "
      ++ String.intercalate " or " (known.map fun k => "`" ++ k ++ "`")
  | notSingleKey => "invalid value: map, expected map with a single key"
  | noForm type => "data did not match any variant of untagged enum " ++ type

end ShapeError

end GanttChart
