import GanttChart.Number.Hexadecimal
import GanttChart.Text.Cut
import GanttChart.Text.Utf8

/-! Request addresses: a path of segments between slashes, and a query of fields between
ampersands. A protocol and a host in front do not matter. Octets may be written as a percent sign
and two hexadecimal digits; a percent sign without them stands for itself. -/

namespace GanttChart.Service

structure Address where
  /-- The segments as they are written; the first is what stands before the leading slash. -/
  segments : List String
  query : List Char

namespace Address

def isProtocolChar (c : Char) : Bool := c.isAlphanum || c == '+' || c == '-' || c == '.' || c == '~'

/-- What follows the protocol and the host of an address; one without them is left as it is. -/
def withoutHost (cs : List Char) : List Char :=
  match Text.after? [':', '/', '/'] (cs.dropWhile isProtocolChar) with
  | some rest => rest.dropWhile fun c => c != '/' && c != '?'
  | none => cs

/-- Reads an address; what follows a hash sign is not part of it. -/
def read (s : String) : Address :=
  let cs := withoutHost (s.toList.takeWhile (· != '#'))
  let (path, query) := (Text.cut? ['?'] cs).getD (cs, [])
  ⟨(Text.fields '/' path).map String.ofList, query⟩

/-- The octets of a text with those behind percent signs put in. -/
def octets : List Char → List Nat
  | [] => []
  | '%' :: a :: b :: rest =>
    match Number.hexValue? [a, b] with
    | some n => n :: octets rest
    | none => Text.Utf8.encodeChar '%' ++ octets (a :: b :: rest)
  | c :: rest => Text.Utf8.encodeChar c ++ octets rest

/-- The text of a path segment; none when its octets are no text. -/
def segmentText? (segment : String) : Option String :=
  match Text.Utf8.decode (octets segment.toList) with
  | .ok cs => some (String.ofList cs)
  | .error _ => none

/-- The text of a part of a query, where a plus sign stands for a space and octets that are no text
are replaced. -/
def queryText (cs : List Char) : String :=
  String.ofList (Text.Utf8.lossy (octets (cs.map fun c => if c = '+' then ' ' else c)))

/-- The fields of a query, keys and values; a field without an equals sign has an empty value. -/
def queryFields (query : List Char) : List (String × String) :=
  ((Text.fields '&' query).filter fun field => !field.isEmpty).map fun field =>
    let (key, value) := (Text.cut? ['='] field).getD (field, [])
    (queryText key, queryText value)

def valuesOf (a : Address) (key : String) : List String :=
  ((queryFields a.query).filter fun field => field.1 == key).map (·.2)

end Address

end GanttChart.Service
