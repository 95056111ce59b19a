import GanttChart.Number.Decimal

/-! Structured values: what a schedule document is before it is known to be one. An object holds
its fields sorted by key, each key once; setting a field again replaces the value. -/

namespace GanttChart

/-- A number as a structured value holds it: whole numbers of 64 bits stay whole. -/
inductive Num where
  | whole (n : Int)
  | real (x : Float)

def Num.toFloat : Num → Float
  | .whole n => Number.ofInt n
  | .real x => x

inductive Value where
  | null
  | bool (b : Bool)
  | num (n : Num)
  | str (s : String)
  | list (items : List Value)
  | object (fields : List (String × Value))

namespace Value

/-- Puts a field where the order of keys wants it, in place of one with the same key. -/
def insertField (key : String) (v : Value) : List (String × Value) → List (String × Value)
  | [] => [(key, v)]
  | (k, w) :: rest =>
    if key = k then (key, v) :: rest
    else if key < k then (key, v) :: (k, w) :: rest
    else (k, w) :: insertField key v rest

/-- The object with the given fields; of several fields with one key the last one counts. -/
def ofFields (fields : List (String × Value)) : Value :=
  .object (fields.foldl (fun held field => insertField field.1 field.2 held) [])

/-- A double as a value; what is no finite number becomes null. -/
def ofFloat (x : Float) : Value := if Number.isFinite x then .num (.real x) else .null

def ofInt (n : Int) : Value := .num (.whole n)

/-- The value of an optional part, null when it is absent. -/
def orNull : Option Value → Value
  | some v => v
  | none => .null

def strings (items : List String) : Value := .list (items.map .str)

def field? (v : Value) (key : String) : Option Value :=
  match v with
  | .object fields => (fields.find? fun f => f.1 == key).map (·.2)
  | _ => none

def text? : Value → Option String
  | .str s => some s
  | _ => none

end Value

end GanttChart
