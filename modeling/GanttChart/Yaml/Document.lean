import GanttChart.Text.Utf8
import GanttChart.Yaml.Node

/-! YAML streams of at most one document. Directives stand before a document and need its start to
be marked. -/

namespace GanttChart.Yaml

namespace Token

def isDirective : Token → Bool
  | version _ _ => true
  | tagDirective _ _ => true
  | _ => false

/-- Whether a token is a version other than 1.1 and 1.2. -/
def isForeignVersion : Token → Bool
  | version major minor => !(major == 1 && (minor == 1 || minor == 2))
  | _ => false

def isVersion : Token → Bool
  | version _ _ => true
  | _ => false

/-- The handle that a directive declares and what it stands for. -/
def handle? : Token → Option (String × Tag)
  | tagDirective handle lead => some (handle, lead)
  | _ => none

end Token

/-- The octets of a core tag of YAML, by what stands behind the part they share. -/
def coreTag (name : String) : Tag :=
  Text.Utf8.encode ("tag:yaml.org,2002:".toList ++ name.toList)

/-- Handles that need no directive. -/
def standardHandles : List (String × Tag) := [("!", ['!'.toNat]), ("!!", coreTag "")]

/-- The handles that directives declare, and the standard ones behind them. There is one version at
most, and no handle is declared twice. -/
def handles? (directives : List Token) : Option (List (String × Tag)) :=
  let declared := directives.filterMap Token.handle?
  if directives.any Token.isForeignVersion || 1 < directives.countP Token.isVersion
      || (declared.map (·.1)).eraseDups.length < declared.length then none
  else some (declared ++ standardHandles)

/-- The root of a document whose start was marked; nothing need follow. -/
def Read.markedRoot (fuel : Nat) : Read Node := do
  match ← Read.peek? with
  | none => return .empty
  | some t =>
    if t.isDirective || t == .documentStart || t == .documentEnd then return .empty
    else Read.node true false fuel

/-- The root node of the only document; an empty stream counts as an empty document. -/
def Node.ofTokens? (tokens : List Token) : Option Node := do
  let (directives, rest) := tokens.span Token.isDirective
  let handles ← handles? directives
  let fuel := 3 * tokens.length + 3
  let (root, r) ←
    match rest with
    | .documentStart :: content => (Read.markedRoot fuel).run ⟨content, handles, []⟩
    | _ =>
      if !directives.isEmpty then none
      else if rest.isEmpty then some (.empty, ⟨[], [], []⟩)
      else (Read.node true false fuel).run ⟨rest, handles, []⟩
  if (r.tokens.dropWhile (· == .documentEnd)).isEmpty then some root else none

end GanttChart.Yaml
