import GanttChart.Chart.ErrorText
import GanttChart.Drawing.Svg
import GanttChart.ResponseCache
import GanttChart.Service.Address
import GanttChart.Service.Payload
import GanttChart.Source

/-! The chart service. A schedule comes as the payload of an address and goes out as SVG; a fault
in it is drawn as text. A client that names itself gets its last good chart back with the fault
below it. -/

namespace GanttChart.Service

structure Request where
  method : String
  address : Address

structure Response where
  status : Nat
  contentType : Option String
  cacheControl : Option String
  body : String

/-- Settings, and the last good charts by the names of clients. -/
structure State where
  config : ChartConfig
  cache : ResponseCache Drawing

namespace Response

def bare (status : Nat) : Response := ⟨status, none, none, ""⟩

/-- What is said of a request that cannot be understood. -/
def refusal (body : String) : Response := ⟨400, some "text/plain; charset=utf-8", none, body⟩

/-- A drawing, which is not to be stored by others. -/
def chart (d : Drawing) : Response :=
  ⟨200, some "image/svg+xml; charset=utf-8", some "no-store", d.svg⟩

def healthy : Response := ⟨200, some "application/json", none, "\x7b\"status\":\"ok\"\x7d"⟩

end Response

/-- What is answered at an address. -/
inductive Route where
  | health
  /-- The chart of a payload, a segment of the path as it is written. -/
  | chart (format : Format) (segment : String)

/-- The formats by the path segments that stand for them. -/
def formats : List (String × Format) := [("sch", .plain), ("json", .json), ("yaml", .yaml)]

def Route.of? : List String → Option Route
  | ["", "health"] => some .health
  | ["", name, "svg", segment] =>
    if segment.isEmpty then none
    else (formats.find? fun f => f.1 == name).map fun f => .chart f.2 segment
  | _ => none

/-- The name a client gives itself; naming it twice is a fault. -/
def client? (a : Address) : Except String (Option String) :=
  match a.valuesOf "client_id" with
  | [] => .ok none
  | [client] => .ok (some client)
  | _ => .error "Failed to deserialize query string: duplicate field `client_id`"

/-- The drawing of a payload, or what is wrong with it. -/
def draw (config : ChartConfig) (format : Format) (payload : String) : Except String Drawing :=
  match Payload.decode payload with
  | .error fault => .error ("invalid payload: " ++ fault.message)
  | .ok text =>
    match Drawing.ofText format text config none with
    | .ok d => .ok d
    | .error e => .error e.message

namespace State

/-- Answers with a drawing and keeps it for the client, or with what is wrong below the client's
last good drawing, which is kept as it was. Where a drawing cannot be kept since its expiry is past
the last time, the panic of the cache leaves no answer. -/
def answer (s : State) (result : Except String Drawing) (client : Option String) (now : Nat) :
    Option Drawing × State :=
  match result, client with
  | .ok d, some client =>
    ((s.cache.expiry? now).map fun _ => d, { s with cache := s.cache.insert client d now })
  | .ok d, none => (some d, s)
  | .error message, some client =>
    let (last, cache) := s.cache.get client now
    (some ((last.map fun d => d.appendError message).getD (.ofError message)),
      { s with cache := cache })
  | .error message, none => (some (.ofError message), s)

def serve (s : State) (route : Route) (a : Address) (now : Nat) : Option Response × State :=
  match route with
  | .health => (some .healthy, s)
  | .chart format segment =>
    match Address.segmentText? segment with
    | none => (some (.refusal "Invalid URL: Invalid UTF-8 in `payload`"), s)
    | some payload =>
      match client? a with
      | .error message => (some (.refusal message), s)
      | .ok client =>
        let (d, s) := s.answer (draw s.config format payload) client now
        (d.map .chart, s)

/-- Responds to a request at a time in milliseconds. Addresses are looked up before methods; a
request for the head of an answer gets the answer without its body. -/
def respond (s : State) (r : Request) (now : Nat) : Option Response × State :=
  match Route.of? r.address.segments with
  | none => (some (.bare 404), s)
  | some route =>
    if r.method = "GET" then s.serve route r.address now
    else if r.method = "HEAD" then
      let (response, s) := s.serve route r.address now
      (response.map fun response => { response with body := "" }, s)
    else (some (.bare 405), s)

/-- The same with what a client sees of a connection that is closed without a response. -/
def handle (s : State) (r : Request) (now : Nat) : Response × State :=
  let (response, s) := s.respond r now
  (response.getD (.bare 0), s)

end State

end GanttChart.Service
