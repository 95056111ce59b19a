import GanttChart.Proofs.Cache.History
import GanttChart.Service.Router
import Mathlib

/-! # Answers over a run of requests

Requests come to the service one after the other. Each one that is drawn for a client is one
operation on the cache, so that the history of requests is a history of the cache. What a failing
request is answered with is read off the requests of the same client before it. A drawing that the
cache panics at, as its expiry lies past the last time of the clock, is not answered with, and its
request is none of the successful ones. -/

namespace GanttChart.Service

open ResponseCache (Operation Lasts)

/-- What a request for a chart comes to: its drawing or what is wrong with it, and the name that the
client gives itself. -/
structure Rendering where
  result : Except String Drawing
  client : Option String

/-- None for a request that asks for no chart or is refused before anything is drawn. -/
def Request.rendering? (r : Request) (config : ChartConfig) : Option Rendering :=
  match Route.of? r.address.segments with
  | some (.chart format segment) =>
    match Address.segmentText? segment, client? r.address with
    | some payload, .ok client =>
      if r.method = "GET" ∨ r.method = "HEAD" then some ⟨draw config format payload, client⟩
      else none
    | _, _ => none
  | _ => none

structure Arrival where
  request : Request
  time : Nat

variable {config : ChartConfig} {ttl horizon now t : Nat} {past past' : List Arrival} {a : Arrival}
  {r : Request} {q : Rendering} {client : String} {d : Drawing} {s : State}

namespace Rendering

/-- What it does to the cache, if anything. -/
def operation? (q : Rendering) (now : Nat) : Option (Operation Drawing) :=
  match q.result, q.client with
  | .ok d, some client => some (.insert client d now)
  | .error _, some client => some (.get client now)
  | _, none => none

end Rendering

namespace Arrival

def rendering? (a : Arrival) (config : ChartConfig) : Option Rendering :=
  a.request.rendering? config

def operation? (config : ChartConfig) (a : Arrival) : Option (Operation Drawing) :=
  (a.rendering? config).bind fun q => q.operation? a.time

/-- Whether it is a request for a chart by a client of that name. -/
def isFrom (config : ChartConfig) (client : String) (a : Arrival) : Bool :=
  (a.rendering? config).any fun q => q.client == some client

end Arrival

namespace State

def start (config : ChartConfig) (ttl horizon : Nat) : State := ⟨config, .emptyUntil horizon ttl⟩

/-- The service after requests, from the start on. -/
def after (config : ChartConfig) (ttl horizon : Nat) (past : List Arrival) : State :=
  past.foldl (fun s a => (s.respond a.request a.time).2) (start config ttl horizon)

/-! ## One request -/

theorem respond_of_rendering? (h : r.rendering? s.config = some q) (now : Nat) :
    (s.respond r now).2 = (s.answer q.result q.client now).2 ∧
      (r.method = "GET" →
        (s.respond r now).1 = (s.answer q.result q.client now).1.map Response.chart) := by
  unfold Request.rendering? at h
  split at h
  · rename_i format segment hroute
    split at h
    · rename_i payload client hpayload hclient
      split at h
      · rename_i hmethod
        cases h
        simp only [respond, hroute, serve, hpayload, hclient]
        rcases hmethod with hm | hm <;> simp [hm]
      · cases h
    · cases h
  · cases h

theorem respond_of_no_rendering (h : r.rendering? s.config = none) (now : Nat) :
    (s.respond r now).2 = s := by
  unfold respond
  split
  · rfl
  rename_i route hroute
  have hserve (hm : r.method = "GET" ∨ r.method = "HEAD") :
      (s.serve route r.address now).2 = s := by
    unfold serve
    split
    · rfl
    split
    · rfl
    rename_i format segment payload hpayload
    split
    · rfl
    rename_i client hclient
    simp [Request.rendering?, hroute, hpayload, hclient, hm] at h
  split
  · exact hserve (.inl (by assumption))
  split
  · exact hserve (.inr (by assumption))
  · rfl

theorem state_answer (s : State) (q : Rendering) (now : Nat) :
    (s.answer q.result q.client now).2 =
      { s with cache := (q.operation? now).toList.foldl ResponseCache.apply s.cache } := by
  obtain ⟨result, client⟩ := q
  cases result <;> cases client <;> rfl

/-- What a request leaves behind is the cache after its operation. -/
theorem state_respond (s : State) (a : Arrival) :
    (s.respond a.request a.time).2 =
      { s with cache := (a.operation? s.config).toList.foldl ResponseCache.apply s.cache } := by
  unfold Arrival.operation? Arrival.rendering?
  cases h : a.request.rendering? s.config with
  | none => exact respond_of_no_rendering h a.time
  | some q =>
    rw [(respond_of_rendering? h a.time).1]
    exact state_answer s q a.time

/-! ## A run of requests -/

/-- A history of requests is a history of operations on the cache. -/
theorem after_eq (config : ChartConfig) (ttl horizon : Nat) (past : List Arrival) :
    after config ttl horizon past =
      ⟨config, .after ttl horizon (past.filterMap (Arrival.operation? config))⟩ := by
  induction past using List.reverseRecOn with
  | nil => rfl
  | append_singleton past a ih =>
    rw [after, List.foldl_append, List.foldl_cons, List.foldl_nil, ← after, ih, state_respond]
    cases h : a.operation? config <;> simp [h, ResponseCache.after]

end State

/-- A request is answered with a drawing of its own that is kept for a client. -/
def Arrival.Succeeds (config : ChartConfig) (ttl horizon : Nat) (a : Arrival) (client : String)
    (d : Drawing) : Prop :=
  a.rendering? config = some ⟨.ok d, some client⟩ ∧ a.time + ttl ≤ horizon

/-- The latest successful request of a client came at a time and brought a drawing. -/
def LastGood (config : ChartConfig) (ttl horizon : Nat) (past : List Arrival) (client : String)
    (d : Drawing) (t : Nat) : Prop :=
  ∃ a, a.time = t ∧ a.Succeeds config ttl horizon client d ∧
    ∃ earlier later, past = earlier ++ a :: later ∧
      ∀ b ∈ later, ∀ d', ¬ b.Succeeds config ttl horizon client d'

theorem lastGood_concat : LastGood config ttl horizon (past ++ [a]) client d t ↔
    (a.time = t ∧ a.Succeeds config ttl horizon client d) ∨
      (LastGood config ttl horizon past client d t ∧
        ∀ d', ¬ a.Succeeds config ttl horizon client d') := by
  simp only [LastGood, Outcome.exists_moment_concat, List.forall_mem_append,
    List.forall_mem_singleton, List.not_mem_nil, false_implies, implies_true, and_true, and_or_left,
    exists_or, ← and_assoc, exists_and_right, exists_eq_right']

/-- A rendering for a client is an operation at its time, and it inserts what was drawn. -/
theorem Rendering.operation?_eq_some {o : Operation Drawing} (h : q.operation? now = some o) :
    o.time = now ∧ ∀ client d t,
      o = .insert client d t ↔ now = t ∧ q = ⟨.ok d, some client⟩ := by
  obtain ⟨result, client⟩ := q
  cases client with
  | none => cases result <;> cases h
  | some client =>
    cases result with
    | error message =>
      cases h
      simp [Operation.time]
    | ok d =>
      cases h
      simp [Operation.time, and_comm, and_left_comm]

theorem Arrival.operation?_eq_some {o : Operation Drawing} (h : a.operation? config = some o) :
    o.time = a.time ∧ ∀ client d t,
      o = .insert client d t ↔ a.time = t ∧ a.rendering? config = some ⟨.ok d, some client⟩ := by
  obtain ⟨q, hq, ho⟩ := Option.bind_eq_some_iff.mp h
  simpa [hq] using Rendering.operation?_eq_some ho

theorem Arrival.not_succeeds_of_operation? (h : a.operation? config = none) :
    ¬ a.Succeeds config ttl horizon client d := by
  intro hgood
  rw [operation?, hgood.1] at h
  cases h

/-- A request stores what a client has succeeded with, and nothing else. -/
theorem Arrival.stored?_eq_some {o : Operation Drawing} (h : a.operation? config = some o) :
    o.stored? ttl horizon = some client ↔ ∃ d, a.Succeeds config ttl horizon client d := by
  obtain ⟨htime, hinsert⟩ := operation?_eq_some h
  cases o with
  | get key time =>
    refine iff_of_false nofun fun hgood => ?_
    obtain ⟨d, hrendering, -⟩ := hgood
    exact nomatch (hinsert client d a.time).mpr ⟨rfl, hrendering⟩
  | insert key d time =>
    obtain ⟨rfl, hrendering⟩ := (hinsert key d time).mp rfl
    simp [Operation.stored?, Succeeds, hrendering, and_comm]

/-- While no request came later than now, what the cache holds for a client is the drawing of its
latest successful request, as long as that is young. -/
theorem lasts_iff_lastGood (hclock : ∀ a ∈ past, a.time ≤ now) :
    Lasts ttl horizon (past.filterMap (Arrival.operation? config) ++ [.get client now]) client d t ↔
      LastGood config ttl horizon past client d t ∧ now < t + ttl := by
  rw [ResponseCache.lasts_concat]
  simp only [reduceCtorEq, false_and, false_or, Operation.stored?, ne_eq, not_false_eq_true,
    true_and, Operation.time]
  refine and_congr_left fun hyoung => ?_
  induction past using List.reverseRecOn with
  | nil => simp [Lasts, LastGood]
  | append_singleton past a ih =>
    rw [List.forall_mem_append, List.forall_mem_singleton] at hclock
    rw [List.filterMap_append, lastGood_concat, ← ih hclock.1]
    cases ho : a.operation? config with
    | none =>
      simp [ho, Arrival.not_succeeds_of_operation? ho]
    | some o =>
      obtain ⟨htime, hinsert⟩ := Arrival.operation?_eq_some ho
      have hlt : o.time < t + ttl := by
        rw [htime]
        exact Nat.lt_of_le_of_lt hclock.2 hyoung
      have hlast : o = .insert client d t ∧ t + ttl ≤ horizon ↔
          a.time = t ∧ a.Succeeds config ttl horizon client d := by
        rw [hinsert, Arrival.Succeeds, and_assoc]
        refine and_congr_right fun htime => ?_
        rw [htime]
      have hold : o.stored? ttl horizon ≠ some client ↔
          ∀ d', ¬ a.Succeeds config ttl horizon client d' := by
        rw [ne_eq, Arrival.stored?_eq_some ho, not_exists]
      simp [ho, ResponseCache.lasts_concat, hlast, hlt, hold]

theorem get_after (hclock : ∀ a ∈ past, a.time ≤ now) :
    ((State.after config ttl horizon past).cache.get client now).1 = some d ↔
      ∃ t, LastGood config ttl horizon past client d t ∧ now < t + ttl := by
  rw [State.after_eq, ResponseCache.get_after]
  exact exists_congr fun t => lasts_iff_lastGood hclock

/-- Only the requests of a client itself decide which one was its latest success. -/
theorem lastGood_filter (past : List Arrival) :
    LastGood config ttl horizon (past.filter (Arrival.isFrom config client)) client d t ↔
      LastGood config ttl horizon past client d t := by
  induction past using List.reverseRecOn with
  | nil => rfl
  | append_singleton past a ih =>
    rw [List.filter_append, lastGood_concat, ← ih]
    by_cases ha : a.isFrom config client
    · rw [List.filter_singleton, ha, cond_true, lastGood_concat]
    · have hne (d' : Drawing) : ¬ a.Succeeds config ttl horizon client d' := by
        intro hgood
        simp [Arrival.isFrom, hgood.1] at ha
      simp [ha, hne]

theorem exists_arrival_of_kept {e : Kept Drawing}
    (h : e ∈ (State.after config ttl horizon past).cache.entries) :
    ∃ a ∈ past, a.Succeeds config ttl horizon e.key e.value := by
  rw [State.after_eq] at h
  obtain ⟨t, ⟨hshown, earlier, later, hops, _⟩, _⟩ := ResponseCache.mem_after.mp h
  have hmem : Operation.insert e.key e.value t ∈ past.filterMap (Arrival.operation? config) := by
    simp [hops]
  obtain ⟨a, ha, ho⟩ := List.mem_filterMap.mp hmem
  obtain ⟨rfl, hrendering⟩ := ((Arrival.operation?_eq_some ho).2 _ _ _).mp rfl
  exact ⟨a, ha, hrendering, hshown⟩

/-- The drawing that a rendering is answered with: its own one, or else what is wrong, below the
latest good drawing of the client while that is young. -/
inductive Rendering.AnsweredWith (ttl now : Nat) (good : String → Drawing → Nat → Prop) :
    Rendering → Drawing → Prop
  | own (d : Drawing) (client : Option String) : AnsweredWith ttl now good ⟨.ok d, client⟩ d
  | below {client : String} {d : Drawing} {t : Nat} (message : String) (hgood : good client d t)
      (hyoung : now < t + ttl) :
      AnsweredWith ttl now good ⟨.error message, some client⟩ (d.appendError message)
  | alone {client : String} (message : String) (hgone : ∀ d t, good client d t → t + ttl ≤ now) :
      AnsweredWith ttl now good ⟨.error message, some client⟩ (.ofError message)
  | anonymous (message : String) :
      AnsweredWith ttl now good ⟨.error message, none⟩ (.ofError message)

theorem answer_eq_none_iff {result : Except String Drawing} {client : Option String} :
    ((State.after config ttl horizon past).answer result client now).1 = none ↔
      horizon < now + ttl ∧ ∃ d c, result = .ok d ∧ client = some c := by
  rw [State.after_eq]
  cases result <;> cases client <;> simp [State.answer, ResponseCache.expiry?_eq_none]

theorem answeredWith_answer (hclock : ∀ a ∈ past, a.time ≤ now) (q : Rendering)
    (h : ((State.after config ttl horizon past).answer q.result q.client now).1 = some d) :
    q.AnsweredWith ttl now (LastGood config ttl horizon past) d := by
  obtain ⟨result, client⟩ := q
  cases result with
  | ok d' =>
    have hsame : d' = d := by
      cases client with
      | none => exact Option.some.inj h
      | some client =>
        obtain ⟨_, -, hsame⟩ := Option.map_eq_some_iff.mp h
        exact hsame
    rw [hsame]
    exact .own d client
  | error message =>
    cases client with
    | none =>
      cases h
      exact .anonymous message
    | some client =>
      cases hget : ((State.after config ttl horizon past).cache.get client now).1 with
      | none =>
        simp only [State.answer, hget] at h
        cases h
        refine .alone message fun d t hgood => ?_
        by_contra hold
        rw [(get_after hclock).mpr ⟨t, hgood, Nat.not_le.mp hold⟩] at hget
        cases hget
      | some last =>
        simp only [State.answer, hget] at h
        cases h
        obtain ⟨t, hgood, hyoung⟩ := (get_after hclock).mp hget
        exact .below message hgood hyoung

/-- A client is answered the same after any requests among which its own are the same. -/
theorem answer_congr (hclock : ∀ a ∈ past, a.time ≤ now) (hclock' : ∀ a ∈ past', a.time ≤ now)
    (hown : past'.filter (Arrival.isFrom config client) =
      past.filter (Arrival.isFrom config client)) (result : Except String Drawing) :
    ((State.after config ttl horizon past').answer result (some client) now).1 =
      ((State.after config ttl horizon past).answer result (some client) now).1 := by
  cases result with
  | ok d => simp [State.answer, State.after_eq, ResponseCache.expiry?]
  | error message =>
    have hget : ((State.after config ttl horizon past').cache.get client now).1 =
        ((State.after config ttl horizon past).cache.get client now).1 := by
      refine Option.ext fun d => ?_
      rw [get_after hclock, get_after hclock']
      simp only [← lastGood_filter past, ← lastGood_filter past', hown]
    simp only [State.answer, hget]

/-- A schedule of nine days in April of the year 1, as the payload of an address. -/
def nineDays : String := "cHJvamVjdCBsYXN0cyAxLzQvMSB0byAxLzQvOQp0b2RheSBpcyAxLzQvMg"

def Request.byClient (payload client : String) : Request :=
  ⟨"GET", ["", "sch", "svg", payload], ("client_id=" ++ client).toList⟩

/-- Two clients ask for the same chart, one second after the other. -/
def visits : List Arrival :=
  [⟨.byClient nineDays "c1", 0⟩, ⟨.byClient nineDays "c2", 1000⟩]

theorem rendering?_byClient {payload client : String} (hne : payload.isEmpty = false)
    (hpayload : Address.segmentText? payload = some payload)
    (hclient : client? (Request.byClient payload client).address = .ok (some client)) :
    (Request.byClient payload client).rendering? config =
      some ⟨draw config .plain payload, some client⟩ := by
  have hroute : Route.of? (Request.byClient payload client).address.segments =
      some (.chart .plain payload) := by
    simp [Request.byClient, Route.of?, hne, formats]
  simp only [Request.rendering?, hroute, hpayload, hclient]
  simp [Request.byClient]

theorem exists_drawing_nineDays : ∃ d, draw .standard .plain nineDays = .ok d := by
  have hpayload : Payload.decode nineDays =
      .ok "project lasts 1/4/1 to 1/4/9\ntoday is 1/4/2" := by cbv
  have hok : (Schedule.ofText .plain "project lasts 1/4/1 to 1/4/9\ntoday is 1/4/2" .standard
      none).isOk = true := by cbv
  obtain ⟨s, hs⟩ := Outcome.exists_of_isOk hok
  exact ⟨s.drawing .standard, by simp [draw, hpayload, Drawing.ofText, hs, Except.map]⟩

end GanttChart.Service
