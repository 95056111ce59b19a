import GanttChart.Proofs.Outcome
import GanttChart.Schedule.Resolve

/-! # Plans as equations between days

The plan of an item is an equation for its days: the start is the value of one expression, and the
end is a number of business days from the start or the value of another expression. Expressions
take the days of other items from an assignment. Resolving a range against a table of plans
succeeds exactly with the days that solve its equation under the days of that table. -/

namespace GanttChart

/-- Where the plan of an item starts and ends. -/
structure PlanDays where
  start : Day
  finish : Day

/-- Days of items, by the names of the items. -/
abbrev Assignment := String → Option PlanDays

def Plan.days (p : Plan) : PlanDays := ⟨p.start, p.finish⟩

/-- The days of the plans made so far. -/
def PlanTable.days (t : PlanTable) : Assignment := fun name => (t.get? name).map Plan.days

/-- The value of an expression, where the items have the days of an assignment. The gap is kept
before the start and after the end of an item. -/
inductive DateExpr.Denotes (calendar : WorkCalendar) (gap : Int) (a : Assignment) :
    DateExpr → Day → Prop
  | literal (d : Day) : Denotes calendar gap a (.literal d) d
  | projectStart : Denotes calendar gap a .projectStart calendar.start
  | projectEnd : Denotes calendar gap a .projectEnd calendar.finish
  | startOf {name : String} {p : PlanDays} {d : Day} (hp : a name = some p)
      (hd : calendar.addWholeDays p.start (-gap) = .ok d) : Denotes calendar gap a (.startOf name) d
  | endOf {name : String} {p : PlanDays} {d : Day} (hp : a name = some p)
      (hd : calendar.addWholeDays p.finish gap = .ok d) : Denotes calendar gap a (.endOf name) d

/-- A text is there and can be read as an expression with the given value. -/
def DateExpr.Says (calendar : WorkCalendar) (gap : Int) (a : Assignment) (text : Option String)
    (d : Day) : Prop :=
  ∃ raw expr, text = some raw ∧ DateExpr.read? raw = some expr ∧ expr.Denotes calendar gap a d

/-- The equation of a range: the start is what the range says, and so is the end unless there is a
period, which then counts from the start. -/
structure PlanRange.Solved (calendar : WorkCalendar) (gap : Int) (a : Assignment) (r : PlanRange)
    (p : PlanDays) : Prop where
  start : DateExpr.Says calendar gap a r.start p.start
  finish : match r.period with
    | some period =>
      ∃ days, period = .number days ∧ calendar.addBusinessDays p.start days = .ok p.finish
    | none => DateExpr.Says calendar gap a r.finish p.finish

/-- An assignment gives days to exactly the items, and to each item days that solve its plan. -/
structure Assignment.Solves (calendar : WorkCalendar) (gap : Int) (entries : List Entry)
    (a : Assignment) : Prop where
  named : ∀ name, (a name).isSome ↔ name ∈ entries.map Entry.name
  solved : ∀ e ∈ entries, ∃ r p, e.range? = some r ∧ a e.name = some p ∧
    r.Solved calendar gap a p

variable {calendar : WorkCalendar} {gap : Int} {a b : Assignment}

/-- Two assignments give no item different days. -/
def Assignment.Agrees (a b : Assignment) : Prop :=
  ∀ name p q, a name = some p → b name = some q → p = q

theorem Assignment.Agrees.refl (a : Assignment) : a.Agrees a := by
  intro name p q hp hq
  exact Option.some.inj (hp.symm.trans hq)

/-! ## Values are determined by the days of the references -/

namespace DateExpr

variable {expr : DateExpr} {text : Option String} {d d' : Day}

theorem Denotes.eq_of_agrees (hab : a.Agrees b) (h : expr.Denotes calendar gap a d)
    (h' : expr.Denotes calendar gap b d') : d = d' := by
  cases h with
  | literal _ => cases h'; rfl
  | projectStart => cases h'; rfl
  | projectEnd => cases h'; rfl
  | startOf hp hd =>
    cases h' with
    | startOf hp' hd' =>
      rw [hab _ _ _ hp hp', hd'] at hd
      exact (Except.ok.inj hd).symm
  | endOf hp hd =>
    cases h' with
    | endOf hp' hd' =>
      rw [hab _ _ _ hp hp', hd'] at hd
      exact (Except.ok.inj hd).symm

theorem Denotes.transfer (h : expr.Denotes calendar gap a d)
    (hr : ∀ name p, expr.reference? = some name → a name = some p → b name = some p) :
    expr.Denotes calendar gap b d := by
  cases h with
  | literal d => exact .literal d
  | projectStart => exact .projectStart
  | projectEnd => exact .projectEnd
  | startOf hp hd => exact .startOf (hr _ _ rfl hp) hd
  | endOf hp hd => exact .endOf (hr _ _ rfl hp) hd

theorem Says.eq_of_agrees (hab : a.Agrees b) (h : Says calendar gap a text d)
    (h' : Says calendar gap b text d') : d = d' := by
  obtain ⟨raw, expr, rfl, he, hd⟩ := h
  obtain ⟨raw', expr', hraw, he', hd'⟩ := h'
  cases hraw
  rw [he] at he'
  cases he'
  exact hd.eq_of_agrees hab hd'

theorem Says.unique (h : Says calendar gap a text d) (h' : Says calendar gap a text d') : d = d' :=
  h.eq_of_agrees (.refl a) h'

theorem Says.transfer (h : Says calendar gap a text d)
    (hr : ∀ raw expr name p, text = some raw → read? raw = some expr →
      expr.reference? = some name → a name = some p → b name = some p) :
    Says calendar gap b text d := by
  obtain ⟨raw, expr, ht, he, hd⟩ := h
  exact ⟨raw, expr, ht, he, hd.transfer fun name p => hr raw expr name p ht he⟩

/-- An expression that depends on another item. -/
def origin? : DateExpr → Option DateExpr
  | startOf name => some (startOf name)
  | endOf name => some (endOf name)
  | _ => none

end DateExpr

namespace PlanRange

variable {r : PlanRange} {p p' : PlanDays}

theorem mem_references {name : String} :
    name ∈ r.references ↔ ∃ raw expr, (r.start = some raw ∨ r.finish = some raw) ∧
      DateExpr.read? raw = some expr ∧ expr.reference? = some name := by
  simp only [references, List.mem_filterMap, List.mem_append, Option.mem_toList,
    Option.bind_eq_some_iff]
  constructor
  · rintro ⟨raw, hraw, expr, he, hn⟩
    exact ⟨raw, expr, hraw, he, hn⟩
  · rintro ⟨raw, expr, hraw, he, hn⟩
    exact ⟨raw, hraw, expr, he, hn⟩

/-- Where two assignments agree, the equation of a range has the same solution under both. -/
theorem Solved.eq_of_agrees (hab : a.Agrees b) (h : r.Solved calendar gap a p)
    (h' : r.Solved calendar gap b p') : p = p' := by
  obtain ⟨start, finish⟩ := p
  obtain ⟨start', finish'⟩ := p'
  have hs : start = start' := h.start.eq_of_agrees hab h'.start
  subst hs
  have hf := h.finish
  have hf' := h'.finish
  cases hp : r.period with
  | none =>
    rw [hp] at hf hf'
    have he : finish = finish' := hf.eq_of_agrees hab hf'
    rw [he]
  | some period =>
    rw [hp] at hf hf'
    obtain ⟨days, rfl, hd⟩ := hf
    obtain ⟨days', hn, hd'⟩ := hf'
    cases hn
    have he : finish = finish' := Except.ok.inj (hd.symm.trans hd')
    rw [he]

theorem Solved.unique (h : r.Solved calendar gap a p) (h' : r.Solved calendar gap a p') : p = p' :=
  h.eq_of_agrees (.refl a) h'

/-- Only the days of the references matter to an equation. -/
theorem Solved.transfer (h : r.Solved calendar gap a p)
    (hr : ∀ name ∈ r.references, ∀ q, a name = some q → b name = some q) :
    r.Solved calendar gap b p := by
  refine ⟨h.start.transfer fun raw expr name q ht he hn => hr name ?_ q, ?_⟩
  · exact mem_references.mpr ⟨raw, expr, .inl ht, he, hn⟩
  · have hf := h.finish
    cases hp : r.period with
    | none =>
      rw [hp] at hf
      refine hf.transfer fun raw expr name q ht he hn => hr name ?_ q
      exact mem_references.mpr ⟨raw, expr, .inr ht, he, hn⟩
    | some period =>
      rw [hp] at hf
      exact hf

/-- The expressions of other items behind the start of a range. -/
def startOrigin (r : PlanRange) : Option DateExpr :=
  (r.start.bind DateExpr.read?).bind DateExpr.origin?

/-- The expressions of other items behind the end of a range, which a period overrides. -/
def finishOrigin (r : PlanRange) : Option DateExpr :=
  if r.period.isSome then none else (r.finish.bind DateExpr.read?).bind DateExpr.origin?

/-- A plan is made from a range: its days solve the equation, and it keeps their origins. -/
structure Makes (calendar : WorkCalendar) (gap : Int) (a : Assignment) (r : PlanRange)
    (plan : Plan) : Prop where
  solved : r.Solved calendar gap a plan.days
  startOrigin : plan.startOrigin = r.startOrigin
  finishOrigin : plan.finishOrigin = r.finishOrigin

end PlanRange

end GanttChart
