import GanttChart.Proofs.Document.Fields

/-! # Documents that are written, coerced and read back

A document that is written as a structured value and coerced is read back as the same document, but
for the names of closed weekdays and for the numbers that periods and progresses have become. -/

namespace GanttChart

open Coercion Outcome

/-! ## What coercing changes -/

/-- A scalar becomes the finite number that it is or that its text stands for. -/
inductive Scalar.CoercedTo (read : String → Option Float) : Scalar → Scalar → Prop
  | number {x : Float} (hx : Number.isFinite x = true) : CoercedTo read (.number x) (.number x)
  | text {s : String} {x : Float} (hs : read s = some x) (hx : Number.isFinite x = true) :
      CoercedTo read (.text s) (.number x)

structure PlanRange.CoercedTo (hours : Float) (r r' : PlanRange) : Prop where
  start : r'.start = r.start
  finish : r'.finish = r.finish
  period : Option.Rel (Scalar.CoercedTo (readPeriod? hours)) r.period r'.period

inductive PlanSpec.CoercedTo (hours : Float) : PlanSpec → PlanSpec → Prop
  | point (day : String) : CoercedTo hours (.point day) (.point day)
  | range {r r' : PlanRange} (h : r.CoercedTo hours r') : CoercedTo hours (.range r) (.range r')

structure ActualRange.CoercedTo (hours : Float) (r r' : ActualRange) : Prop where
  start : r'.start = r.start
  finish : r'.finish = r.finish
  completed : r'.completed = r.completed
  period : Option.Rel (Scalar.CoercedTo (readPeriod? hours)) r.period r'.period
  progress : Option.Rel (Scalar.CoercedTo readProgress?) r.progress r'.progress

inductive ActualSpec.CoercedTo (hours : Float) : ActualSpec → ActualSpec → Prop
  | point (day : String) : CoercedTo hours (.point day) (.point day)
  | range {r r' : ActualRange} (h : r.CoercedTo hours r') : CoercedTo hours (.range r) (.range r')

structure TaskRecord.CoercedTo (hours : Float) (t t' : TaskRecord) : Prop where
  name : t'.name = t.name
  text : t'.text = t.text
  plan : Option.Rel (PlanSpec.CoercedTo hours) t.plan t'.plan
  actual : Option.Rel (ActualSpec.CoercedTo hours) t.actual t'.actual
  assignee : t'.assignee = t.assignee

structure MilestoneRecord.CoercedTo (hours : Float) (m m' : MilestoneRecord) : Prop where
  name : m'.name = m.name
  text : m'.text = m.text
  plan : Option.Rel (PlanSpec.CoercedTo hours) m.plan m'.plan
  actual : Option.Rel (ActualSpec.CoercedTo hours) m.actual m'.actual

/-- The full name of the weekday that an entry begins with, or else the entry itself. -/
def closedName (entry : String) : String := ((Weekday.ofText? entry).map Weekday.name).getD entry

structure Document.CoercedTo (config : ChartConfig) (d d' : Document) : Prop where
  project : d'.project = { d.project with closed := d.project.closed.map closedName }
  colors : d'.colors = d.colors
  tasks : List.Forall₂ (TaskRecord.CoercedTo config.hoursPerDay) d.tasks d'.tasks
  milestones :
    List.Forall₂ (MilestoneRecord.CoercedTo config.hoursPerDay) d.milestones d'.milestones
  groups : d'.groups = d.groups

/-! ## Scalars -/

namespace Scalar

variable {hours : Float} {path : Option String} {read : String → Option Float}

theorem coerceAt_toValue (s : Scalar) :
    coerceAt hours path s.toValue = coerceLeaf hours path s.toValue := by
  cases s with
  | text s => rfl
  | number x =>
    rw [toValue, Value.ofFloat]
    split <;> rfl

/-- A number that is not finite is written as null, which coercing does not take for a number. -/
theorem coercedTo_of_finiteNumber? {s : Scalar} {w : Value}
    (h : finiteNumber? read s.toValue = some w) :
    ∃ x, w = .num (.real x) ∧ s.CoercedTo read (.number x) := by
  cases s with
  | text s =>
    simp only [toValue, finiteNumber?] at h
    cases hs : read s with
    | none => simp [hs] at h
    | some x =>
      simp only [hs, Option.ite_none_right_eq_some, Option.some.injEq] at h
      exact ⟨x, h.2.symm, .text hs h.1⟩
  | number x =>
    by_cases hx : Number.isFinite x
    · simp only [toValue, Value.ofFloat, hx, if_true, finiteNumber?, Num.toFloat,
        Option.some.injEq] at h
      exact ⟨x, h.symm, .number hx⟩
    · simp [toValue, Value.ofFloat, hx, finiteNumber?] at h

theorem carried {rule : Rule} (hpath : rule? (path.getD "") = some rule)
    (hrule : ∀ v w, rule.apply hours v = .ok w → finiteNumber? read v = some w) :
    Carried hours path toValue ofValue (CoercedTo read) := by
  intro s w hw
  rw [coerceAt_toValue, coerceLeaf, hpath] at hw
  obtain ⟨x, rfl, hx⟩ := coercedTo_of_finiteNumber? (hrule _ _ hw)
  exact ⟨by simp, .number x, rfl, hx⟩

theorem carried_period (h : rule? (path.getD "") = some .period) :
    Carried hours path toValue ofValue (CoercedTo (readPeriod? hours)) := by
  refine carried h fun v w hw => ?_
  simp only [Rule.apply] at hw
  split at hw
  · cases hw
    assumption
  · cases hw

theorem carried_progress (h : rule? (path.getD "") = some .progress) :
    Carried hours path toValue ofValue (CoercedTo readProgress?) := by
  refine carried h fun v w hw => ?_
  simp only [Rule.apply] at hw
  split at hw
  · cases hw
    assumption
  · cases hw

end Scalar

/-! ## Plans -/

/-- Where plans stand: of the fields there only the period is rewritten. -/
structure IsPlanPath (path : Option String) : Prop where
  self : rule? (path.getD "") = none
  start : rule? ((extend path "start").getD "") = none
  finish : rule? ((extend path "end").getD "") = none
  period : rule? ((extend path "period").getD "") = some .period

/-- Where actual blocks stand: of the fields there only the period and the progress are
rewritten. -/
structure IsActualPath (path : Option String) : Prop where
  self : rule? (path.getD "") = none
  start : rule? ((extend path "start").getD "") = none
  finish : rule? ((extend path "end").getD "") = none
  completed : rule? ((extend path "completed").getD "") = none
  period : rule? ((extend path "period").getD "") = some .period
  progress : rule? ((extend path "progress").getD "") = some .progress

section Blocks

open Fields

variable {hours : Float} {path : Option String}

theorem PlanRange.carried (hp : IsPlanPath path) : Carried hours path toValue
    (fun w => (Fields.ofValue "PlanRange" w).bind ofFields) (CoercedTo hours) := by
  intro r w hw
  obtain ⟨gs, rfl, hg⟩ := coerceAt_ofFields hw
  have hstart := optional_text "start" hp.start hg (o := r.start) (by simp) 0
  have hfinish := optional_text "end" hp.finish hg (o := r.finish) (by simp) 1
  obtain ⟨period, hperiod, hrel⟩ := optional_of_carried "period"
    (Scalar.carried_period hp.period) hg (o := r.period) (by simp) 2
  refine ⟨by simp, ⟨r.start, r.finish, period⟩, ?_, rfl, rfl, hrel⟩
  simp only [Fields.ofValue, Except.bind, ofFields, hstart, hfinish, hperiod, fault?]
  rw [check_named (by simp)]
  rfl

theorem PlanSpec.carried (hp : IsPlanPath path) :
    Carried hours path toValue ofValue (CoercedTo hours) := by
  intro plan w hw
  cases plan with
  | point day =>
    rw [toValue, coerceAt, coerceLeaf, hp.self] at hw
    cases hw
    exact ⟨by simp, .point day, rfl, .point day⟩
  | range r =>
    obtain ⟨hnull, r', hr, hrel⟩ := PlanRange.carried hp r w hw
    refine ⟨hnull, .range r', ?_, .range hrel⟩
    cases w with
    | str s => cases hr
    | _ => simp only [ofValue, hr]

theorem ActualRange.carried (hp : IsActualPath path) : Carried hours path toValue
    (fun w => (Fields.ofValue "ActualRange" w).bind ofFields) (CoercedTo hours) := by
  intro r w hw
  obtain ⟨gs, rfl, hg⟩ := coerceAt_ofFields hw
  have hstart := optional_text "start" hp.start hg (o := r.start) (by simp) 0
  have hfinish := optional_text "end" hp.finish hg (o := r.finish) (by simp) 1
  have hcompleted := optional_text "completed" hp.completed hg (o := r.completed) (by simp) 2
  obtain ⟨period, hperiod, hrel⟩ := optional_of_carried "period"
    (Scalar.carried_period hp.period) hg (o := r.period) (by simp) 3
  obtain ⟨progress, hprogress, hrel'⟩ := optional_of_carried "progress"
    (Scalar.carried_progress hp.progress) hg (o := r.progress) (by simp) 4
  refine ⟨by simp, ⟨r.start, r.finish, r.completed, period, progress⟩, ?_, rfl, rfl, rfl, hrel,
    hrel'⟩
  simp only [Fields.ofValue, Except.bind, ofFields, hstart, hfinish, hcompleted, hperiod,
    hprogress, fault?]
  rw [check_named (by simp)]
  rfl

theorem ActualSpec.carried (hp : IsActualPath path) :
    Carried hours path toValue ofValue (CoercedTo hours) := by
  intro block w hw
  cases block with
  | point day =>
    rw [toValue, coerceAt, coerceLeaf, hp.self] at hw
    cases hw
    exact ⟨by simp, .point day, rfl, .point day⟩
  | range r =>
    obtain ⟨hnull, r', hr, hrel⟩ := ActualRange.carried hp r w hw
    refine ⟨hnull, .range r', ?_, .range hrel⟩
    cases w with
    | str s => cases hr
    | _ => simp only [ofValue, hr]

end Blocks

/-! ## Records -/

section Records

open Fields

variable {hours : Float}

theorem TaskRecord.carried :
    Carried hours (some "task.elem") toValue ofValue (CoercedTo hours) := by
  intro t w hw
  obtain ⟨gs, rfl, hg⟩ := coerceAt_ofFields hw
  have hname := given_text "name" rfl hg (s := t.name) (by simp) 0
  have htext := optional_text "text" rfl hg (o := t.text) (by simp) 1
  obtain ⟨plan, hplan, hrel⟩ := optional_of_carried "plan"
    (PlanSpec.carried (by constructor <;> rfl)) hg (o := t.plan) (by simp) 2
  obtain ⟨actual, hactual, hrel'⟩ := optional_of_carried "actual"
    (ActualSpec.carried (by constructor <;> rfl)) hg (o := t.actual) (by simp) 3
  have hassignee := optional_text "assignee" rfl hg (o := t.assignee) (by simp) 4
  refine ⟨by simp, ⟨t.name, t.text, plan, actual, t.assignee⟩, ?_, rfl, rfl, hrel, hrel', rfl⟩
  simp only [ofValue, Fields.ofValue, bind, Except.bind, hname, htext, hplan, hactual, hassignee,
    fault?]
  rw [check_named (by simp)]
  rfl

theorem MilestoneRecord.carried :
    Carried hours (some "milestone.elem") toValue ofValue (CoercedTo hours) := by
  intro m w hw
  obtain ⟨gs, rfl, hg⟩ := coerceAt_ofFields hw
  have hname := given_text "name" rfl hg (s := m.name) (by simp) 0
  have htext := optional_text "text" rfl hg (o := m.text) (by simp) 1
  obtain ⟨plan, hplan, hrel⟩ := optional_of_carried "plan"
    (PlanSpec.carried (by constructor <;> rfl)) hg (o := m.plan) (by simp) 2
  obtain ⟨actual, hactual, hrel'⟩ := optional_of_carried "actual"
    (ActualSpec.carried (by constructor <;> rfl)) hg (o := m.actual) (by simp) 3
  refine ⟨by simp, ⟨m.name, m.text, plan, actual⟩, ?_, rfl, rfl, hrel, hrel'⟩
  simp only [ofValue, Fields.ofValue, bind, Except.bind, hname, htext, hplan, hactual, fault?]
  rw [check_named (by simp)]
  rfl

theorem carried_strings {path : Option String} (h : rule? ((extend path itemKey).getD "") = none) :
    Carried hours path Value.strings (readList readText) Eq := by
  intro names w hw
  obtain ⟨hnull, names', hread, hrel⟩ := Carried.list (.text h) names w hw
  exact ⟨hnull, names', hread, List.forall₂_eq_eq_eq ▸ hrel⟩

theorem GroupRecord.carried :
    Carried hours (some "group.elem") toValue ofValue Eq := by
  intro g w hw
  obtain ⟨gs, rfl, hg⟩ := coerceAt_ofFields hw
  have htext := given_text "text" rfl hg (s := g.text) (by simp) 0
  obtain ⟨member, hmember, rfl⟩ := given_of_carried "member" (carried_strings rfl) hg
    (a := g.member) (by simp) 1
  refine ⟨by simp, g, ?_, rfl⟩
  simp only [ofValue, Fields.ofValue, bind, Except.bind, htext, hmember, fault?]
  rw [check_named (by simp)]
  rfl

theorem ColorStyle.carried :
    Carried hours (some "style.color") toValue ofValue Eq := by
  intro c w hw
  obtain ⟨gs, rfl, hg⟩ := coerceAt_ofFields hw
  have htask := optional_text "task" rfl hg (o := c.task) (by simp) 0
  have hmilestone := optional_text "milestone" rfl hg (o := c.milestone) (by simp) 1
  have hpath := optional_text "path" rfl hg (o := c.path) (by simp) 2
  refine ⟨by simp, c, ?_, rfl⟩
  simp only [ofValue, Fields.ofValue, bind, Except.bind, htask, hmilestone, hpath, fault?]
  rw [check_named (by simp)]
  rfl

theorem ColorStyle.carried_section :
    Carried hours (some "style") (fun c : ColorStyle => .ofFields [("color", c.toValue)]) ofSection
      Eq := by
  intro c w hw
  obtain ⟨gs, rfl, hg⟩ := coerceAt_ofFields hw
  obtain ⟨color, hcolor, rfl⟩ := given_of_carried "color" ColorStyle.carried hg
    (a := c) (by simp) 0
  refine ⟨by simp, c, ?_, rfl⟩
  simp only [ofSection, Fields.ofValue, bind, Except.bind, hcolor, fault?]
  rw [check_named (by simp)]
  rfl

theorem Scale.carried {path : Option String} (h : rule? (path.getD "") = none) :
    Carried hours path (fun s : Scale => .str s.name) ofValue Eq := by
  intro s w hw
  rw [coerceAt, coerceLeaf, h] at hw
  cases hw
  exact ⟨by simp, s, by cases s <;> rfl, rfl⟩

theorem closedDay_str (entry : String) : closedDay (.str entry) = .str (closedName entry) := by
  simp only [closedDay, closedName]
  cases Weekday.ofText? entry <;> rfl

theorem carried_closed {path : Option String}
    (h : rule? ((extend path itemKey).getD "") = some .closedDay) :
    Carried hours path Value.strings (readList readText)
      (fun entries entries' => entries' = entries.map closedName) := by
  intro entries w hw
  have hentry : Carried hours (extend path itemKey) .str readText
      (fun entry entry' => closedName entry = entry') := by
    intro entry w hw
    rw [coerceAt, coerceLeaf, h] at hw
    simp only [Rule.apply, closedDay_str, Except.ok.injEq] at hw
    subst hw
    exact ⟨by simp, closedName entry, rfl, rfl⟩
  obtain ⟨hnull, entries', hread, hrel⟩ := Carried.list hentry entries w hw
  refine ⟨hnull, entries', hread, ?_⟩
  rw [← List.forall₂_map_left_iff, List.forall₂_eq_eq_eq] at hrel
  exact hrel.symm

theorem ProjectSection.carried : Carried hours (some "project") toValue ofValue
    (fun p p' => p' = { p with closed := p.closed.map closedName }) := by
  intro p w hw
  obtain ⟨gs, rfl, hg⟩ := coerceAt_ofFields hw
  have hstart := optional_text "start" rfl hg (o := p.start) (by simp) 0
  have hfinish := optional_text "end" rfl hg (o := p.finish) (by simp) 1
  have htoday := optional_text "today" rfl hg (o := p.today) (by simp) 2
  obtain ⟨closed, hclosed, rfl⟩ := given_of_carried "closed" (carried_closed rfl) hg
    (a := p.closed) (by simp) 3
  obtain ⟨scale, hscale, hrel⟩ := optional_of_carried "scale" (Scale.carried rfl) hg
    (o := p.scale) (by simp) 4
  obtain rfl := Fields.eq_of_rel_eq hrel
  refine ⟨by simp, _, ?_, rfl⟩
  simp only [ofValue, Fields.ofValue, bind, Except.bind, hstart, hfinish, htoday, hclosed, hscale,
    fault?]
  rw [check_named (by simp)]
  rfl

theorem Document.carried {config : ChartConfig} :
    Carried config.hoursPerDay none toValue ofValue (CoercedTo config) := by
  intro d w hw
  obtain ⟨gs, rfl, hg⟩ := coerceAt_ofFields hw
  obtain ⟨project, hproject, rfl⟩ := given_of_carried "project" ProjectSection.carried hg
    (a := d.project) (by simp) 0
  obtain ⟨colors, hcolors, rfl⟩ := given_of_carried "style" ColorStyle.carried_section hg
    (a := d.colors) (by simp) 1
  obtain ⟨tasks, htasks, hrel⟩ := given_of_carried "task"
    (Carried.list TaskRecord.carried) hg (a := d.tasks) (by simp) 2
  obtain ⟨milestones, hmilestones, hrel'⟩ := given_of_carried "milestone"
    (Carried.list MilestoneRecord.carried) hg (a := d.milestones) (by simp) 3
  obtain ⟨groups, hgroups, hrel''⟩ := given_of_carried "group"
    (Carried.list GroupRecord.carried) hg (a := d.groups) (by simp) 4
  obtain rfl : d.groups = groups := List.forall₂_eq_eq_eq ▸ hrel''
  refine ⟨by simp, ⟨_, d.colors, tasks, milestones, d.groups⟩, ?_, rfl, rfl, hrel, hrel', rfl⟩
  simp only [ofValue, Fields.ofValue, bind, Except.bind, hproject, hcolors, htasks, hmilestones,
    hgroups, fault?]
  rw [check_named (by simp)]
  rfl

end Records

/-! ## All periods and progresses -/

def PlanSpec.scalars : PlanSpec → List Scalar
  | point _ => []
  | range r => r.period.toList

def ActualSpec.scalars : ActualSpec → List Scalar
  | point _ => []
  | range r => r.period.toList ++ r.progress.toList

def TaskRecord.scalars (t : TaskRecord) : List Scalar :=
  t.plan.toList.flatMap PlanSpec.scalars ++ t.actual.toList.flatMap ActualSpec.scalars

def MilestoneRecord.scalars (m : MilestoneRecord) : List Scalar :=
  m.plan.toList.flatMap PlanSpec.scalars ++ m.actual.toList.flatMap ActualSpec.scalars

/-- The periods and the progresses of all plans and actual blocks. -/
def Document.scalars (d : Document) : List Scalar :=
  d.tasks.flatMap TaskRecord.scalars ++ d.milestones.flatMap MilestoneRecord.scalars

def Scalar.IsFiniteNumber (s : Scalar) : Prop := ∃ x, s = .number x ∧ Number.isFinite x = true

section Numbers

variable {hours : Float} {config : ChartConfig}

theorem exists_of_rel {α β : Type} {R : α → β → Prop} {o : Option α} {o' : Option β} {b : β}
    (h : Option.Rel R o o') (hb : b ∈ o'.toList) : ∃ a, R a b := by
  cases h with
  | none => cases hb
  | some h => exact ⟨_, List.mem_singleton.mp hb ▸ h⟩

theorem Scalar.CoercedTo.isFiniteNumber {read : String → Option Float} {s s' : Scalar}
    (h : s.CoercedTo read s') : s'.IsFiniteNumber := by
  cases h with
  | number hx => exact ⟨_, rfl, hx⟩
  | text _ hx => exact ⟨_, rfl, hx⟩

theorem PlanSpec.CoercedTo.isFiniteNumber {p p' : PlanSpec} (h : p.CoercedTo hours p') :
    ∀ s ∈ p'.scalars, s.IsFiniteNumber := by
  intro s hs
  cases h with
  | point day => cases hs
  | range h =>
    obtain ⟨_, hr⟩ := exists_of_rel h.period hs
    exact hr.isFiniteNumber

theorem ActualSpec.CoercedTo.isFiniteNumber {a a' : ActualSpec} (h : a.CoercedTo hours a') :
    ∀ s ∈ a'.scalars, s.IsFiniteNumber := by
  intro s hs
  cases h with
  | point day => cases hs
  | range h =>
    rcases List.mem_append.mp hs with hs | hs
    · obtain ⟨_, hr⟩ := exists_of_rel h.period hs
      exact hr.isFiniteNumber
    · obtain ⟨_, hr⟩ := exists_of_rel h.progress hs
      exact hr.isFiniteNumber

theorem isFiniteNumber_of_blocks {plan plan' : Option PlanSpec} {actual actual' : Option ActualSpec}
    (hp : Option.Rel (PlanSpec.CoercedTo hours) plan plan')
    (ha : Option.Rel (ActualSpec.CoercedTo hours) actual actual') :
    ∀ s ∈ plan'.toList.flatMap PlanSpec.scalars ++ actual'.toList.flatMap ActualSpec.scalars,
      s.IsFiniteNumber := by
  intro s hs
  rcases List.mem_append.mp hs with hs | hs
  · obtain ⟨p, hmem, hs⟩ := List.mem_flatMap.mp hs
    obtain ⟨_, hr⟩ := exists_of_rel hp hmem
    exact hr.isFiniteNumber s hs
  · obtain ⟨a, hmem, hs⟩ := List.mem_flatMap.mp hs
    obtain ⟨_, hr⟩ := exists_of_rel ha hmem
    exact hr.isFiniteNumber s hs

/-- No text is left where a period or a progress stands. -/
theorem Document.CoercedTo.isFiniteNumber {d d' : Document} (h : d.CoercedTo config d') :
    ∀ s ∈ d'.scalars, s.IsFiniteNumber := by
  intro s hs
  rcases List.mem_append.mp hs with hs | hs
  · obtain ⟨t, ht, hs⟩ := List.mem_flatMap.mp hs
    obtain ⟨_, _, hr⟩ := exists_of_forall₂ h.tasks.flip t ht
    exact isFiniteNumber_of_blocks hr.plan hr.actual s hs
  · obtain ⟨m, hm, hs⟩ := List.mem_flatMap.mp hs
    obtain ⟨_, _, hr⟩ := exists_of_forall₂ h.milestones.flip m hm
    exact isFiniteNumber_of_blocks hr.plan hr.actual s hs

end Numbers

end GanttChart
