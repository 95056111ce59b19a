import GanttChart.Proofs.Calendar.Direction
import GanttChart.Proofs.Schedule.Ends
import GanttChart.Proofs.Schedule.Progress

/-! # Spans that run forward

Resolving does not compare the days it finds. The plan of a task ends before it starts if its period
is below minus one, or if it has no period and its texts say so; of the actual days the same is true
unless there is a progress above zero, which never leads back. -/

namespace GanttChart

open Outcome

/-- What is planned of a task does not end before it starts. -/
def Task.PlanForward (t : Task) : Prop := t.planStart ≤ t.planEnd

instance (t : Task) : Decidable t.PlanForward :=
  inferInstanceAs (Decidable (t.planStart ≤ t.planEnd))

/-- What has happened of a task does not end before it starts, if it has both days. -/
def Task.ActualForward (t : Task) : Prop :=
  ∀ first last, t.actualStart = some first → t.actualEnd = some last → first ≤ last

/-- A range says that it does not end before it starts. -/
inductive PlanRange.Forward (calendar : WorkCalendar) (gap : Int) (a : Assignment) (r : PlanRange) :
    Prop
  | period {days : Float} (h : r.period = some (.number days)) (hdays : -1 ≤ days) :
      Forward calendar gap a r
  | texts {first last : Day} (h : r.period = none)
      (hfirst : DateExpr.Says calendar gap a r.start first)
      (hlast : DateExpr.Says calendar gap a r.finish last) (hle : first ≤ last) :
      Forward calendar gap a r

/-- An actual block does not say that it ends before it starts. A progress above zero counts before
a period, and a period before a written end. -/
inductive ActualRange.Forward (r : ActualRange) : Prop
  | progress {p : Float} (h : r.progress = some (.number p)) (hpos : 0 < p) : Forward r
  | period {days : Float} (h : r.period = some (.number days)) (hdays : -1 ≤ days) : Forward r
  | dates (h : r.period = none) (hle : ∀ raw raw' first last, r.start = some raw →
      r.finish = some raw' → Day.read? raw = some first → Day.read? raw' = some last →
      first ≤ last) : Forward r
  | unstarted (h : r.start = none) : Forward r

namespace PlanRange

variable {calendar : WorkCalendar} {gap : Int} {a : Assignment} {r : PlanRange} {p : PlanDays}

theorem Solved.forward_iff (h : r.Solved calendar gap a p) :
    p.start ≤ p.finish ↔ r.Forward calendar gap a := by
  have hfinish := h.finish
  cases hperiod : r.period with
  | some period =>
    rw [hperiod] at hfinish
    obtain ⟨days, rfl, hadd⟩ := hfinish
    rw [WorkCalendar.le_iff_of_addBusinessDays hadd]
    constructor
    · exact .period hperiod
    · rintro (⟨h', hdays⟩ | ⟨h', _, _, _⟩)
      · cases hperiod.symm.trans h'
        exact hdays
      · cases hperiod.symm.trans h'
  | none =>
    rw [hperiod] at hfinish
    constructor
    · exact .texts hperiod h.start hfinish
    · rintro (⟨h', _⟩ | ⟨_, hfirst, hlast, hle⟩)
      · cases hperiod.symm.trans h'
      · rwa [h.start.unique hfirst, hfinish.unique hlast]

end PlanRange

namespace ActualRange

variable {calendar : WorkCalendar} {item : String} {r : ActualRange} {first last : Day} {p : Float}
  {days : ActualDays}

/-- A progress above zero does not lead back: the days that have elapsed are none or more, and so is
what they are a part of. -/
theorem le_of_finishByProgress (hfinite : Number.isFinite p = true) (hpos : 0 < p)
    (h : finishByProgress calendar first p = .ok last) : first ≤ last := by
  obtain ⟨v, hv, hforward⟩ :=
    WorkCalendar.exists_value_of_addBusinessDays (finishByProgress_eq_ok h)
  obtain ⟨q, hq⟩ := Number.exists_value? hfinite
  have hdivisor : 0 ≤ q := ((Number.lt_iff Number.value?_zero hq).mp hpos).le
  have helapsed := calendar.countOpen_nonneg first calendar.today
  have hnonneg := Number.value_div_nonneg
    (Number.value?_ofInt (calendar.countOpen_lt first calendar.today)) hq
    (by exact_mod_cast helapsed) hdivisor hv
  exact hforward.mpr (by linarith)

/-- The end that comes from a block is not before its start exactly when the block says so. -/
theorem forward_iff_of_ends {raw : String} {finish : Option Day} (hstart : r.start = some raw)
    (hfirst : Day.read? raw = some first) (h : r.Ends calendar item first finish) :
    (∀ last, finish = some last → first ≤ last) ↔ r.Forward := by
  cases h with
  | progress hp hfinite hpos hlast =>
    refine iff_of_true (fun _ heq => ?_) (.progress hp hpos)
    exact Option.some.inj heq ▸ le_of_finishByProgress hfinite hpos hlast
  | period hnone hperiod hlast =>
    have hforward := WorkCalendar.le_iff_of_addBusinessDays hlast
    constructor
    · intro hle
      exact .period hperiod (hforward.mp (hle _ rfl))
    · rintro (⟨hp, hpos⟩ | ⟨hperiod', hdays⟩ | ⟨hperiod', _⟩ | hopen) last heq
      · exact absurd hpos (hnone _ hp)
      · cases hperiod.symm.trans hperiod'
        exact Option.some.inj heq ▸ hforward.mpr hdays
      · cases hperiod.symm.trans hperiod'
      · cases hstart.symm.trans hopen
  | written hnone hperiod hfinish =>
    constructor
    · intro hle
      refine .dates hperiod fun raw₁ raw₂ first₁ last hstart₁ hfinish₂ hfirst₁ hlast => ?_
      cases hstart.symm.trans hstart₁
      cases hfirst.symm.trans hfirst₁
      rw [hfinish₂, readDay, hlast] at hfinish
      cases hfinish
      exact hle last rfl
    · rintro (⟨hp, hpos⟩ | ⟨hperiod', _⟩ | ⟨_, hle⟩ | hopen) last rfl
      · exact absurd hpos (hnone _ hp)
      · cases hperiod.symm.trans hperiod'
      · obtain ⟨raw', hraw', hlast⟩ := readDay_eq_some hfinish
        exact hle raw raw' first last hstart hraw' hfirst hlast
      · cases hstart.symm.trans hopen

/-- The days of a block that resolves run forward exactly when the block says so. -/
theorem forward_iff_of_resolve (h : r.resolve calendar item = .ok days) :
    (∀ first last, days.start = some first → days.finish = some last → first ≤ last) ↔
      r.Forward := by
  obtain ⟨hstart, hends⟩ := ends_of_resolve h
  cases hfirst : days.start with
  | none =>
    rw [hfirst] at hstart
    exact iff_of_true (fun _ _ heq => nomatch heq) (.unstarted (readDay_eq_none hstart))
  | some first =>
    rw [hfirst] at hstart
    obtain ⟨raw, hraw, hread⟩ := readDay_eq_some hstart
    rw [← forward_iff_of_ends hraw hread (hends first hfirst)]
    constructor
    · intro hle last hlast
      exact hle first last rfl hlast
    · intro hle _ last heq hlast
      exact Option.some.inj heq ▸ hle last hlast

end ActualRange

namespace Document

variable {d : Document} {config : ChartConfig} {s : Schedule} {table : PlanTable}

/-- A task of the schedule has its days from a task of the document. -/
theorem ResolvesTo.exists_record (h : d.ResolvesTo config s table) {t : Task}
    (ht : .task t ∈ s.items) : ∃ record ∈ d.tasks, ∃ days : ActualDays,
      Entry.actualDays s.calendar record = .ok days ∧
      t.name = record.name ∧ table.days record.name = some ⟨t.planStart, t.planEnd⟩ ∧
      t.actualStart = days.start ∧ t.actualEnd = days.finish := by
  obtain ⟨e, he, hresolve⟩ := exists_of_forall₂ h.items.flip _ ht
  obtain ⟨p, hp⟩ := Entry.planned_of_resolve hresolve
  simp only [Entry.resolve, hp] at hresolve
  cases e with
  | task record =>
    obtain ⟨days, hdays, heq⟩ := bind_eq_ok.mp hresolve
    cases heq
    have hrecord : record ∈ d.tasks := by simpa [entries] using he
    exact ⟨record, hrecord, days, hdays, rfl, PlanTable.days_of_get? hp, rfl, rfl⟩
  | milestone record =>
    obtain ⟨_, _, heq⟩ := bind_eq_ok.mp hresolve
    cases heq

/-- Resolving hands on every span as the document has it. With the days that solve the plans, what
is planned of a task runs forward exactly when its range does: when its period is at least minus one
or, without a period, when its texts say no earlier end than start. What has happened of it runs
forward exactly when its actual block does: when there is a progress above zero, when its period is
at least minus one or, without a period, when it has no written end before the start. -/
theorem spans_forward_iff (h : d.resolve config = .ok s) :
    ∃ a : Assignment, a.Solves s.calendar config.dependencyGapDays d.entries ∧
      ∀ t, .task t ∈ s.items → ∃ record ∈ d.tasks, t.name = record.name ∧
        (∃ plan, record.plan = some plan ∧
          (t.PlanForward ↔ plan.toRange.Forward s.calendar config.dependencyGapDays a)) ∧
        (t.ActualForward ↔ ∀ actual, record.actual = some actual → actual.toRange.Forward) := by
  obtain ⟨table, hr⟩ := resolve_eq_ok_iff.mp h
  refine ⟨table.days, hr.solves, fun t ht => ?_⟩
  obtain ⟨record, hrecord, days, hdays, hname, hplan, hstart, hend⟩ := hr.exists_record ht
  refine ⟨record, hrecord, hname, ?_, ?_⟩
  · obtain ⟨r, p, hrange, hp, hsolved⟩ :=
      hr.solves.solved (.task record) (by simpa [entries] using hrecord)
    obtain ⟨plan, hspec, rfl⟩ := Option.map_eq_some_iff.mp hrange
    cases hplan.symm.trans hp
    exact ⟨plan, hspec, hsolved.forward_iff⟩
  · rw [Task.ActualForward, hstart, hend]
    rw [Entry.actualDays] at hdays
    cases hactual : record.actual with
    | none =>
      rw [hactual] at hdays
      cases hdays
      exact iff_of_true (by simp) (by simp)
    | some actual =>
      rw [hactual] at hdays
      rw [ActualRange.forward_iff_of_resolve hdays]
      simp only [Option.some.injEq, forall_eq']

/-- Three days of building run forward. -/
theorem build_runs_forward : ∃ s, (april [build none] []).resolve .standard = .ok s ∧
    ∀ t, .task t ∈ s.items → t.PlanForward ∧ t.ActualForward := by
  obtain ⟨s, hs⟩ := exists_resolve_build
  obtain ⟨a, -, hall⟩ := spans_forward_iff hs
  refine ⟨s, hs, fun t ht => ?_⟩
  obtain ⟨record, hrecord, -, ⟨plan, hplan, hplanned⟩, hactual⟩ := hall t ht
  cases List.mem_singleton.mp hrecord
  cases hplan
  have hthree : (-1 : Float) ≤ 3 := by decide +kernel
  exact ⟨hplanned.mpr (.period rfl hthree), hactual.mpr fun _ heq => nomatch heq⟩

/-- A task that is planned to start on 10 April and to end on 2 April. -/
def turnedBack : Document := .april [.spanning "build" "2020/4/10" "2020/4/2"] []

theorem exists_plan_turned_back : ∃ s, turnedBack.resolve .standard = .ok s ∧
    ∃ t, .task t ∈ s.items ∧ ¬ t.PlanForward := by
  have hspans : (turnedBack.resolve .standard).map
      (fun s => s.items.filterMap fun i => i.task?.map fun t => decide t.PlanForward) =
        .ok [false] := by cbv
  obtain ⟨s, hs, hback⟩ := map_eq_ok.mp hspans
  obtain ⟨i, hi, ht⟩ := List.mem_filterMap.mp (hback ▸ List.mem_singleton_self false)
  cases i with
  | task t => exact ⟨s, hs, t, hi, of_decide_eq_false (Option.some.inj ht)⟩
  | milestone m => cases ht

end Document

end GanttChart
