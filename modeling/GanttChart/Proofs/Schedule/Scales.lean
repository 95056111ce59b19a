import GanttChart.Proofs.Schedule.Stages
import GanttChart.Source

/-! # Schedules at another scale

The scale is for drawing: no day, color, connection or group depends on it, and no fault does. So a
document that asks for another scale resolves to the same schedule at that scale. -/

namespace GanttChart

variable {c : WorkCalendar} {config : ChartConfig}

namespace WorkCalendar

def atScale (c : WorkCalendar) (scale : Scale) : WorkCalendar := { c with scale := scale }

theorem closeAll_atScale (c : WorkCalendar) (scale : Scale) (days : List Day) :
    (c.atScale scale).closeAll days = (c.closeAll days).atScale scale :=
  List.foldl_hom (atScale · scale) fun _ _ => rfl

theorem closeWeekday_atScale (c : WorkCalendar) (scale : Scale) (name : String) :
    (c.atScale scale).closeWeekday name = (c.closeWeekday name).atScale scale :=
  closeAll_atScale c scale _

end WorkCalendar

namespace ProjectSection

def atScale (p : ProjectSection) (scale : Scale) : ProjectSection := { p with scale := some scale }

theorem closeEntry_atScale (c : WorkCalendar) (scale : Scale) (entry : String) :
    closeEntry (c.atScale scale) entry = (closeEntry c entry).atScale scale := by
  unfold closeEntry
  cases Day.read? entry with
  | some d => rfl
  | none => exact c.closeWeekday_atScale scale entry

theorem foldl_closeEntry_atScale (c : WorkCalendar) (scale : Scale) (entries : List String) :
    entries.foldl closeEntry (c.atScale scale) = (entries.foldl closeEntry c).atScale scale :=
  List.foldl_hom (WorkCalendar.atScale · scale) fun c entry => closeEntry_atScale c scale entry

theorem calendar_atScale (p : ProjectSection) (scale : Scale) :
    (p.atScale scale).calendar = p.calendar.map (·.atScale scale) := by
  simp only [calendar, atScale]
  cases requireDay "start" p.start with
  | error e => rfl
  | ok start =>
    cases requireDay "end" p.finish with
    | error e => rfl
    | ok finish =>
      cases requireDay "today" p.today with
      | error e => rfl
      | ok today =>
        simp only [bind, Except.bind]
        split
        · rfl
        · exact congrArg Except.ok (foldl_closeEntry_atScale
            (.ofWindow start finish today (p.scale.getD .daily)) scale p.closed)

end ProjectSection

namespace Entry

/-- Planning looks at the window and the open days, and at nothing else of a calendar. -/
theorem plans_atScale (es : List Entry) (c : WorkCalendar) (scale : Scale) (gap : Int) :
    plans es (c.atScale scale) gap = plans es c gap := rfl

theorem resolve_atScale (e : Entry) (c : WorkCalendar) (scale : Scale) (palette : Palette)
    (table : PlanTable) : e.resolve (c.atScale scale) palette table = e.resolve c palette table :=
  rfl

end Entry

namespace Document

/-- A document that asks for a scale. -/
def atScale (d : Document) (scale : Scale) : Document :=
  { d with project := d.project.atScale scale }

/-- A document at another scale fails as it did, or gives its schedule at that scale. -/
theorem resolve_atScale (d : Document) (config : ChartConfig) (scale : Scale) :
    (d.atScale scale).resolve config =
      (d.resolve config).map fun s => s.withScale (some scale) := by
  have hentries : (d.atScale scale).entries = d.entries := rfl
  have hcolors : (d.atScale scale).colors = d.colors := rfl
  simp only [resolve, hentries, hcolors]
  rw [show (d.atScale scale).project = d.project.atScale scale from rfl,
    ProjectSection.calendar_atScale]
  cases d.project.calendar with
  | error e => rfl
  | ok c =>
    simp only [Except.map, bind, Except.bind, Entry.plans_atScale, Entry.resolve_atScale]
    cases Entry.repeated? d.entries with
    | some name => rfl
    | none =>
      simp only [pure, Except.pure]
      split
      · rfl
      · cases Entry.plans d.entries c config.dependencyGapDays with
        | error e => rfl
        | ok table =>
          simp only
          cases d.entries.mapM fun e => e.resolve c (d.colors.palette config) table with
          | error e => rfl
          | ok items => rfl

end Document

end GanttChart
