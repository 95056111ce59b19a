import GanttChart.Proofs.Schedule.Listing
import GanttChart.Proofs.Schedule.Paths

/-! # The list of paths

While it finds days, the plan pass notes the expressions that they came from, and the paths are
taken from these notes once all items have their days. That makes the same list as looking at the
texts of the plans again: item by item, first for the start and then for the end, with no path
twice. -/

namespace GanttChart

/-- The item that an expression refers to, with the day of the bound that is meant. -/
def DateExpr.anchor? (a : Assignment) : DateExpr → Option (String × Day)
  | startOf name => (a name).map fun q => (name, q.start)
  | endOf name => (a name).map fun q => (name, q.finish)
  | _ => none

namespace Entry

/-- The path to a day of an item, where the text for that day refers to an item. -/
def pathTo? (e : Entry) (a : Assignment) (color : String) (text : Option String) (day : Day) :
    Option DependencyPath :=
  ((text.bind DateExpr.read?).bind (DateExpr.anchor? a)).map fun (name, bound) =>
    ⟨name, bound, e.name, day, color⟩

/-- The paths to an item: to its start, and to its end unless a period gives the end. -/
def pathsTo (e : Entry) (a : Assignment) (color : String) : List DependencyPath :=
  match e.range?, a e.name with
  | some r, some q =>
    (e.pathTo? a color r.start q.start).toList ++
      if r.period.isSome then [] else (e.pathTo? a color r.finish q.finish).toList
  | _, _ => []

end Entry

namespace PlanTable

variable {t : PlanTable} {e : Entry} {p : Plan} {r : PlanRange} {color : String}

/-- The note that a text leaves gives the path that the text itself gives. -/
theorem path?_origin (t : PlanTable) (e : Entry) (color : String) (text : Option String)
    (day : Day) :
    t.path? e.name color ((text.bind DateExpr.read?).bind DateExpr.origin?) day =
      e.pathTo? t.days color text day := by
  unfold Entry.pathTo?
  cases text.bind DateExpr.read? with
  | none => rfl
  | some expr =>
    cases expr with
    | startOf name =>
      simp only [Option.bind_some, DateExpr.origin?, path?, DateExpr.anchor?, days, Option.map_map]
      rfl
    | endOf name =>
      simp only [Option.bind_some, DateExpr.origin?, path?, DateExpr.anchor?, days, Option.map_map]
      rfl
    | _ => rfl

theorem paths_eq_pathsTo (hp : t.get? e.name = some p) (hr : e.range? = some r)
    (hstart : p.startOrigin = r.startOrigin) (hfinish : p.finishOrigin = r.finishOrigin) :
    t.paths e.name color = e.pathsTo t.days color := by
  simp only [paths, hp, Entry.pathsTo, hr, days_of_get? hp, hstart, hfinish,
    PlanRange.startOrigin, PlanRange.finishOrigin, path?_origin]
  split
  · rfl
  · rw [path?_origin]
    rfl

end PlanTable

namespace Document

variable {d : Document} {config : ChartConfig} {s : Schedule} {table : PlanTable} {e : Entry}

theorem ResolvesTo.paths_eq_pathsTo (h : d.ResolvesTo config s table) (he : e ∈ d.entries)
    (color : String) : table.paths e.name color = e.pathsTo table.days color := by
  obtain ⟨p, hp⟩ := h.planned e he
  obtain ⟨e', he', hname, r, hr, hmakes⟩ := h.sound e.name p hp
  obtain rfl := Entry.eq_of_name_eq h.nodup he' he hname
  exact PlanTable.paths_eq_pathsTo hp hr hmakes.startOrigin hmakes.finishOrigin

/-- The paths of a resolved schedule are those to its items, in the order of the items and without
repetitions. They join the days that the plan pass has found, which solve the plans. -/
theorem resolve_paths_eq (h : d.resolve config = .ok s) :
    ∃ table, Entry.plans d.entries s.calendar config.dependencyGapDays = .ok table ∧
      table.days.Solves s.calendar config.dependencyGapDays d.entries ∧
      s.items.map ScheduleItem.name = d.entries.map Entry.name ∧
      s.paths = (d.entries.flatMap fun e =>
        e.pathsTo table.days (d.colors.palette config).path).eraseDups ∧
      s.paths.Nodup := by
  obtain ⟨table, hr⟩ := resolve_eq_ok_iff.mp h
  refine ⟨table, hr.plans, hr.solves, hr.names_items, ?_, ?_⟩
  · rw [hr.paths, List.flatMap_congr fun e he => hr.paths_eq_pathsTo he _]
  · rw [hr.paths]
    exact nodup_eraseDups _

/-- In the relay both texts of the handover refer to the same end, which makes one path. -/
theorem relay_paths_eq : ∃ s, relay.resolve .standard = .ok s ∧ s.paths.length = 3 ∧
    ∃ table, Entry.plans relay.entries s.calendar 2 = .ok table ∧
      s.paths = (relay.entries.flatMap fun e => e.pathsTo table.days "blue").eraseDups ∧
      s.paths.Nodup := by
  have hlength : (relay.resolve .standard).map (fun s => s.paths.length) = .ok 3 := by cbv
  obtain ⟨s, hs, hthree⟩ := Outcome.map_eq_ok.mp hlength
  obtain ⟨table, hplans, _, _, hpaths, hnodup⟩ := resolve_paths_eq hs
  exact ⟨s, hs, hthree, table, hplans, hpaths, hnodup⟩

end Document

end GanttChart
