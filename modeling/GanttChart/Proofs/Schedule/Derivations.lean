import GanttChart.Proofs.Calendar.Direction
import GanttChart.Proofs.DateExpr
import GanttChart.Proofs.Schedule.Paths

/-! # Days derived from other items

A path stands for a bound of an item whose day is derived from a bound of another item. When both
bounds of an item are derived from one other item there are two such paths. They are the same only
if they come from the same bound, or if that item is planned on one day and the gap is no longer
than a day. -/

namespace GanttChart

/-- The expression of another item that the day of a bound comes from. -/
def PlanRange.originAt (r : PlanRange) : Bound → Option DateExpr
  | .start => r.startOrigin
  | .finish => r.finishOrigin

/-- The day of a bound of the item is derived from a bound of the item with the given name. -/
def Entry.Derives (e : Entry) (side source : Bound) (name : String) : Prop :=
  ∃ r, e.range? = some r ∧ r.originAt side = some (source.of name)

/-! ## Bounds -/

namespace Bound

variable {b b' : Bound} {name name' : String}

/-- The step from a bound to the days that are derived from it: the gap is kept before a start and
after an end. -/
def offset (gap : Int) : Bound → Int
  | start => -gap
  | finish => gap

theorem natAbs_offset (gap : Int) (b : Bound) : (b.offset gap).natAbs = gap.natAbs := by
  cases b with
  | start => exact Int.natAbs_neg gap
  | finish => rfl

theorem of_eq_of_iff : b.of name = b'.of name' ↔ b = b' ∧ name = name' := by
  cases b <;> cases b' <;> simp [of]

theorem eq_start_or_finish (h : b ≠ b') : (b = start ∧ b' = finish) ∨ (b = finish ∧ b' = start) := by
  cases b <;> cases b' <;> simp_all

end Bound

theorem Entry.Derives.source_unique {e : Entry} {side source source' : Bound} {name name' : String}
    (h : e.Derives side source name) (h' : e.Derives side source' name') :
    source = source' ∧ name = name' := by
  obtain ⟨r, hr, ho⟩ := h
  obtain ⟨r', hr', ho'⟩ := h'
  cases hr.symm.trans hr'
  exact Bound.of_eq_of_iff.mp (Option.some.inj (ho.symm.trans ho'))

theorem DateExpr.eq_of_origin? {expr o : DateExpr} (h : expr.origin? = some o) : expr = o := by
  cases expr <;> simp_all [origin?]

namespace PlanDays

def day (q : PlanDays) : Bound → Day
  | .start => q.start
  | .finish => q.finish

theorem day_eq_day {q : PlanDays} (h : q.start = q.finish) (b b' : Bound) : q.day b = q.day b' := by
  cases b <;> cases b' <;> simp [day, h]

end PlanDays

theorem DateExpr.from_iff {a : Assignment} {o : DateExpr} {name : String} {d : Day} :
    o.From a name d ↔ ∃ source q, o = Bound.of source name ∧ a name = some q ∧
      d = q.day source := by
  constructor
  · rintro (hq | hq)
    · exact ⟨.start, _, rfl, hq, rfl⟩
    · exact ⟨.finish, _, rfl, hq, rfl⟩
  · rintro ⟨source, q, rfl, hq, rfl⟩
    cases source
    · exact .startOf hq
    · exact .endOf hq

/-! ## Steps from bounds -/

/-- Only short steps end on the same day in both directions. -/
theorem WorkCalendar.natAbs_le_one_of_step? {calendar : WorkCalendar} {d e : Day} {gap : Int}
    (h : calendar.step? d gap = some e) (h' : calendar.step? d (-gap) = some e) :
    gap.natAbs ≤ 1 := by
  have hforward := le_iff_of_step? h
  have hbackward := le_iff_of_step? h'
  by_cases hle : d ≤ e
  · have := hforward.mp hle
    have := hbackward.mp hle
    omega
  · have := mt hforward.mpr hle
    have := mt hbackward.mpr hle
    omega

namespace PlanDays

variable {calendar : WorkCalendar} {gap : Int} {q q' : PlanDays} {source source' : Bound}

/-- Days that are the gap away from two bounds of one plan are the same, as are these bounds, just
if it is one bound, or if neither the plan nor the gap is longer than a day. -/
theorem same_days_iff
    (hfirst : calendar.step? (q'.day source) (source.offset gap) = some (q.day .start))
    (hlast : calendar.step? (q'.day source') (source'.offset gap) = some (q.day .finish)) :
    q'.day source = q'.day source' ∧ q.day .start = q.day .finish ↔
      source = source' ∨ (gap.natAbs ≤ 1 ∧ q'.start = q'.finish) := by
  constructor
  · rintro ⟨hbounds, hdays⟩
    refine or_iff_not_imp_left.mpr fun hne => ?_
    rw [hdays, hbounds] at hfirst
    rcases Bound.eq_start_or_finish hne with ⟨rfl, rfl⟩ | ⟨rfl, rfl⟩
    · exact ⟨WorkCalendar.natAbs_le_one_of_step? hlast hfirst, hbounds⟩
    · exact ⟨WorkCalendar.natAbs_le_one_of_step? hfirst hlast, hbounds.symm⟩
  · rintro (rfl | ⟨hgap, hone⟩)
    · exact ⟨rfl, Option.some.inj (hfirst.symm.trans hlast)⟩
    · have hbounds := day_eq_day hone source source'
      rw [WorkCalendar.step?_of_natAbs_le_one ((Bound.natAbs_offset gap _).trans_le hgap)]
        at hfirst hlast
      refine ⟨hbounds, ?_⟩
      rw [← Option.some.inj hfirst, hbounds, Option.some.inj hlast]

end PlanDays

/-- A derived day is the gap away from the bound that it is derived from. -/
theorem PlanRange.Solved.exists_step? {calendar : WorkCalendar} {gap : Int} {a : Assignment}
    {r : PlanRange} {q : PlanDays} {side source : Bound} {name : String}
    (h : r.Solved calendar gap a q) (ho : r.originAt side = some (source.of name)) :
    ∃ q', a name = some q' ∧
      calendar.step? (q'.day source) (source.offset gap) = some (q.day side) := by
  have hsays : ∃ text, DateExpr.Says calendar gap a text (q.day side) ∧
      (text.bind DateExpr.read?).bind DateExpr.origin? = some (source.of name) := by
    cases side with
    | start => exact ⟨r.start, h.start, ho⟩
    | finish => exact ⟨r.finish, h.says_finish ho⟩
  obtain ⟨text, ⟨raw, expr, rfl, hread, hdenotes⟩, horigin⟩ := hsays
  rw [Option.bind_some, hread, Option.bind_some] at horigin
  rw [DateExpr.eq_of_origin? horigin] at hdenotes
  cases source with
  | start =>
    cases hdenotes with
    | startOf hq hd => exact ⟨_, hq, WorkCalendar.addWholeDays_eq_ok_iff.mp hd⟩
  | finish =>
    cases hdenotes with
    | endOf hq hd => exact ⟨_, hq, WorkCalendar.addWholeDays_eq_ok_iff.mp hd⟩

/-! ## Paths of derived days -/

namespace Document.ResolvesTo

variable {d : Document} {config : ChartConfig} {s : Schedule} {table : PlanTable} {e : Entry}
  {side source source' : Bound} {name : String} {q q' : PlanDays} {x : DependencyPath}

theorem exists_step? (h : d.ResolvesTo config s table) (he : e ∈ d.entries)
    (hd : e.Derives side source name) :
    ∃ q q', table.days e.name = some q ∧ table.days name = some q' ∧
      s.calendar.step? (q'.day source) (source.offset config.dependencyGapDays) =
        some (q.day side) := by
  obtain ⟨r, hr, ho⟩ := hd
  obtain ⟨r', q, hr', hq, hsolved⟩ := h.solves.solved e he
  cases hr.symm.trans hr'
  obtain ⟨q', hq', hstep⟩ := hsolved.exists_step? ho
  exact ⟨q, q', hq, hq', hstep⟩

/-- There is a path for every derived day, and no other path. -/
theorem mem_paths_iff (h : d.ResolvesTo config s table) : x ∈ s.paths ↔
    ∃ e ∈ d.entries, ∃ side source name q q', e.Derives side source name ∧
      table.days e.name = some q ∧ table.days name = some q' ∧
      x = ⟨name, q'.day source, e.name, q.day side, (d.colors.palette config).path⟩ := by
  rw [h.mem_paths]
  refine exists_congr fun e => and_congr_right fun _ => ?_
  constructor
  · intro hx
    cases hx with
    | start hr hq ho hfrom =>
      obtain ⟨source, q', rfl, hq', rfl⟩ := DateExpr.from_iff.mp hfrom
      exact ⟨.start, source, _, _, q', ⟨_, hr, ho⟩, hq, hq', rfl⟩
    | finish hr hq ho hfrom =>
      obtain ⟨source, q', rfl, hq', rfl⟩ := DateExpr.from_iff.mp hfrom
      exact ⟨.finish, source, _, _, q', ⟨_, hr, ho⟩, hq, hq', rfl⟩
  · rintro ⟨side, source, name, q, q', ⟨r, hr, ho⟩, hq, hq', rfl⟩
    have hfrom := DateExpr.from_iff.mpr ⟨source, q', rfl, hq', rfl⟩
    cases side with
    | start => exact .start hr hq ho hfrom
    | finish => exact .finish hr hq ho hfrom

theorem same_days_iff (h : d.ResolvesTo config s table) (he : e ∈ d.entries)
    (hstart : e.Derives .start source name) (hfinish : e.Derives .finish source' name)
    (hq : table.days e.name = some q) (hq' : table.days name = some q') :
    q'.day source = q'.day source' ∧ q.day .start = q.day .finish ↔
      source = source' ∨ (config.dependencyGapDays.natAbs ≤ 1 ∧ q'.start = q'.finish) := by
  obtain ⟨_, _, hp, hp', hfirst⟩ := h.exists_step? he hstart
  cases hp.symm.trans hq
  cases hp'.symm.trans hq'
  obtain ⟨_, _, hp, hp', hlast⟩ := h.exists_step? he hfinish
  cases hp.symm.trans hq
  cases hp'.symm.trans hq'
  exact PlanDays.same_days_iff hfirst hlast

/-- No two paths join the same items just if no item derives its bounds from both bounds of another
item, unless that one is planned on one day and the gap is no longer than a day. -/
theorem paths_unique_iff (h : d.ResolvesTo config s table) :
    (∀ x ∈ s.paths, ∀ y ∈ s.paths,
      x.startName = y.startName → x.endName = y.endName → x = y) ↔
    ∀ e ∈ d.entries, ∀ source source' name,
      e.Derives .start source name → e.Derives .finish source' name → source = source' ∨
        (config.dependencyGapDays.natAbs ≤ 1 ∧
          ∃ q, table.days name = some q ∧ q.start = q.finish) := by
  constructor
  · intro hunique e he source source' name hstart hfinish
    obtain ⟨q, q', hq, hq', -⟩ := h.exists_step? he hstart
    have hfirst := h.mem_paths_iff.mpr ⟨e, he, .start, source, name, q, q', hstart, hq, hq', rfl⟩
    have hlast := h.mem_paths_iff.mpr ⟨e, he, .finish, source', name, q, q', hfinish, hq, hq', rfl⟩
    obtain ⟨-, hbounds, -, hdays, -⟩ :=
      DependencyPath.mk.inj (hunique _ hfirst _ hlast rfl rfl)
    refine ((h.same_days_iff he hstart hfinish hq hq').mp ⟨hbounds, hdays⟩).imp_right ?_
    exact fun ⟨hgap, hone⟩ => ⟨hgap, q', hq', hone⟩
  · intro hsame x hx y hy hstartName hendName
    obtain ⟨e, he, side, source, name, q, q', hd, hq, hq', rfl⟩ := h.mem_paths_iff.mp hx
    obtain ⟨f, hf, side', source', name', p, p', hd', hp, hp', rfl⟩ := h.mem_paths_iff.mp hy
    obtain rfl : name = name' := hstartName
    obtain rfl := Entry.eq_of_name_eq h.nodup he hf hendName
    cases hq.symm.trans hp
    cases hq'.symm.trans hp'
    have hboth {source source' : Bound} (hstart : e.Derives .start source name)
        (hfinish : e.Derives .finish source' name) :
        q'.day source = q'.day source' ∧ q.day .start = q.day .finish := by
      refine (h.same_days_iff he hstart hfinish hq hq').mpr ?_
      refine (hsame e he source source' name hstart hfinish).imp_right ?_
      rintro ⟨hgap, o, ho, hone⟩
      cases hq'.symm.trans ho
      exact ⟨hgap, hone⟩
    -- two paths to one bound come from one text, two paths to both bounds from two
    cases side <;> cases side'
    case start.start | finish.finish => rw [(hd.source_unique hd').1]
    case start.finish =>
      obtain ⟨hbounds, hdays⟩ := hboth hd hd'
      rw [hbounds, hdays]
    case finish.start =>
      obtain ⟨hbounds, hdays⟩ := hboth hd' hd
      rw [hbounds, hdays]

end Document.ResolvesTo

end GanttChart
