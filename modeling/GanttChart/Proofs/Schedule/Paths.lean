import GanttChart.Proofs.Schedule.Solved

/-! # The days that paths join

A path leads from a bound of one item to the bound of another item that was derived from it. A
milestone shows a single day, so a path that joins its end is off where its plan ends on another
day than it starts. -/

namespace GanttChart

/-- The day is shown as the start or as the end of the item with the given name. -/
def Schedule.Shows (s : Schedule) (name : String) (day : Day) : Prop :=
  ∃ i ∈ s.items, i.name = name ∧ (day = i.planStart ∨ day = i.planEnd)

instance (s : Schedule) (name : String) (day : Day) : Decidable (s.Shows name day) :=
  inferInstanceAs (Decidable (∃ i ∈ s.items, _))

/-- The bound of another item that an expression is derived from. -/
inductive DateExpr.From (a : Assignment) : DateExpr → String → Day → Prop
  | startOf {name : String} {q : PlanDays} (hq : a name = some q) :
      From a (.startOf name) name q.start
  | endOf {name : String} {q : PlanDays} (hq : a name = some q) :
      From a (.endOf name) name q.finish

/-- An expression of another item that has a value is derived from a bound of that item. -/
theorem DateExpr.Denotes.exists_from {calendar : WorkCalendar} {gap : Int} {a : Assignment}
    {expr o : DateExpr} {day : Day} (h : expr.Denotes calendar gap a day)
    (ho : expr.origin? = some o) : ∃ name bound, o.From a name bound := by
  cases h with
  | startOf hp => cases ho; exact ⟨_, _, .startOf hp⟩
  | endOf hp => cases ho; exact ⟨_, _, .endOf hp⟩
  | _ => cases ho

namespace PlanTable

variable {t : PlanTable} {item color : String} {origin : Option DateExpr} {day : Day}
  {x : DependencyPath} {p : Plan}

theorem path?_eq_some_iff : t.path? item color origin day = some x ↔
    ∃ o name bound, origin = some o ∧ o.From t.days name bound ∧
      x = ⟨name, bound, item, day, color⟩ := by
  constructor
  · intro h
    unfold path? at h
    split at h
    · obtain ⟨p, hp, rfl⟩ := Option.map_eq_some_iff.mp h
      exact ⟨_, _, _, rfl, .startOf (days_of_get? hp), rfl⟩
    · obtain ⟨p, hp, rfl⟩ := Option.map_eq_some_iff.mp h
      exact ⟨_, _, _, rfl, .endOf (days_of_get? hp), rfl⟩
    · cases h
  · rintro ⟨o, name, bound, rfl, hfrom, rfl⟩
    cases hfrom with
    | startOf hq =>
      obtain ⟨p, hp, rfl⟩ := days_eq_some_iff.mp hq
      simp [path?, hp, Plan.days]
    | endOf hq =>
      obtain ⟨p, hp, rfl⟩ := days_eq_some_iff.mp hq
      simp [path?, hp, Plan.days]

theorem mem_paths (hp : t.get? item = some p) : x ∈ t.paths item color ↔
    t.path? item color p.startOrigin p.start = some x ∨
      t.path? item color p.finishOrigin p.finish = some x := by
  simp [paths, hp]

end PlanTable

namespace PlanRange

variable {calendar : WorkCalendar} {gap : Int} {a : Assignment} {r : PlanRange} {q : PlanDays}
  {o : DateExpr}

/-- A range whose end says the same as its start is planned on one day. -/
theorem Solved.start_eq_finish (h : r.Solved calendar gap a q) (hperiod : r.period = none)
    (hsame : r.start = r.finish) : q.start = q.finish := by
  have hfinish := h.finish
  rw [hperiod] at hfinish
  exact (hsame ▸ h.start).unique hfinish

/-- Where the end has an origin no period overrides it, so its text gives the day. -/
theorem Solved.says_finish (h : r.Solved calendar gap a q) (ho : r.finishOrigin = some o) :
    DateExpr.Says calendar gap a r.finish q.finish ∧
      (r.finish.bind DateExpr.read?).bind DateExpr.origin? = some o := by
  unfold finishOrigin at ho
  split at ho
  · cases ho
  · rename_i hperiod
    have hfinish := h.finish
    rw [Option.not_isSome_iff_eq_none.mp hperiod] at hfinish
    exact ⟨hfinish, ho⟩

theorem Solved.exists_from_finish (h : r.Solved calendar gap a q) (ho : r.finishOrigin = some o) :
    ∃ name bound, o.From a name bound := by
  obtain ⟨⟨raw, expr, hraw, hexpr, hdenotes⟩, ho⟩ := h.says_finish ho
  rw [hraw, Option.bind_some, hexpr, Option.bind_some] at ho
  exact hdenotes.exists_from ho

end PlanRange

/-- A path to the start or the end of an item, from the bound that this day is derived from. -/
inductive Entry.LeadsTo (a : Assignment) (color : String) (e : Entry) : DependencyPath → Prop
  | start {r : PlanRange} {q : PlanDays} {o : DateExpr} {name : String} {bound : Day}
      (hr : e.range? = some r) (hq : a e.name = some q) (ho : r.startOrigin = some o)
      (hfrom : o.From a name bound) : LeadsTo a color e ⟨name, bound, e.name, q.start, color⟩
  | finish {r : PlanRange} {q : PlanDays} {o : DateExpr} {name : String} {bound : Day}
      (hr : e.range? = some r) (hq : a e.name = some q) (ho : r.finishOrigin = some o)
      (hfrom : o.From a name bound) : LeadsTo a color e ⟨name, bound, e.name, q.finish, color⟩

/-- The plan of a milestone is a point, or it has no period and but one of the two bounds. -/
def MilestoneRecord.SaysOneDay (m : MilestoneRecord) : Prop :=
  ∀ plan, m.plan = some plan → plan.toRange.period = none ∧
    (plan.toRange.start = none ∨ plan.toRange.finish = none ∨
      plan.toRange.start = plan.toRange.finish)

/-- One bound stands for both. -/
theorem MilestoneRecord.SaysOneDay.range {m : MilestoneRecord} {r : PlanRange}
    (h : m.SaysOneDay) (hr : (Entry.milestone m).range? = some r) :
    r.period = none ∧ r.start = r.finish := by
  obtain ⟨plan, hplan, rfl⟩ := Option.map_eq_some_iff.mp hr
  obtain ⟨hperiod, hbounds⟩ := h plan hplan
  generalize plan.toRange = r at hperiod hbounds
  obtain ⟨start, finish, period⟩ := r
  cases start <;> cases finish <;> simp_all [PlanRange.forMilestone]

namespace Document

variable {d : Document} {config : ChartConfig} {s : Schedule} {table : PlanTable} {e : Entry}
  {m : MilestoneRecord} {q : PlanDays} {x : DependencyPath} {a : Assignment}

/-- The end of a milestone is joined by a path: an item is derived from it, or it is itself derived
from an item. -/
inductive JoinsEnd (d : Document) (m : MilestoneRecord) : Prop
  | leaving {e : Entry} {r : PlanRange} (he : e ∈ d.entries) (hr : e.range? = some r)
      (ho : r.startOrigin = some (.endOf m.name) ∨ r.finishOrigin = some (.endOf m.name))
  | arriving {r : PlanRange} {o : DateExpr} (hr : (Entry.milestone m).range? = some r)
      (ho : r.finishOrigin = some o)

theorem milestone_mem_entries : .milestone m ∈ d.entries ↔ m ∈ d.milestones := by
  simp [entries]

namespace ResolvesTo

theorem mem_paths (h : d.ResolvesTo config s table) : x ∈ s.paths ↔
    ∃ e ∈ d.entries, e.LeadsTo table.days (d.colors.palette config).path x := by
  rw [h.paths, List.mem_eraseDups, List.mem_flatMap]
  refine exists_congr fun e => and_congr_right fun he => ?_
  obtain ⟨p, hp⟩ := h.planned e he
  have hdays := PlanTable.days_of_get? hp
  obtain ⟨e', he', hname, r, hr, hmakes⟩ := h.sound e.name p hp
  obtain rfl := Entry.eq_of_name_eq h.nodup he' he hname
  rw [PlanTable.mem_paths hp, PlanTable.path?_eq_some_iff, PlanTable.path?_eq_some_iff,
    hmakes.startOrigin, hmakes.finishOrigin]
  constructor
  · rintro (⟨o, name, bound, ho, hfrom, rfl⟩ | ⟨o, name, bound, ho, hfrom, rfl⟩)
    · exact .start hr hdays ho hfrom
    · exact .finish hr hdays ho hfrom
  · intro hx
    cases hx with
    | start hr' hq ho hfrom =>
      cases hr.symm.trans hr'
      cases hdays.symm.trans hq
      exact .inl ⟨_, _, _, ho, hfrom, rfl⟩
    | finish hr' hq ho hfrom =>
      cases hr.symm.trans hr'
      cases hdays.symm.trans hq
      exact .inr ⟨_, _, _, ho, hfrom, rfl⟩

theorem shows_iff (h : d.ResolvesTo config s table) (he : e ∈ d.entries)
    (hq : table.days e.name = some q) (day : Day) : s.Shows e.name day ↔
      day = q.start ∨ (day = q.finish ∧ ∀ m, e = .milestone m → q.start = q.finish) := by
  obtain ⟨i, hi, hshown⟩ := Outcome.exists_of_forall₂ h.shownAs e he
  have hnodup : (s.items.map ScheduleItem.name).Nodup := h.names_items ▸ h.nodup
  have honly : s.Shows e.name day ↔ day = i.planStart ∨ day = i.planEnd := by
    constructor
    · rintro ⟨j, hj, hname, hday⟩
      obtain rfl := List.inj_on_of_nodup_map hnodup hj hi (hname.trans hshown.name_eq.symm)
      exact hday
    · exact fun hday => ⟨i, hi, hshown.name_eq, hday⟩
  rw [honly]
  cases hshown with
  | task _ hd =>
    cases hq.symm.trans hd
    simp [ScheduleItem.planStart, ScheduleItem.planEnd]
  | milestone _ hd =>
    cases hq.symm.trans hd
    simp only [ScheduleItem.planStart, ScheduleItem.planEnd, or_self]
    constructor
    · exact .inl
    · rintro (hday | ⟨rfl, hone⟩)
      · exact hday
      · exact (hone _ rfl).symm

theorem shows_start (h : d.ResolvesTo config s table) (he : e ∈ d.entries)
    (hq : table.days e.name = some q) : s.Shows e.name q.start :=
  (h.shows_iff he hq _).mpr (.inl rfl)

/-- The end of an item is shown unless it is a milestone that starts on another day. -/
theorem shows_finish_iff (h : d.ResolvesTo config s table) (he : e ∈ d.entries)
    (hq : table.days e.name = some q) :
    s.Shows e.name q.finish ↔ ∀ m, e = .milestone m → q.start = q.finish := by
  rw [h.shows_iff he hq]
  constructor
  · rintro (hone | ⟨_, hone⟩)
    · exact fun _ _ => hone.symm
    · exact hone
  · exact fun hone => .inr ⟨rfl, hone⟩

theorem exists_entry_of_days (h : d.ResolvesTo config s table) {name : String}
    (hq : table.days name = some q) : ∃ e ∈ d.entries, e.name = name :=
  List.mem_map.mp ((h.solves.named name).mp (by simp [hq]))

/-- Where the ends of joined milestones are their starts, every path joins days that are shown. -/
theorem shows_of_leadsTo (h : d.ResolvesTo config s table) (he : e ∈ d.entries)
    (hone : ∀ m ∈ d.milestones, d.JoinsEnd m →
      ∀ q, table.days m.name = some q → q.start = q.finish)
    (hx : e.LeadsTo table.days (d.colors.palette config).path x) :
    s.Shows x.startName x.startDay ∧ s.Shows x.endName x.endDay := by
  have hbound {r : PlanRange} {o : DateExpr} {name : String} {bound : Day}
      (hr : e.range? = some r) (ho : r.startOrigin = some o ∨ r.finishOrigin = some o)
      (hfrom : o.From table.days name bound) : s.Shows name bound := by
    cases hfrom with
    | startOf hq =>
      obtain ⟨b, hb, rfl⟩ := h.exists_entry_of_days hq
      exact h.shows_start hb hq
    | endOf hq =>
      obtain ⟨b, hb, rfl⟩ := h.exists_entry_of_days hq
      refine (h.shows_finish_iff hb hq).mpr fun m hm => ?_
      subst hm
      exact hone m (milestone_mem_entries.mp hb) (.leaving he hr ho) _ hq
  cases hx with
  | start hr hq ho hfrom => exact ⟨hbound hr (.inl ho) hfrom, h.shows_start he hq⟩
  | finish hr hq ho hfrom =>
    refine ⟨hbound hr (.inr ho) hfrom, (h.shows_finish_iff he hq).mpr fun m hm => ?_⟩
    subst hm
    exact hone m (milestone_mem_entries.mp he) (.arriving hr ho) _ hq

theorem start_eq_finish_of_shows (h : d.ResolvesTo config s table) (hm : m ∈ d.milestones)
    (hshows : ∀ x ∈ s.paths, s.Shows x.startName x.startDay ∧ s.Shows x.endName x.endDay)
    (hjoins : d.JoinsEnd m) (hq : table.days m.name = some q) : q.start = q.finish := by
  have hmem := milestone_mem_entries.mpr hm
  cases hjoins with
  | leaving he hr ho =>
    obtain ⟨p, hp⟩ := h.planned _ he
    have hdays := PlanTable.days_of_get? hp
    have hbound : s.Shows m.name q.finish := by
      rcases ho with ho | ho
      · exact (hshows _ (h.mem_paths.mpr ⟨_, he, .start hr hdays ho (.endOf hq)⟩)).1
      · exact (hshows _ (h.mem_paths.mpr ⟨_, he, .finish hr hdays ho (.endOf hq)⟩)).1
    exact (h.shows_finish_iff hmem hq).mp hbound m rfl
  | arriving hr ho =>
    obtain ⟨r', q', hr', hq', hsolved⟩ := h.solves.solved _ hmem
    cases hr.symm.trans hr'
    obtain ⟨name, bound, hfrom⟩ := hsolved.exists_from_finish ho
    have hpath := h.mem_paths.mpr ⟨_, hmem, .finish hr hq ho hfrom⟩
    exact (h.shows_finish_iff hmem hq).mp (hshows _ hpath).2 m rfl

end ResolvesTo

/-- Every path of a schedule joins days that are shown if and only if each milestone whose end is
joined by a path is planned on one day. Milestones are planned on one day where they say a point, a
lone start or a lone end. -/
theorem paths_shown_iff (h : d.resolve config = .ok s) :
    ∃ a : Assignment, a.Solves s.calendar config.dependencyGapDays d.entries ∧
      ((∀ x ∈ s.paths, s.Shows x.startName x.startDay ∧ s.Shows x.endName x.endDay) ↔
        ∀ m ∈ d.milestones, d.JoinsEnd m → ∀ q, a m.name = some q → q.start = q.finish) ∧
      ∀ m ∈ d.milestones, m.SaysOneDay → ∀ q, a m.name = some q → q.start = q.finish := by
  obtain ⟨table, hr⟩ := resolve_eq_ok_iff.mp h
  refine ⟨table.days, hr.solves, ⟨fun hshows m hm hjoins q hq => ?_, fun hone x hx => ?_⟩, ?_⟩
  · exact hr.start_eq_finish_of_shows hm hshows hjoins hq
  · obtain ⟨e, he, hleads⟩ := hr.mem_paths.mp hx
    exact hr.shows_of_leadsTo he hone hleads
  · intro m hm hsays q hq
    obtain ⟨r, q', hrange, hq', hsolved⟩ := hr.solves.solved _ (milestone_mem_entries.mpr hm)
    cases hq.symm.trans hq'
    obtain ⟨hperiod, hsame⟩ := hsays.range hrange
    exact hsolved.start_eq_finish hperiod hsame

/-- A path to the milestone of the relay, whose plan is a point. -/
theorem relay_paths_shown : ∃ s, relay.resolve .standard = .ok s ∧
    ∀ x ∈ s.paths, s.Shows x.startName x.startDay ∧ s.Shows x.endName x.endDay := by
  obtain ⟨s, hs⟩ := exists_resolve_relay
  obtain ⟨a, _, hshown, hone⟩ := paths_shown_iff hs
  refine ⟨s, hs, hshown.mpr fun m hm _ => hone m hm ?_⟩
  rw [relay, april, List.mem_singleton] at hm
  subst hm
  rintro plan ⟨⟩
  exact ⟨rfl, .inr (.inr rfl)⟩

/-- A milestone with a start and another end, and a task that waits for it. -/
def stretched : Document :=
  .april [.spanning "build" "review's end" "2020/4/20"]
    [{ MilestoneRecord.named "review" with
        plan := some (.range ⟨some "2020/4/2", some "2020/4/8", none⟩) }]

/-- The path leaves the milestone on a day on which the schedule does not show it. -/
theorem exists_path_not_shown : ∃ s, stretched.resolve .standard = .ok s ∧
    ¬ ∀ x ∈ s.paths, s.Shows x.startName x.startDay ∧ s.Shows x.endName x.endDay := by
  have hshown : ((stretched.resolve .standard).map fun s =>
      decide (∀ x ∈ s.paths, s.Shows x.startName x.startDay ∧ s.Shows x.endName x.endDay)) =
        .ok false := by cbv
  obtain ⟨s, hs, hfalse⟩ := Outcome.map_eq_ok.mp hshown
  exact ⟨s, hs, of_decide_eq_false hfalse⟩

end Document

end GanttChart
