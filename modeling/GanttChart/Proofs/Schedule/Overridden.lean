import GanttChart.Proofs.Dependency.Determined
import GanttChart.Proofs.Schedule.Listing
import GanttChart.Proofs.Schedule.Plannable

/-! # Overridden ends

Nothing is computed from an end that a period overrides, but it still counts as a reference. So
documents that differ in such an end plan each item alike, whatever they plan before it. Where the
same items are on loops, both resolve to the same, or both fail by the plan of an item; which item
that is depends on the order of planning, and that on the references. -/

namespace GanttChart

open Outcome Relation

/-- The item that a text refers to. -/
def DateExpr.itemOf? (text : Option String) : Option String :=
  (text.bind DateExpr.read?).bind DateExpr.reference?

/-! ## Ranges -/

namespace PlanRange

/-- Two ranges differ in nothing but an end that a period overrides. -/
structure SameButEnd (r r' : PlanRange) : Prop where
  start : r.start = r'.start
  period : r.period = r'.period
  finish : r.period = none → r.finish = r'.finish

variable {r r' : PlanRange} {name : String}

theorem SameButEnd.refl (r : PlanRange) : r.SameButEnd r := ⟨rfl, rfl, fun _ => rfl⟩

theorem SameButEnd.symm (h : r.SameButEnd r') : r'.SameButEnd r :=
  ⟨h.start.symm, h.period.symm, fun hp => (h.finish (h.period.trans hp)).symm⟩

theorem SameButEnd.evaluated_eq (h : r.SameButEnd r') : r.evaluated = r'.evaluated := by
  rw [evaluated, evaluated, h.start, ← h.period]
  cases hp : r.period with
  | none => rw [h.finish hp]
  | some _ => rfl

theorem SameButEnd.resolveRange_eq (h : r.SameButEnd r') (t : PlanTable)
    (calendar : WorkCalendar) (gap : Int) (item : String) :
    t.resolveRange calendar gap item r = t.resolveRange calendar gap item r' := by
  rw [PlanTable.resolveRange, PlanTable.resolveRange, h.start, ← h.period]
  cases hp : r.period with
  | none => rw [h.finish hp]
  | some _ => rfl

theorem SameButEnd.makes_iff (h : r.SameButEnd r') {t : PlanTable} {calendar : WorkCalendar}
    {gap : Int} {p : Plan} :
    r.Makes calendar gap t.days p ↔ r'.Makes calendar gap t.days p := by
  have hmakes (r : PlanRange) : t.resolveRange calendar gap "" r = .ok p ↔
      r.Makes calendar gap t.days p := PlanTable.resolveRange_eq_ok_iff
  rw [← hmakes, ← hmakes, h.resolveRange_eq]

theorem mem_references_iff : name ∈ r.references ↔
    DateExpr.itemOf? r.start = some name ∨ DateExpr.itemOf? r.finish = some name := by
  obtain ⟨start, finish, period⟩ := r
  simp only [references, List.filterMap_append, List.mem_append]
  cases start <;> cases finish <;> simp [DateExpr.itemOf?]

end PlanRange

/-! ## Items -/

namespace Entry

/-- Two items differ in nothing but an end that a period overrides, and only under the given name
do they differ at all. -/
structure SameButEnd (item : String) (e e' : Entry) : Prop where
  name : e.name = e'.name
  range : Option.Rel PlanRange.SameButEnd e.range? e'.range?
  resolve : e.resolve = e'.resolve
  elsewhere : e.name ≠ item → e = e'

variable {item : String} {e e' : Entry} {entries entries' : List Entry}

theorem SameButEnd.refl (item : String) (e : Entry) : e.SameButEnd item e := by
  refine ⟨rfl, ?_, rfl, fun _ => rfl⟩
  cases e.range? with
  | none => exact .none
  | some r => exact .some (.refl r)

theorem SameButEnd.symm (h : e.SameButEnd item e') : e'.SameButEnd item e := by
  refine ⟨h.name.symm, ?_, h.resolve.symm, fun hne => (h.elsewhere (h.name ▸ hne)).symm⟩
  have hrange := h.range
  generalize e.range? = range, e'.range? = range' at hrange
  cases hrange with
  | none => exact .none
  | some hr => exact .some hr.symm

theorem SameButEnd.exists_range {r' : PlanRange} (h : e.SameButEnd item e')
    (hr : e'.range? = some r') : ∃ r, e.range? = some r ∧ r.SameButEnd r' := by
  have hrange := h.range
  rw [hr] at hrange
  generalize e.range? = range at hrange
  cases hrange with
  | some hr => exact ⟨_, rfl, hr⟩

section Lists

variable (h : List.Forall₂ (SameButEnd item) entries entries')
include h

theorem flip_sameButEnd : List.Forall₂ (SameButEnd item) entries' entries :=
  h.flip.imp fun _ _ => SameButEnd.symm

theorem map_name_eq : entries.map Entry.name = entries'.map Entry.name := by
  rw [← List.forall₂_eq_eq_eq, List.forall₂_map_left_iff, List.forall₂_map_right_iff]
  exact h.imp fun _ _ hrel => hrel.name

theorem seenAgain?_eq (seen : Std.HashSet String) :
    seenAgain? seen entries = seenAgain? seen entries' := by
  induction h generalizing seen with
  | nil => rfl
  | cons hrel _ ih => rw [seenAgain?, seenAgain?, hrel.name, ih]

theorem plan_eq : plan entries = plan entries' := by
  funext calendar gap t name
  have hfound : Option.Rel (SameButEnd item) (entries.find? fun e => e.name == name)
      (entries'.find? fun e => e.name == name) := by
    induction h with
    | nil => exact .none
    | cons hrel _ ih =>
      rw [List.find?_cons, List.find?_cons, hrel.name]
      split
      · exact .some hrel
      · exact ih
  unfold plan
  generalize (entries.find? fun e => e.name == name) = found,
    (entries'.find? fun e => e.name == name) = found' at hfound
  cases hfound with
  | none => rfl
  | some hrel =>
    have hrange := hrel.range
    rename_i e e'
    simp only
    generalize e.range? = range, e'.range? = range' at hrange
    cases hrange with
    | none => rfl
    | some hr => simp only [PlanTable.resolve, hr.resolveRange_eq]

theorem sound_of_sameButEnd {t : PlanTable} {calendar : WorkCalendar} {gap : Int}
    (ht : t.Sound calendar gap entries') : t.Sound calendar gap entries := by
  intro name p hp
  obtain ⟨e', he', rfl, r', hr', hmakes⟩ := ht name p hp
  obtain ⟨e, he, hrel⟩ := exists_of_forall₂ h.flip e' he'
  obtain ⟨r, hr, hsame⟩ := hrel.exists_range hr'
  exact ⟨e, he, hrel.name, r, hr, hsame.makes_iff.mpr hmakes⟩

/-- Other items than the one with the name refer to what they referred to. -/
theorem refers_elsewhere {a b : String} (ha : a ≠ item) (hr : Refers entries a b) :
    Refers entries' a b := by
  obtain ⟨⟨e, he, rfl, hrest⟩, hb⟩ := hr
  obtain ⟨e', he', hrel⟩ := exists_of_forall₂ h e he
  obtain rfl := hrel.elsewhere ha
  exact ⟨⟨e, he', rfl, hrest⟩, map_name_eq h ▸ hb⟩

end Lists

theorem ordered_graph (entries : List Entry) : (graph entries).Ordered := by
  unfold graph
  generalize hg : DependencyGraph.ofNames (entries.map name) = g
  have hordered : g.Ordered := hg ▸ DependencyGraph.ordered_ofNames _
  clear hg
  induction entries generalizing g with
  | nil => exact hordered
  | cons e rest ih =>
    rw [List.foldl_cons]
    refine ih _ ?_
    rw [connect_eq_linkAll]
    exact hordered.linkAll _

/-- Items with the same names that refer to the same items are planned in the same order. -/
theorem resolutionOrder_eq (hn : (entries.map Entry.name).Nodup)
    (hnames : entries.map Entry.name = entries'.map Entry.name)
    (hrefers : Refers entries = Refers entries') :
    (graph entries).resolutionOrder = (graph entries').resolutionOrder := by
  have hnodes : (graph entries).nodes = (graph entries').nodes := by
    rw [nodes_graph hn, nodes_graph (hnames ▸ hn), hnames]
  refine DependencyGraph.resolutionOrder_congr hnodes ?_
  refine (ordered_graph entries).dependencies_eq (ordered_graph entries') hnodes ?_
  rw [dependsOn_graph, dependsOn_graph, hrefers]

end Entry

/-! ## Documents -/

namespace Document

/-- Two documents differ in nothing but an end that a period overrides, of the items with a
name. -/
structure SameButEnd (item : String) (d d' : Document) : Prop where
  project : d.project = d'.project
  colors : d.colors = d'.colors
  groups : d.groups = d'.groups
  entries : List.Forall₂ (Entry.SameButEnd item) d.entries d'.entries

/-- The error of planning an item once all items that its days are derived from have their
plans. -/
def PlanFault (d : Document) (config : ChartConfig) (err : ScheduleError) : Prop :=
  ∃ calendar, d.project.calendar = .ok calendar ∧ ∃ e ∈ d.entries, ∃ t : PlanTable,
    t.Sound calendar config.dependencyGapDays d.entries ∧
    (∀ r raw name, e.range? = some r → raw ∈ r.evaluated → DateExpr.itemOf? (some raw) = some name →
      name ∈ d.entries.map Entry.name → ∃ p, t.get? name = some p) ∧
    Entry.plan d.entries calendar config.dependencyGapDays t e.name = .error err

/-- A document without loops whose plan pass fails. -/
structure PlansFail (d : Document) (config : ChartConfig) (calendar : WorkCalendar)
    (err : ScheduleError) : Prop where
  project : d.project.calendar = .ok calendar
  nodup : (d.entries.map Entry.name).Nodup
  acyclic : (Entry.graph d.entries).isCyclic = false
  plans : Entry.plans d.entries calendar config.dependencyGapDays = .error err

variable {d d' : Document} {config : ChartConfig} {s : Schedule} {item : String}
  {calendar : WorkCalendar} {table table' : PlanTable} {err : ScheduleError}

theorem resolve_of_repeated {name : String} (hc : d.project.calendar = .ok calendar)
    (h : Entry.repeated? d.entries = some name) :
    d.resolve config = .error (.duplicateName name) := by
  unfold resolve
  rw [hc]
  simp only [h]
  rfl

theorem resolve_of_plans (hc : d.project.calendar = .ok calendar)
    (hn : (d.entries.map Entry.name).Nodup) (ha : (Entry.graph d.entries).isCyclic = false)
    (hp : Entry.plans d.entries calendar config.dependencyGapDays = .ok table) :
    d.resolve config =
      (d.entries.mapM fun e : Entry =>
        e.resolve calendar (d.colors.palette config) table).map fun items =>
          ⟨calendar, items, (d.entries.flatMap fun e =>
            table.paths e.name (d.colors.palette config).path).eraseDups,
            d.scheduleGroups (d.entries.map Entry.name)⟩ := by
  unfold resolve
  rw [hc]
  simp only [Entry.repeated?_eq_none_iff.mpr hn, ha]
  show Entry.plans d.entries calendar config.dependencyGapDays >>= _ = _
  rw [hp]
  show (d.entries.mapM fun e : Entry =>
    e.resolve calendar (d.colors.palette config) table) >>= _ = _
  cases d.entries.mapM fun e : Entry => e.resolve calendar (d.colors.palette config) table <;> rfl

theorem PlansFail.resolve_eq (hf : d.PlansFail config calendar err) :
    d.resolve config = .error err :=
  resolve_of_plans_eq_error hf.project hf.nodup hf.acyclic hf.plans

theorem SameButEnd.refl (item : String) (d : Document) : d.SameButEnd item d :=
  ⟨rfl, rfl, rfl, List.forall₂_same.mpr fun e _ => Entry.SameButEnd.refl item e⟩

namespace SameButEnd

variable (h : d.SameButEnd item d')
include h

theorem symm : d'.SameButEnd item d :=
  ⟨h.project.symm, h.colors.symm, h.groups.symm, Entry.flip_sameButEnd h.entries⟩

theorem repeated?_eq : Entry.repeated? d.entries = Entry.repeated? d'.entries :=
  Entry.seenAgain?_eq h.entries ∅

/-- Items are shown alike by tables with the same plans. -/
theorem mapM_resolve_eq (hget : ∀ name, table.get? name = table'.get? name) (palette : Palette) :
    (d.entries.mapM fun e : Entry => e.resolve calendar palette table) =
      d'.entries.mapM fun e : Entry => e.resolve calendar palette table' := by
  have hentries := h.entries
  generalize d.entries = entries, d'.entries = entries' at hentries
  induction hentries with
  | nil => rfl
  | cons hrel _ ih =>
    rw [List.mapM_cons, List.mapM_cons, ih, Entry.resolve_congr hget, hrel.resolve]

theorem flatMap_paths_eq (hget : ∀ name, table.get? name = table'.get? name) (color : String) :
    (d.entries.flatMap fun e => table.paths e.name color) =
      d'.entries.flatMap fun e => table'.paths e.name color := by
  rw [← List.flatMap_map Entry.name fun n => table.paths n color,
    ← List.flatMap_map Entry.name fun n => table'.paths n color, Entry.map_name_eq h.entries]
  exact List.flatMap_congr fun n _ => PlanTable.paths_congr hget n color

/-- Plan passes that both succeed make the same schedule, or fail by the same actual block. -/
theorem resolve_eq_of_plans (hc : d.project.calendar = .ok calendar)
    (hn : (d.entries.map Entry.name).Nodup) (ha : (Entry.graph d.entries).isCyclic = false)
    (ha' : (Entry.graph d'.entries).isCyclic = false)
    (hp : Entry.plans d.entries calendar config.dependencyGapDays = .ok table)
    (hp' : Entry.plans d'.entries calendar config.dependencyGapDays = .ok table')
    (hget : ∀ name, table.get? name = table'.get? name) : d.resolve config = d'.resolve config := by
  have hnames := Entry.map_name_eq h.entries
  rw [resolve_of_plans hc hn ha hp,
    resolve_of_plans (h.project ▸ hc) (hnames ▸ hn) ha' hp', ← h.colors,
    h.mapM_resolve_eq hget, h.flatMap_paths_eq hget, ← hnames]
  simp only [scheduleGroups, h.groups]

/-- A plan pass without loops succeeds for both or for none, and then makes the same plans. -/
theorem exists_plans (hn : (d.entries.map Entry.name).Nodup) {gap : Int}
    (ha : (Entry.graph d.entries).isCyclic = false)
    (ha' : (Entry.graph d'.entries).isCyclic = false)
    (hp : Entry.plans d.entries calendar gap = .ok table) :
    ∃ table', Entry.plans d'.entries calendar gap = .ok table' ∧
      ∀ name, table.get? name = table'.get? name := by
  have hnames := Entry.map_name_eq h.entries
  have hn' : (d'.entries.map Entry.name).Nodup := hnames ▸ hn
  have hsound := Entry.sound_of_sameButEnd (Entry.flip_sameButEnd h.entries)
    (Entry.sound_of_foldlM hp)
  have hplanned : ∀ e' ∈ d'.entries, ∃ p, table.get? e'.name = some p := by
    intro e' he'
    obtain ⟨e, he, hrel⟩ := exists_of_forall₂ h.entries.flip e' he'
    exact hrel.name ▸ Entry.planned_of_plans ha hp e he
  have hsolves := Entry.solves_of_sound hn' hsound hplanned
  obtain ⟨table', hp'⟩ := Entry.exists_plans_of_solves ha' hsolves
  have hsound' := Entry.sound_of_foldlM hp'
  have hdays : table.days = table'.days :=
    Entry.eq_days_of_within hsolves (Entry.within_of_foldlM hsolves hp') hsound'
      (Entry.planned_of_plans ha' hp')
  exact ⟨table', hp', PlanTable.get?_eq_of_sound hn' hsound hsound' hdays⟩

/-- What stops the plan pass of one document is wrong with the other one as well. -/
theorem planFault (hf : d'.PlansFail config calendar err) : d.PlanFault config err := by
  obtain ⟨before, name, after, t, horder, ht, hstep⟩ := foldlM_eq_error hf.plans
  have hready := Entry.planned_of_refers hf.acyclic horder ht
  obtain ⟨e', he', rfl, _⟩ := Entry.plan_eq_error hstep
  obtain ⟨e, he, hrel⟩ := exists_of_forall₂ h.entries.flip e' he'
  refine ⟨calendar, h.project ▸ hf.project, e, he, t,
    Entry.sound_of_sameButEnd h.entries (Entry.sound_of_foldlM ht), ?_, ?_⟩
  · intro r raw name hr hraw hitem hname
    obtain ⟨r', hr', hsame⟩ := hrel.symm.exists_range hr
    obtain ⟨expr, hread, hexpr⟩ := Option.bind_eq_some_iff.mp hitem
    have href := PlanRange.reference_of_evaluated (hsame.evaluated_eq ▸ hraw) hread hexpr
    exact hready name
      (Entry.refers_of_reference he' hr' href (Entry.map_name_eq h.entries ▸ hname))
  · rw [Entry.plan_eq h.entries, hrel.name]
    exact hstep

/-- The calendar and the names are in order, or the documents fail alike. -/
theorem resolve_eq_or_in_order (config : ChartConfig) : d.resolve config = d'.resolve config ∨
    ∃ calendar, d.project.calendar = .ok calendar ∧ (d.entries.map Entry.name).Nodup := by
  cases hc : d.project.calendar with
  | error err => exact .inl (by rw [resolve, resolve, ← h.project, hc]; rfl)
  | ok calendar =>
    cases hr : Entry.repeated? d.entries with
    | some name =>
      left
      rw [resolve_of_repeated hc hr, resolve_of_repeated (h.project ▸ hc) (h.repeated?_eq ▸ hr)]
    | none => exact .inr ⟨calendar, rfl, Entry.repeated?_eq_none_iff.mp hr⟩

/-- Where the same items are on loops, the documents resolve to the same, or both plan passes
fail. -/
theorem resolve_cases (config : ChartConfig)
    (hloops : ∀ n, TransGen (Entry.Refers d.entries) n n ↔ TransGen (Entry.Refers d'.entries) n n) :
    d.resolve config = d'.resolve config ∨ ∃ calendar err err',
      d.PlansFail config calendar err ∧ d'.PlansFail config calendar err' := by
  rcases h.resolve_eq_or_in_order config with heq | ⟨calendar, hc, hn⟩
  · exact .inl heq
  have hnames := Entry.map_name_eq h.entries
  have hc' : d'.project.calendar = .ok calendar := h.project ▸ hc
  have hn' : (d'.entries.map Entry.name).Nodup := hnames ▸ hn
  rw [← Entry.dependsOn_graph, ← Entry.dependsOn_graph] at hloops
  have hcyclic := DependencyGraph.isCyclic_congr hloops
  cases ha : (Entry.graph d.entries).isCyclic with
  | true =>
    have hnodes : (Entry.graph d.entries).nodes = (Entry.graph d'.entries).nodes := by
      rw [Entry.nodes_graph hn, Entry.nodes_graph hn', hnames]
    left
    rw [resolve_of_isCyclic hc hn ha, resolve_of_isCyclic hc' hn' (hcyclic ▸ ha),
      DependencyGraph.looped_congr hnodes hloops]
  | false =>
    have ha' : (Entry.graph d'.entries).isCyclic = false := hcyclic ▸ ha
    cases hp : Entry.plans d.entries calendar config.dependencyGapDays with
    | ok table =>
      obtain ⟨table', hp', hget⟩ := h.exists_plans hn ha ha' hp
      exact .inl (h.resolve_eq_of_plans hc hn ha ha' hp hp' hget)
    | error err =>
      cases hp' : Entry.plans d'.entries calendar config.dependencyGapDays with
      | ok table' =>
        obtain ⟨table, hok, _⟩ := h.symm.exists_plans hn' ha' ha hp'
        rw [hp] at hok
        cases hok
      | error err' => exact .inr ⟨calendar, err, err', ⟨hc, hn, ha, hp⟩, ⟨hc', hn', ha', hp'⟩⟩

/-- Where each item refers to the same items, even the errors of the plan passes are the same. -/
theorem resolve_eq_of_refers (hrefers : (d.entries.map Entry.name).Nodup →
      Entry.Refers d.entries = Entry.Refers d'.entries) : d.resolve config = d'.resolve config := by
  rcases h.resolve_eq_or_in_order config with heq | ⟨_, _, hn⟩
  · exact heq
  have hsame := hrefers hn
  have hloops (n : String) : TransGen (Entry.Refers d.entries) n n ↔
      TransGen (Entry.Refers d'.entries) n n := by rw [hsame]
  rcases h.resolve_cases config hloops with heq | ⟨calendar, err, err', hf, hf'⟩
  · exact heq
  · have horder := Entry.resolutionOrder_eq hn (Entry.map_name_eq h.entries) hsame
    have hplans : Entry.plans d.entries = Entry.plans d'.entries := by
      funext calendar gap
      rw [Entry.plans, Entry.plans, horder, Entry.plan_eq h.entries]
    have herr := hf.plans
    rw [hplans, hf'.plans] at herr
    cases herr
    rw [hf.resolve_eq, hf'.resolve_eq]

end SameButEnd

end Document

end GanttChart
