import GanttChart.Proofs.Schedule.Faults

/-! # Documents that can be planned

The order in which items are planned never makes a plan fail. A reference to an item of the document
is never reported as unknown, and where every plan is complete and its references are known, nothing
but an unsupported period stops the plan pass. -/

namespace GanttChart

open Outcome Relation

theorem PlanRange.part_of_evaluated {r : PlanRange} {raw : String} (h : raw ∈ r.evaluated) :
    r.start = some raw ∨ r.finish = some raw := by
  unfold evaluated at h
  rcases List.mem_append.mp h with h | h
  · exact .inl (Option.mem_toList.mp h)
  · split at h
    · cases h
    · exact .inr (Option.mem_toList.mp h)

theorem PlanRange.reference_of_evaluated {r : PlanRange} {raw name : String} {expr : DateExpr}
    (hraw : raw ∈ r.evaluated) (he : DateExpr.read? raw = some expr)
    (hn : expr.reference? = some name) : name ∈ r.references :=
  mem_references.mpr ⟨raw, expr, part_of_evaluated hraw, he, hn⟩

/-- A text can be read, and refers to the project or to one of the given names if to anything. -/
def DateExpr.Known (names : List String) (raw : String) : Prop :=
  ∃ expr, DateExpr.read? raw = some expr ∧ ∀ name, expr.reference? = some name → name ∈ names

instance (names : List String) (raw : String) : Decidable (DateExpr.Known names raw) :=
  decidable_of_iff (∃ expr ∈ DateExpr.read? raw, ∀ name ∈ expr.reference?, name ∈ names) Iff.rfl

namespace Entry

variable {entries : List Entry} {calendar : WorkCalendar} {gap : Int} {err : ScheduleError}

/-- The plan pass finds every item that a plan refers to, whatever else is wrong. -/
theorem not_mem_of_unknownReference {item name : String}
    (hc : (graph entries).isCyclic = false)
    (h : plans entries calendar gap = .error (.unknownReference item name)) :
    name ∉ entries.map Entry.name := by
  intro hm
  generalize herr : ScheduleError.unknownReference item name = err at h
  obtain ⟨e, he, _, t, _, hready, ⟨_, hf⟩ | ⟨r, hr, hf⟩⟩ := plans_eq_error hc h
  · subst hf
    cases herr
  · subst herr
    cases PlanTable.resolveRange_eq_error hf with
    | unknown hraw hread hn ht =>
      have href := PlanRange.reference_of_evaluated hraw hread hn
      obtain ⟨p, hp⟩ := hready name (refers_of_reference he hr href hm)
      rw [ht] at hp
      cases hp

/-- The plan of an item is complete: there is a start, and a number of days or an end, and what is
evaluated can be read and refers to no names but the given ones. -/
structure Complete (names : List String) (e : Entry) (r : PlanRange) : Prop where
  range : e.range? = some r
  start : r.start.isSome
  bounded : (∃ days, r.period = some (.number days) ∧ Number.isFinite days) ∨ r.finish.isSome
  known : ∀ raw ∈ r.evaluated, DateExpr.Known names raw

/-- Complete plans only fail by an unsupported period. -/
theorem plans_eq_error_of_complete (hc : (graph entries).isCyclic = false)
    (hall : ∀ e ∈ entries, ∃ r, e.Complete (entries.map Entry.name) r)
    (h : plans entries calendar gap = .error err) : ∃ value, err = .unsupportedPeriod value := by
  obtain ⟨e, he, _, t, _, hready, hfault⟩ := plans_eq_error hc h
  obtain ⟨r, hcomplete⟩ := hall e he
  rw [hcomplete.range] at hfault
  rcases hfault with ⟨hnone, _⟩ | ⟨r', hr, hf⟩
  · cases hnone
  cases hr
  cases PlanTable.resolveRange_eq_error hf with
  | noStart hs =>
    have hstart := hcomplete.start
    rw [hs] at hstart
    cases hstart
  | noFinish hp hfin =>
    rcases hcomplete.bounded with ⟨_, hperiod, _⟩ | hfinish
    · rw [hp] at hperiod
      cases hperiod
    · rw [hfin] at hfinish
      cases hfinish
  | unreadable hraw hd =>
    obtain ⟨expr, hread, _⟩ := hcomplete.known _ hraw
    rw [hd] at hread
    cases hread
  | unknown hraw hread hn ht =>
    obtain ⟨expr, hread', hknown⟩ := hcomplete.known _ hraw
    rw [hread] at hread'
    cases hread'
    -- the reference is a dependency of the graph, so its turn has come before
    have href := PlanRange.reference_of_evaluated hraw hread hn
    obtain ⟨p, hp⟩ := hready _ (refers_of_reference he hcomplete.range href (hknown _ hn))
    rw [ht] at hp
    cases hp
  | unsupported value => exact ⟨value, rfl⟩

end Entry

namespace Document

/-- Nothing but the arithmetic of days can be wrong with the plans of a document. -/
structure Plannable (d : Document) (calendar : WorkCalendar) : Prop where
  calendar : d.project.calendar = .ok calendar
  nodup : (d.entries.map Entry.name).Nodup
  acyclic : ∀ n, ¬ TransGen (Entry.Refers d.entries) n n
  complete : ∀ e ∈ d.entries, ∃ r, e.Complete (d.entries.map Entry.name) r

variable {d : Document} {config : ChartConfig} {calendar : WorkCalendar} {table : PlanTable}
  {err : ScheduleError}

theorem Plannable.isCyclic_eq_false (h : d.Plannable calendar) :
    (Entry.graph d.entries).isCyclic = false := by
  rw [DependencyGraph.not_isCyclic_iff, Entry.dependsOn_graph]
  exact h.acyclic

theorem not_mem_of_unknownReference {item name : String}
    (h : d.resolve config = .error (.unknownReference item name)) :
    name ∉ d.entries.map Entry.name := by
  generalize herr : ScheduleError.unknownReference item name = err at h
  cases resolve_eq_error h with
  | calendar hf =>
    subst herr
    cases ProjectSection.calendar_eq_error hf
  | repeated _ _ => cases herr
  | looped _ _ _ => cases herr
  | plans _ _ ha hf =>
    subst herr
    exact Entry.not_mem_of_unknownReference ha hf
  | item _ _ ha hp he hf =>
    subst herr
    cases Entry.actualFault_of_resolve ha hp he hf

/-- Once the plans are made, only the actual blocks can be at fault. -/
theorem Plannable.fault_of_plans (h : d.Plannable calendar)
    (hp : Entry.plans d.entries calendar config.dependencyGapDays = .ok table)
    (herr : d.resolve config = .error err) :
    ∃ e ∈ d.entries, ActualRange.Fault e.name err := by
  have hcalendar {c : WorkCalendar} (hc : d.project.calendar = .ok c) : c = calendar :=
    Except.ok.inj (hc.symm.trans h.calendar)
  cases resolve_eq_error herr with
  | calendar hf =>
    rw [h.calendar] at hf
    cases hf
  | repeated _ hf =>
    rw [Entry.repeated?_eq_none_iff.mpr h.nodup] at hf
    cases hf
  | looped _ _ hf =>
    rw [h.isCyclic_eq_false] at hf
    cases hf
  | plans hc _ _ hf =>
    rw [hcalendar hc, hp] at hf
    cases hf
  | item _ _ ha hp' he hf => exact ⟨_, he, Entry.actualFault_of_resolve ha hp' he hf⟩

/-- An item of the document is never reported as unknown. If nothing but the arithmetic of days can
be wrong with the plans, either that is what is reported, as an unsupported period, or all items are
planned and only their actual blocks can still be at fault. -/
theorem resolve_of_plannable :
    (∀ item name, d.resolve config = .error (.unknownReference item name) →
      name ∉ d.entries.map Entry.name) ∧
    (d.Plannable calendar →
      (∃ value,
        Entry.plans d.entries calendar config.dependencyGapDays =
          .error (.unsupportedPeriod value) ∧
        d.resolve config = .error (.unsupportedPeriod value)) ∨
      ∃ table, Entry.plans d.entries calendar config.dependencyGapDays = .ok table ∧
        (∀ e ∈ d.entries, ∃ p, table.get? e.name = some p) ∧
        ∀ err, d.resolve config = .error err →
          ∃ e ∈ d.entries, ActualRange.Fault e.name err) := by
  refine ⟨fun item name => not_mem_of_unknownReference, fun h => ?_⟩
  have hc := h.isCyclic_eq_false
  cases hp : Entry.plans d.entries calendar config.dependencyGapDays with
  | error err =>
    obtain ⟨value, rfl⟩ := Entry.plans_eq_error_of_complete hc h.complete hp
    exact .inl ⟨value, rfl, resolve_of_plans_eq_error h.calendar h.nodup hc hp⟩
  | ok table =>
    exact .inr ⟨table, rfl, Entry.planned_of_plans hc hp, fun err => h.fault_of_plans hp⟩

theorem plannable_relay {s : Schedule} (h : relay.resolve .standard = .ok s) :
    relay.Plannable s.calendar := by
  obtain ⟨table, hr⟩ := resolve_eq_ok_iff.mp h
  refine ⟨hr.calendar, hr.nodup, ?_, ?_⟩
  · rw [← Entry.dependsOn_graph, ← DependencyGraph.not_isCyclic_iff]
    exact hr.acyclic
  · have hall : ∀ e ∈ relay.entries, ∃ r ∈ e.range?, r.start.isSome ∧ r.finish.isSome ∧
        ∀ raw ∈ r.evaluated, DateExpr.Known (relay.entries.map Entry.name) raw := by
      decide +kernel
    intro e he
    obtain ⟨r, hrange, hstart, hfinish, hknown⟩ := hall e he
    exact ⟨r, hrange, hstart, .inr hfinish, hknown⟩

theorem plans_of_relay : ∃ s : Schedule, relay.Plannable s.calendar ∧
    ∃ table, Entry.plans relay.entries s.calendar ChartConfig.standard.dependencyGapDays =
        .ok table ∧
      ∀ e ∈ relay.entries, ∃ p, table.get? e.name = some p := by
  obtain ⟨s, hs⟩ := exists_resolve_relay
  have h := plannable_relay hs
  refine ⟨s, h, ?_⟩
  rcases resolve_of_plannable.2 h with ⟨_, _, herr⟩ | ⟨table, hp, hall, _⟩
  · rw [hs] at herr
    cases herr
  · exact ⟨table, hp, hall⟩

end Document

end GanttChart
