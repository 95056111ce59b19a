import GanttChart.Proofs.Notation.Partition
import GanttChart.Proofs.Notation.Plans

/-! # What the items of a text lack

An item enters the document as soon as it is ready, a milestone with any part of a plan, and later
attribute lines go on changing it: one that sets a part again after a point gives up all that was
said before. So an item that has entered lacks a part of its plan exactly when the parts set since
its last point leave one open, and no text with such an item resolves. -/

namespace GanttChart

open Notation (Marker)

theorem PlanRange.start_forMilestone_eq_none_iff {r : PlanRange} :
    r.forMilestone.start = none ↔ r.start = none ∧ r.finish = none := by
  rw [forMilestone_eq, Option.or_eq_none_iff]

/-- A milestone with a start or an end never lacks its end. -/
theorem PlanRange.finish_forMilestone_eq_none {r : PlanRange} (hp : r.forMilestone.period = none)
    (hf : r.forMilestone.finish = none) : r.start = none ∧ r.finish = none ∧ r.period = none := by
  rw [forMilestone_eq] at hp hf
  simp only at hp hf
  rw [hp, Option.isNone_none, if_pos rfl, Option.or_eq_none_iff] at hf
  exact ⟨hf.2, hf.1, hp⟩

namespace Entry

variable {e : Entry}

theorem exists_plan_of_ready (h : e.Ready) : ∃ plan, e.plan? = some plan := by
  cases e with
  | task t =>
    obtain ⟨r, hr, _⟩ := h
    exact ⟨_, hr⟩
  | milestone m =>
    rcases h with ⟨day, hday⟩ | ⟨r, hr, _⟩
    · exact ⟨_, hday⟩
    · exact ⟨_, hr⟩

theorem foldl_apply_task (as : List Notation.Attribute) (t : TaskRecord) :
    as.foldl Entry.apply (task t) = task (as.foldl TaskRecord.apply t) :=
  List.foldl_hom task fun _ _ => rfl

theorem foldl_apply_milestone (as : List Notation.Attribute) (m : MilestoneRecord) :
    as.foldl Entry.apply (milestone m) = milestone (as.foldl MilestoneRecord.apply m) :=
  List.foldl_hom milestone fun _ _ => rfl

/-- A point is a start and an end. -/
theorem not_lacks_of_point {day field : String} (h : e.plan? = some (.point day)) :
    ¬ e.Lacks field := by
  have hrange : e.range? = some ⟨some day, some day, none⟩ := by
    cases e with
    | task t => exact congrArg (Option.map PlanSpec.toRange) h
    | milestone m => exact congrArg (Option.map fun p => p.toRange.forMilestone) h
  rw [lacks_iff_of_range hrange]
  simp

end Entry

namespace Notation

namespace Block

variable {ls : List Line} {b : Block} {field : String}

/-- The parts of its plan that a block sets after the last point. -/
def parts (b : Block) : List Marker := (sincePoint b.settings).map Prod.fst

/-- What the plan of a finished block lacks, as the field that is reported: a task has to have a
start and an end or a period, a milestone a start or an end. Only a plan that a point has not
settled can lack something. -/
inductive Lacks (b : Block) : String → Prop
  | start {t : TaskRecord} (ht : b.opened = .task t) (h : b.parts ≠ []) (hs : .start ∉ b.parts) :
      Lacks b (t.name ++ ".plan.start")
  | finish {t : TaskRecord} (ht : b.opened = .task t) (h : b.parts ≠ []) (hf : .finish ∉ b.parts)
      (hp : .period ∉ b.parts) : Lacks b (t.name ++ ".plan.end")
  | day {m : MilestoneRecord} (hm : b.opened = .milestone m) (h : b.parts ≠ [])
      (hs : .start ∉ b.parts) (hf : .finish ∉ b.parts) : Lacks b (m.name ++ ".plan.start")

theorem Lacks.parts_ne_nil (h : b.Lacks field) : b.parts ≠ [] := by
  cases h <;> assumption

theorem point_not_mem_parts (b : Block) : Marker.point ∉ b.parts := by
  intro h
  obtain ⟨s, hs, hpoint⟩ := List.mem_map.mp h
  have hkept := List.mem_rtakeWhile_imp hs
  simp [hpoint] at hkept

/-- The parts since the last point are a start, an end or a period. -/
theorem parts_eq_nil (hs : .start ∉ b.parts) (hf : .finish ∉ b.parts) (hp : .period ∉ b.parts) :
    b.parts = [] := by
  refine List.eq_nil_iff_forall_not_mem.mpr fun marker => ?_
  cases marker with
  | start => exact hs
  | finish => exact hf
  | period => exact hp
  | point => exact b.point_not_mem_parts

theorem settings_ne_nil (hb : b ∈ blocks ls) (hin : b.Enters) : b.settings ≠ [] := by
  intro hnil
  obtain ⟨_, _, _, hopened, _⟩ := exists_suffix_of_mem_blocks hb
  obtain ⟨as, hprefix, hready⟩ := hin
  obtain ⟨plan, hplan⟩ := Entry.exists_plan_of_ready hready
  -- without settings the plan is still the one the item was opened with
  have has : as.filterMap Attribute.setting? = [] :=
    List.prefix_nil.mp (hnil ▸ hprefix.filterMap Attribute.setting?)
  rw [Entry.plan?_foldl, has, List.foldl_nil, Line.plan?_of_opened? hopened] at hplan
  cases hplan

/-- The plan of a block that enters is settled by a point or made of its last parts. -/
theorem plan_of_enters (hb : b ∈ blocks ls) (hin : b.Enters) :
    (∃ day, b.parts = [] ∧ b.finished.plan? = some (.point day)) ∨
      ∃ r, b.parts ≠ [] ∧ b.finished.plan? = some (.range r) ∧
        (r.start = none ↔ .start ∉ b.parts) ∧ (r.finish = none ↔ .finish ∉ b.parts) ∧
        (r.period = none ↔ .period ∉ b.parts) := by
  have hleaves := leaves_of_mem_blocks hb
  generalize b.finished.plan? = plan at hleaves
  cases hleaves with
  | nothing h => exact absurd h (settings_ne_nil hb hin)
  | @point day _ hs => exact .inl ⟨day, by rw [parts, hs, List.map_nil], rfl⟩
  | range h =>
    refine .inr ⟨_, by simpa [parts] using h, rfl, latest?_eq_none_iff, latest?_eq_none_iff, ?_⟩
    exact Option.map_eq_none_iff.trans latest?_eq_none_iff

theorem lacks_task_iff {t : TaskRecord} {r : PlanRange} (ht : b.opened = .task t)
    (hne : b.parts ≠ []) (hr : b.finished.range? = some r)
    (hs : r.start = none ↔ .start ∉ b.parts) (hf : r.finish = none ↔ .finish ∉ b.parts)
    (hp : r.period = none ↔ .period ∉ b.parts) : b.finished.Lacks field ↔ b.Lacks field := by
  rw [Entry.lacks_iff_of_range hr, b.name_finished, ht]
  constructor
  · intro h
    rcases h with ⟨hnone, rfl⟩ | ⟨hperiod, hfinish, rfl⟩
    · exact .start ht hne (hs.mp hnone)
    · exact .finish ht hne (hf.mp hfinish) (hp.mp hperiod)
  · intro h
    cases h with
    | start ht' _ hstart =>
      cases ht.symm.trans ht'
      exact .inl ⟨hs.mpr hstart, rfl⟩
    | finish ht' _ hfinish hperiod =>
      cases ht.symm.trans ht'
      exact .inr ⟨hp.mpr hperiod, hf.mpr hfinish, rfl⟩
    | day hm _ _ _ => cases ht.symm.trans hm

theorem lacks_milestone_iff {m : MilestoneRecord} {r : PlanRange} (hm : b.opened = .milestone m)
    (hne : b.parts ≠ []) (hr : b.finished.range? = some r.forMilestone)
    (hs : r.start = none ↔ .start ∉ b.parts) (hf : r.finish = none ↔ .finish ∉ b.parts)
    (hp : r.period = none ↔ .period ∉ b.parts) : b.finished.Lacks field ↔ b.Lacks field := by
  rw [Entry.lacks_iff_of_range hr, b.name_finished, hm]
  constructor
  · intro h
    rcases h with ⟨hnone, rfl⟩ | ⟨hperiod, hfinish, rfl⟩
    · obtain ⟨hstart, hfinish⟩ := PlanRange.start_forMilestone_eq_none_iff.mp hnone
      exact .day hm hne (hs.mp hstart) (hf.mp hfinish)
    · -- a plan with neither a start nor an end nor a period has no parts
      obtain ⟨hstart, hfinish, hperiod⟩ := PlanRange.finish_forMilestone_eq_none hperiod hfinish
      exact absurd (parts_eq_nil (hs.mp hstart) (hf.mp hfinish) (hp.mp hperiod)) hne
  · intro h
    cases h with
    | day hm' _ hstart hfinish =>
      cases hm.symm.trans hm'
      have hnone := PlanRange.start_forMilestone_eq_none_iff.mpr ⟨hs.mpr hstart, hf.mpr hfinish⟩
      exact .inl ⟨hnone, rfl⟩
    | start ht _ _ => cases hm.symm.trans ht
    | finish ht _ _ _ => cases hm.symm.trans ht

/-- What a finished item lacks can be read off the parts that its block sets. -/
theorem lacks_finished_iff (hb : b ∈ blocks ls) (hin : b.Enters) :
    b.finished.Lacks field ↔ b.Lacks field := by
  rcases plan_of_enters hb hin with ⟨day, hnil, hplan⟩ | ⟨r, hne, hplan, hs, hf, hp⟩
  · exact iff_of_false (Entry.not_lacks_of_point hplan) fun h => h.parts_ne_nil hnil
  cases hopened : b.opened with
  | task t =>
    refine lacks_task_iff hopened hne ?_ hs hf hp
    rw [finished, hopened, Entry.foldl_apply_task] at hplan ⊢
    exact congrArg (Option.map PlanSpec.toRange) hplan
  | milestone m =>
    refine lacks_milestone_iff hopened hne ?_ hs hf hp
    rw [finished, hopened, Entry.foldl_apply_milestone] at hplan ⊢
    exact congrArg (Option.map fun p => p.toRange.forMilestone) hplan

end Block

/-- The items of a coerced document lack what their blocks lack. -/
theorem exists_lacks_iff {text : String} {config : ChartConfig} {d : Document} {field : String}
    (h : (document text).CoercedTo config d) : (∃ e ∈ d.entries, e.Lacks field) ↔
      ∃ b ∈ blocks (linesOf text), b.Enters ∧ b.Lacks field := by
  constructor
  · intro hlacks
    obtain ⟨e', he', hlacks⟩ := hlacks
    obtain ⟨e, he, hrel⟩ := h.exists_entry he'
    obtain ⟨b, hb, hin, rfl⟩ := (Draft.mem_entries_feedAll _).mp he
    exact ⟨b, hb, hin, (Block.lacks_finished_iff hb hin).mp (hrel.lacks_iff.mp hlacks)⟩
  · intro hlacks
    obtain ⟨b, hb, hin, hlacks⟩ := hlacks
    have he : b.finished ∈ (document text).entries :=
      (Draft.mem_entries_feedAll _).mpr ⟨b, hb, hin, rfl⟩
    obtain ⟨e', he', hrel⟩ := Outcome.exists_of_forall₂ h.entries _ he
    exact ⟨e', he', hrel.lacks_iff.mpr ((Block.lacks_finished_iff hb hin).mpr hlacks)⟩

/-- A field that is reported as missing is one of the project, or one that an item lacks because
the parts set since its last point leave it open. A text with such an item never resolves. -/
theorem missingField_of_lacking (text : String) (config : ChartConfig) (scale : Option Scale) :
    (∀ field, Schedule.ofText .plain text config scale = .error (.missingField field) →
      field ∈ ProjectSection.required ∨
        ∃ b ∈ blocks (linesOf text), b.Enters ∧ b.Lacks field) ∧
    ∀ b ∈ blocks (linesOf text), b.Enters → ∀ field, b.Lacks field →
      ∀ s, Schedule.ofText .plain text config scale ≠ .ok s := by
  refine ⟨?_, ?_⟩
  · intro field h
    rcases ofText_plain_eq_error h with hfault | ⟨d, hrel, hr⟩
    · -- coercing reports nothing as missing
      cases hfault
    · exact (Document.lacks_of_missingField hr).imp_right (exists_lacks_iff hrel).mp
  · intro b hb hin field hlacks s h
    obtain ⟨d, t, table, hrel, hresolves, _⟩ := Schedule.resolvesTo_of_ofText h
    obtain ⟨e, he, hl⟩ := (exists_lacks_iff hrel).mpr ⟨b, hb, hin, hlacks⟩
    exact hresolves.not_lacks he hl

/-- A milestone that enters the document with nothing but a period. -/
def undated : String :=
  "project lasts 2020/4/1 to 2020/4/30\ntoday is 2020/4/10\nsat is closed\n!review\n  =3 days\n"

theorem document_undated : document undated =
    .april [] [{ MilestoneRecord.named "review" with
      plan := some (.range ⟨none, none, some (.text "3 days")⟩) }] := by
  rfl

/-- Whatever number the period becomes, it gives no day to count from. -/
theorem resolve_undated {config : ChartConfig} {d : Document}
    (h : (document undated).CoercedTo config d) :
    d.resolve config = .error (.missingField "review.plan.start") := by
  rw [document_undated] at h
  obtain ⟨project, colors, tasks, milestones, groups⟩ := d
  obtain ⟨rfl, rfl, htasks, hmilestones, rfl⟩ := h
  cases htasks
  obtain ⟨⟨name, text, plan, actual⟩, _, hm, hrest, rfl⟩ :=
    List.forall₂_cons_left_iff.mp hmilestones
  cases hrest
  obtain ⟨rfl, rfl, hplan, hactual⟩ := hm
  cases hactual
  cases hplan with
  | some hplan =>
    cases hplan with
    | @range _ r hr =>
      obtain ⟨start, finish, period⟩ := r
      obtain ⟨rfl, rfl, _⟩ := hr
      cbv

theorem ofText_undated : Schedule.ofText .plain undated .standard none =
    .error (.missingField "review.plan.start") := by
  rcases ofText_plain undated .standard none with ⟨err, hc, _⟩ | ⟨d, hrel, hof⟩
  · have hok : (Coercion.coerce .standard (document undated).toValue).isOk = true := by
      decide +kernel
    rw [hc] at hok
    cases hok
  · rw [hof, resolve_undated hrel]
    rfl

theorem undated_lacks_day :
    Schedule.ofText .plain undated .standard none = .error (.missingField "review.plan.start") ∧
    ∃ b ∈ blocks (linesOf undated), b.Enters ∧ b.Lacks "review.plan.start" ∧
      ∀ s, Schedule.ofText .plain undated .standard none ≠ .ok s := by
  obtain ⟨hmissing, hunresolved⟩ := missingField_of_lacking undated .standard none
  refine ⟨ofText_undated, ?_⟩
  rcases hmissing _ ofText_undated with hproject | ⟨b, hb, hin, hlacks⟩
  · exact absurd hproject (by decide)
  · exact ⟨b, hb, hin, hlacks, hunresolved b hb hin _ hlacks⟩

/-- Not only fields of the project can be missing. -/
theorem exists_item_field_missing : ¬ ∀ (text : String) (config : ChartConfig)
    (scale : Option Scale) (field : String),
    Schedule.ofText .plain text config scale = .error (.missingField field) →
      field ∈ ProjectSection.required := by
  intro h
  have hproject := h undated .standard none "review.plan.start" ofText_undated
  exact absurd hproject (by decide)

end Notation

end GanttChart
