import GanttChart.Proofs.Document.Coerced

/-! # What a document has been read from

A record is read exactly when each of its parts is read from its field and a list has no item too
many. That is one lemma a record, and whoever reasons about reading goes by the parts from there. -/

namespace GanttChart

open Outcome

namespace Value

mutual

/-- Whether a value is as texts give them: numbers are finite, and the fields of an object are sorted
by key. -/
def isWellFormed : Value → Bool
  | num n => Number.isFinite n.toFloat
  | list items => areWellFormed items
  | object fields => haveWellFormed fields
  | _ => true

def areWellFormed : List Value → Bool
  | [] => true
  | v :: rest => v.isWellFormed && areWellFormed rest

def haveWellFormed : List (String × Value) → Bool
  | [] => true
  | (key, v) :: rest => rest.all (fun f => key < f.1) && v.isWellFormed && haveWellFormed rest

end

theorem areWellFormed_iff {items : List Value} :
    areWellFormed items = true ↔ ∀ v ∈ items, v.isWellFormed = true := by
  induction items with
  | nil => simp [areWellFormed]
  | cons v rest ih => simp [areWellFormed, ih]

theorem haveWellFormed_iff {fields : List (String × Value)} : haveWellFormed fields = true ↔
    fields.Pairwise (fun f g => f.1 < g.1) ∧ ∀ f ∈ fields, f.2.isWellFormed = true := by
  induction fields with
  | nil => simp [haveWellFormed]
  | cons f rest ih =>
    simp only [haveWellFormed, Bool.and_eq_true, List.all_eq_true, decide_eq_true_eq, ih,
      List.pairwise_cons, List.forall_mem_cons]
    tauto

end Value

namespace Fields

variable {α : Type} {fields : Fields} {name type : String} {place size : Nat}
  {read : Value → Except ShapeError α} {v : Value} {a : α} {o : Option α}

/-- There is a field for each value. -/
def Fits (size : Nat) : Fields → Prop
  | named _ => True
  | listed items => items.length ≤ size

def values : Fields → List Value
  | named fs => fs.map (·.2)
  | listed items => items

theorem mem_values (h : fields.value? name place = some v) : v ∈ fields.values := by
  cases fields with
  | named fs =>
    obtain ⟨f, hf, rfl⟩ := Option.map_eq_some_iff.mp h
    exact List.mem_map_of_mem (List.mem_of_find?_eq_some hf)
  | listed items => exact List.mem_of_getElem? h

theorem ofValue_eq_ok (h : ofValue type v = .ok fields) :
    (∃ fs, v = .object fs ∧ fields = named fs) ∨
      ∃ items, v = .list items ∧ fields = listed items := by
  cases v with
  | object fs =>
    cases h
    exact .inl ⟨fs, rfl, rfl⟩
  | list items =>
    cases h
    exact .inr ⟨items, rfl, rfl⟩
  | _ => cases h

theorem wellFormed_of_mem_values (hv : v.isWellFormed = true) (h : ofValue type v = .ok fields) :
    ∀ w ∈ fields.values, w.isWellFormed = true := by
  rcases ofValue_eq_ok h with ⟨fs, rfl, rfl⟩ | ⟨items, rfl, rfl⟩
  · intro w hw
    obtain ⟨f, hf, rfl⟩ := List.mem_map.mp hw
    exact (Value.haveWellFormed_iff.mp hv).2 f hf
  · exact Value.areWellFormed_iff.mp hv

theorem check_eq_ok_iff {faults : List (String × Option ShapeError)}
    (h : ∀ f ∈ faults, f.2 = none) :
    fields.check faults = .ok () ↔ fields.Fits faults.length := by
  cases fields with
  | named fs => simp [check_named h, Fits]
  | listed items =>
    have hnone : (listed items).firstFault? faults = none := List.findSome?_eq_none_iff.mpr h
    simp [check, hnone, Fits]

theorem check_of_fits {faults : List (String × Option ShapeError)} (hfits : fields.Fits size)
    (hsize : faults.length = size) (h : ∀ f ∈ faults, f.2 = none) :
    fields.check faults = .ok () := by
  subst hsize
  exact (check_eq_ok_iff h).mpr hfits

theorem optional_eq_some (h : fields.optional name place read = .ok (some a)) :
    ∃ v, fields.value? name place = some v ∧ v ≠ .null ∧ read v = .ok a := by
  unfold optional at h
  split at h
  · cases h
  · cases h
  · rename_i v hnull hv
    obtain ⟨a', ha, h⟩ := map_eq_ok.mp h
    cases h
    exact ⟨v, hv, hnull, ha⟩

theorem given_eq_ok_iff : fields.given name place read = .ok o ↔
    (fields.value? name place = none ∧ o = none) ∨
      ∃ v a, fields.value? name place = some v ∧ read v = .ok a ∧ o = some a := by
  unfold given
  cases hv : fields.value? name place with
  | none => simp [eq_comm]
  | some v =>
    simp only [map_eq_ok, reduceCtorEq, false_and, false_or, Option.some.injEq]
    constructor
    · intro h
      obtain ⟨a, ha, rfl⟩ := h
      exact ⟨v, a, rfl, ha, rfl⟩
    · intro h
      obtain ⟨_, a, rfl, ha, rfl⟩ := h
      exact ⟨a, ha, rfl⟩

theorem required_eq_ok_iff : fields.required name type size o = .ok a ↔ o = some a := by
  cases o with
  | none => cases fields <;> simp [required]
  | some b => simp [required]

end Fields

theorem readList_eq_ok {α : Type} {read : Value → Except ShapeError α} {v : Value} {as : List α}
    (h : readList read v = .ok as) :
    ∃ items, v = .list items ∧ List.Forall₂ (fun w a => read w = .ok a) items as := by
  cases v with
  | list items => exact ⟨items, rfl, mapM_eq_ok_iff.mp h⟩
  | _ => cases h

/-! ## Records -/

section Records

open Fields

variable {fields : Fields} {v : Value}

structure PlanRange.ReadFrom (fields : Fields) (r : PlanRange) : Prop where
  fits : fields.Fits 3
  start : fields.optional "start" 0 readText = .ok r.start
  finish : fields.optional "end" 1 readText = .ok r.finish
  period : fields.optional "period" 2 Scalar.ofValue = .ok r.period

theorem PlanRange.ofFields_eq_ok_iff {r : PlanRange} :
    ofFields fields = .ok r ↔ r.ReadFrom fields := by
  constructor
  · intro h
    obtain ⟨_, hcheck, h⟩ := bind_eq_ok.mp h
    obtain ⟨start, hstart, h⟩ := bind_eq_ok.mp h
    obtain ⟨finish, hfinish, h⟩ := bind_eq_ok.mp h
    obtain ⟨period, hperiod, h⟩ := bind_eq_ok.mp h
    cases h
    rw [check_eq_ok_iff (by simp [hstart, hfinish, hperiod, fault?])] at hcheck
    exact ⟨hcheck, hstart, hfinish, hperiod⟩
  · intro h
    simp only [ofFields, h.start, h.finish, h.period, fault?]
    rw [check_of_fits h.fits]
    · rfl
    · rfl
    · simp

/-- A text is a point, and a record is a range. -/
theorem PlanSpec.ofValue_eq_ok_iff {p : PlanSpec} : ofValue v = .ok p ↔
    (∃ day, v = .str day ∧ p = .point day) ∨
      ∃ fields r, Fields.ofValue "PlanRange" v = .ok fields ∧ r.ReadFrom fields ∧ p = .range r := by
  constructor
  · intro h
    unfold ofValue at h
    split at h
    · rename_i day
      exact .inl ⟨day, rfl, (Except.ok.inj h).symm⟩
    · split at h
      · rename_i r hr
        obtain ⟨fields, hfields, hr⟩ := bind_eq_ok.mp hr
        exact .inr ⟨fields, r, hfields, PlanRange.ofFields_eq_ok_iff.mp hr, (Except.ok.inj h).symm⟩
      · cases h
  · intro h
    rcases h with ⟨day, rfl, rfl⟩ | ⟨fields, r, hfields, hr, rfl⟩
    · rfl
    · have hread : (Fields.ofValue "PlanRange" v).bind PlanRange.ofFields = .ok r :=
        bind_eq_ok.mpr ⟨fields, hfields, PlanRange.ofFields_eq_ok_iff.mpr hr⟩
      cases v with
      | str s => cases hfields
      | _ => simp only [ofValue, hread]

structure ActualRange.ReadFrom (fields : Fields) (r : ActualRange) : Prop where
  fits : fields.Fits 5
  start : fields.optional "start" 0 readText = .ok r.start
  finish : fields.optional "end" 1 readText = .ok r.finish
  completed : fields.optional "completed" 2 readText = .ok r.completed
  period : fields.optional "period" 3 Scalar.ofValue = .ok r.period
  progress : fields.optional "progress" 4 Scalar.ofValue = .ok r.progress

theorem ActualRange.ofFields_eq_ok_iff {r : ActualRange} :
    ofFields fields = .ok r ↔ r.ReadFrom fields := by
  constructor
  · intro h
    obtain ⟨_, hcheck, h⟩ := bind_eq_ok.mp h
    obtain ⟨start, hstart, h⟩ := bind_eq_ok.mp h
    obtain ⟨finish, hfinish, h⟩ := bind_eq_ok.mp h
    obtain ⟨completed, hcompleted, h⟩ := bind_eq_ok.mp h
    obtain ⟨period, hperiod, h⟩ := bind_eq_ok.mp h
    obtain ⟨progress, hprogress, h⟩ := bind_eq_ok.mp h
    cases h
    rw [check_eq_ok_iff (by simp [hstart, hfinish, hcompleted, hperiod, hprogress, fault?])]
      at hcheck
    exact ⟨hcheck, hstart, hfinish, hcompleted, hperiod, hprogress⟩
  · intro h
    simp only [ofFields, h.start, h.finish, h.completed, h.period, h.progress, fault?]
    rw [check_of_fits h.fits]
    · rfl
    · rfl
    · simp

/-- A text is a point, and a record is a range. -/
theorem ActualSpec.ofValue_eq_ok_iff {p : ActualSpec} : ofValue v = .ok p ↔
    (∃ day, v = .str day ∧ p = .point day) ∨
      ∃ fields r, Fields.ofValue "ActualRange" v = .ok fields ∧ r.ReadFrom fields ∧
        p = .range r := by
  constructor
  · intro h
    unfold ofValue at h
    split at h
    · rename_i day
      exact .inl ⟨day, rfl, (Except.ok.inj h).symm⟩
    · split at h
      · rename_i r hr
        obtain ⟨fields, hfields, hr⟩ := bind_eq_ok.mp hr
        have hread := ActualRange.ofFields_eq_ok_iff.mp hr
        exact .inr ⟨fields, r, hfields, hread, (Except.ok.inj h).symm⟩
      · cases h
  · intro h
    rcases h with ⟨day, rfl, rfl⟩ | ⟨fields, r, hfields, hr, rfl⟩
    · rfl
    · have hread : (Fields.ofValue "ActualRange" v).bind ActualRange.ofFields = .ok r :=
        bind_eq_ok.mpr ⟨fields, hfields, ActualRange.ofFields_eq_ok_iff.mpr hr⟩
      cases v with
      | str s => cases hfields
      | _ => simp only [ofValue, hread]

structure TaskRecord.ReadFrom (fields : Fields) (t : TaskRecord) : Prop where
  fits : fields.Fits 5
  name : fields.given "name" 0 readText = .ok (some t.name)
  text : fields.optional "text" 1 readText = .ok t.text
  plan : fields.optional "plan" 2 PlanSpec.ofValue = .ok t.plan
  actual : fields.optional "actual" 3 ActualSpec.ofValue = .ok t.actual
  assignee : fields.optional "assignee" 4 readText = .ok t.assignee

theorem TaskRecord.ofValue_eq_ok_iff {t : TaskRecord} : ofValue v = .ok t ↔
    ∃ fields, Fields.ofValue "TaskRecord" v = .ok fields ∧ t.ReadFrom fields := by
  constructor
  · intro h
    obtain ⟨fields, hfields, h⟩ := bind_eq_ok.mp h
    obtain ⟨_, hcheck, h⟩ := bind_eq_ok.mp h
    obtain ⟨o, hname, h⟩ := bind_eq_ok.mp h
    obtain ⟨name, hrequired, h⟩ := bind_eq_ok.mp h
    obtain ⟨text, htext, h⟩ := bind_eq_ok.mp h
    obtain ⟨plan, hplan, h⟩ := bind_eq_ok.mp h
    obtain ⟨actual, hactual, h⟩ := bind_eq_ok.mp h
    obtain ⟨assignee, hassignee, h⟩ := bind_eq_ok.mp h
    cases h
    obtain rfl := required_eq_ok_iff.mp hrequired
    rw [check_eq_ok_iff (by simp [hname, htext, hplan, hactual, hassignee, fault?])] at hcheck
    exact ⟨fields, hfields, hcheck, hname, htext, hplan, hactual, hassignee⟩
  · intro h
    obtain ⟨fields, hfields, h⟩ := h
    simp only [ofValue, hfields, bind, Except.bind, h.name, h.text, h.plan, h.actual, h.assignee,
      fault?]
    rw [check_of_fits h.fits]
    · rfl
    · rfl
    · simp

structure MilestoneRecord.ReadFrom (fields : Fields) (m : MilestoneRecord) : Prop where
  fits : fields.Fits 4
  name : fields.given "name" 0 readText = .ok (some m.name)
  text : fields.optional "text" 1 readText = .ok m.text
  plan : fields.optional "plan" 2 PlanSpec.ofValue = .ok m.plan
  actual : fields.optional "actual" 3 ActualSpec.ofValue = .ok m.actual

theorem MilestoneRecord.ofValue_eq_ok_iff {m : MilestoneRecord} : ofValue v = .ok m ↔
    ∃ fields, Fields.ofValue "MilestoneRecord" v = .ok fields ∧ m.ReadFrom fields := by
  constructor
  · intro h
    obtain ⟨fields, hfields, h⟩ := bind_eq_ok.mp h
    obtain ⟨_, hcheck, h⟩ := bind_eq_ok.mp h
    obtain ⟨o, hname, h⟩ := bind_eq_ok.mp h
    obtain ⟨name, hrequired, h⟩ := bind_eq_ok.mp h
    obtain ⟨text, htext, h⟩ := bind_eq_ok.mp h
    obtain ⟨plan, hplan, h⟩ := bind_eq_ok.mp h
    obtain ⟨actual, hactual, h⟩ := bind_eq_ok.mp h
    cases h
    obtain rfl := required_eq_ok_iff.mp hrequired
    rw [check_eq_ok_iff (by simp [hname, htext, hplan, hactual, fault?])] at hcheck
    exact ⟨fields, hfields, hcheck, hname, htext, hplan, hactual⟩
  · intro h
    obtain ⟨fields, hfields, h⟩ := h
    simp only [ofValue, hfields, bind, Except.bind, h.name, h.text, h.plan, h.actual, fault?]
    rw [check_of_fits h.fits]
    · rfl
    · rfl
    · simp

structure GroupRecord.ReadFrom (fields : Fields) (g : GroupRecord) : Prop where
  fits : fields.Fits 2
  text : fields.given "text" 0 readText = .ok (some g.text)
  member : (fields.given "member" 1 (readList readText)).map (·.getD []) = .ok g.member

theorem GroupRecord.ofValue_eq_ok_iff {g : GroupRecord} : ofValue v = .ok g ↔
    ∃ fields, Fields.ofValue "GroupRecord" v = .ok fields ∧ g.ReadFrom fields := by
  constructor
  · intro h
    obtain ⟨fields, hfields, h⟩ := bind_eq_ok.mp h
    obtain ⟨_, hcheck, h⟩ := bind_eq_ok.mp h
    obtain ⟨o, htext, h⟩ := bind_eq_ok.mp h
    obtain ⟨text, hrequired, h⟩ := bind_eq_ok.mp h
    obtain ⟨member, hmember, h⟩ := bind_eq_ok.mp h
    cases h
    obtain rfl := required_eq_ok_iff.mp hrequired
    rw [check_eq_ok_iff (by simp [htext, hmember, fault?])] at hcheck
    exact ⟨fields, hfields, hcheck, htext, map_eq_ok.mpr ⟨member, hmember, rfl⟩⟩
  · intro h
    obtain ⟨fields, hfields, h⟩ := h
    obtain ⟨member, hmember, hget⟩ := map_eq_ok.mp h.member
    simp only [ofValue, hfields, bind, Except.bind, h.text, hmember, fault?]
    rw [check_of_fits h.fits]
    · exact congrArg (fun names => Except.ok (⟨g.text, names⟩ : GroupRecord)) hget
    · rfl
    · simp

structure ProjectSection.ReadFrom (fields : Fields) (p : ProjectSection) : Prop where
  fits : fields.Fits 5
  start : fields.optional "start" 0 readText = .ok p.start
  finish : fields.optional "end" 1 readText = .ok p.finish
  today : fields.optional "today" 2 readText = .ok p.today
  closed : (fields.given "closed" 3 (readList readText)).map (·.getD []) = .ok p.closed
  scale : fields.optional "scale" 4 Scale.ofValue = .ok p.scale

theorem ProjectSection.ofValue_eq_ok_iff {p : ProjectSection} : ofValue v = .ok p ↔
    ∃ fields, Fields.ofValue "ProjectSection" v = .ok fields ∧ p.ReadFrom fields := by
  constructor
  · intro h
    obtain ⟨fields, hfields, h⟩ := bind_eq_ok.mp h
    obtain ⟨_, hcheck, h⟩ := bind_eq_ok.mp h
    obtain ⟨start, hstart, h⟩ := bind_eq_ok.mp h
    obtain ⟨finish, hfinish, h⟩ := bind_eq_ok.mp h
    obtain ⟨today, htoday, h⟩ := bind_eq_ok.mp h
    obtain ⟨closed, hclosed, h⟩ := bind_eq_ok.mp h
    obtain ⟨scale, hscale, h⟩ := bind_eq_ok.mp h
    cases h
    rw [check_eq_ok_iff (by simp [hstart, hfinish, htoday, hclosed, hscale, fault?])] at hcheck
    exact ⟨fields, hfields, hcheck, hstart, hfinish, htoday,
      map_eq_ok.mpr ⟨closed, hclosed, rfl⟩, hscale⟩
  · intro h
    obtain ⟨fields, hfields, h⟩ := h
    obtain ⟨closed, hclosed, hget⟩ := map_eq_ok.mp h.closed
    simp only [ofValue, hfields, bind, Except.bind, h.start, h.finish, h.today, hclosed, h.scale,
      fault?]
    rw [check_of_fits h.fits]
    · exact congrArg (fun entries => Except.ok { p with closed := entries }) hget
    · rfl
    · simp

structure ColorStyle.ReadFrom (fields : Fields) (c : ColorStyle) : Prop where
  fits : fields.Fits 3
  task : fields.optional "task" 0 readText = .ok c.task
  milestone : fields.optional "milestone" 1 readText = .ok c.milestone
  path : fields.optional "path" 2 readText = .ok c.path

theorem ColorStyle.ofValue_eq_ok_iff {c : ColorStyle} : ofValue v = .ok c ↔
    ∃ fields, Fields.ofValue "ColorStyle" v = .ok fields ∧ c.ReadFrom fields := by
  constructor
  · intro h
    obtain ⟨fields, hfields, h⟩ := bind_eq_ok.mp h
    obtain ⟨_, hcheck, h⟩ := bind_eq_ok.mp h
    obtain ⟨task, htask, h⟩ := bind_eq_ok.mp h
    obtain ⟨milestone, hmilestone, h⟩ := bind_eq_ok.mp h
    obtain ⟨path, hpath, h⟩ := bind_eq_ok.mp h
    cases h
    rw [check_eq_ok_iff (by simp [htask, hmilestone, hpath, fault?])] at hcheck
    exact ⟨fields, hfields, hcheck, htask, hmilestone, hpath⟩
  · intro h
    obtain ⟨fields, hfields, h⟩ := h
    simp only [ofValue, hfields, bind, Except.bind, h.task, h.milestone, h.path, fault?]
    rw [check_of_fits h.fits]
    · rfl
    · rfl
    · simp

theorem ColorStyle.ofSection_eq_ok_iff {c : ColorStyle} : ofSection v = .ok c ↔
    ∃ fields, Fields.ofValue "StyleSection" v = .ok fields ∧ fields.Fits 1 ∧
      (fields.given "color" 0 ofValue).map (·.getD .empty) = .ok c := by
  constructor
  · intro h
    obtain ⟨fields, hfields, h⟩ := bind_eq_ok.mp h
    obtain ⟨_, hcheck, h⟩ := bind_eq_ok.mp h
    obtain ⟨color, hcolor, h⟩ := bind_eq_ok.mp h
    cases h
    rw [check_eq_ok_iff (by simp [hcolor, fault?])] at hcheck
    exact ⟨fields, hfields, hcheck, map_eq_ok.mpr ⟨color, hcolor, rfl⟩⟩
  · intro h
    obtain ⟨fields, hfields, hfits, hcolor⟩ := h
    obtain ⟨color, hcolor, hget⟩ := map_eq_ok.mp hcolor
    simp only [ofSection, hfields, bind, Except.bind, hcolor, fault?]
    rw [check_of_fits hfits]
    · exact congrArg Except.ok hget
    · rfl
    · simp

structure Document.ReadFrom (fields : Fields) (d : Document) : Prop where
  fits : fields.Fits 5
  project : (fields.given "project" 0 ProjectSection.ofValue).map (·.getD .empty) = .ok d.project
  colors : (fields.given "style" 1 ColorStyle.ofSection).map (·.getD .empty) = .ok d.colors
  tasks : (fields.given "task" 2 (readList TaskRecord.ofValue)).map (·.getD []) = .ok d.tasks
  milestones : (fields.given "milestone" 3 (readList MilestoneRecord.ofValue)).map (·.getD []) =
    .ok d.milestones
  groups : (fields.given "group" 4 (readList GroupRecord.ofValue)).map (·.getD []) = .ok d.groups

theorem Document.ofValue_eq_ok_iff {d : Document} : ofValue v = .ok d ↔
    ∃ fields, Fields.ofValue "Document" v = .ok fields ∧ d.ReadFrom fields := by
  constructor
  · intro h
    obtain ⟨fields, hfields, h⟩ := bind_eq_ok.mp h
    obtain ⟨_, hcheck, h⟩ := bind_eq_ok.mp h
    obtain ⟨project, hproject, h⟩ := bind_eq_ok.mp h
    obtain ⟨colors, hcolors, h⟩ := bind_eq_ok.mp h
    obtain ⟨tasks, htasks, h⟩ := bind_eq_ok.mp h
    obtain ⟨milestones, hmilestones, h⟩ := bind_eq_ok.mp h
    obtain ⟨groups, hgroups, h⟩ := bind_eq_ok.mp h
    cases h
    rw [check_eq_ok_iff (by simp [hproject, hcolors, htasks, hmilestones, hgroups, fault?])]
      at hcheck
    exact ⟨fields, hfields, hcheck, map_eq_ok.mpr ⟨project, hproject, rfl⟩,
      map_eq_ok.mpr ⟨colors, hcolors, rfl⟩, map_eq_ok.mpr ⟨tasks, htasks, rfl⟩,
      map_eq_ok.mpr ⟨milestones, hmilestones, rfl⟩, map_eq_ok.mpr ⟨groups, hgroups, rfl⟩⟩
  · intro h
    obtain ⟨fields, hfields, h⟩ := h
    obtain ⟨project, hproject, hp⟩ := map_eq_ok.mp h.project
    obtain ⟨colors, hcolors, hc⟩ := map_eq_ok.mp h.colors
    obtain ⟨tasks, htasks, ht⟩ := map_eq_ok.mp h.tasks
    obtain ⟨milestones, hmilestones, hm⟩ := map_eq_ok.mp h.milestones
    obtain ⟨groups, hgroups, hg⟩ := map_eq_ok.mp h.groups
    simp only [ofValue, hfields, bind, Except.bind, hproject, hcolors, htasks, hmilestones,
      hgroups, fault?]
    rw [check_of_fits h.fits]
    · simp only [hp, hc, ht, hm, hg]
      rfl
    · rfl
    · simp

end Records

end GanttChart
