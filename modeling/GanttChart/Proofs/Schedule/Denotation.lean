import GanttChart.Proofs.Day.Weekday
import GanttChart.Proofs.Document.Settled
import GanttChart.Proofs.Schedule.Stages
import GanttChart.Source
import Mathlib

/-! # The document that a value denotes

What a value resolves to is what the document that it is read as settles and resolves to, so values
that are read as one document resolve alike. That needs values in which coercing, which goes by paths
and before anything is read, sees the scalars that reading sees. -/

namespace GanttChart

open Coercion Outcome Fields

/-! ## The project -/

section Project

variable {v : Value} {p : ProjectSection}

theorem ProjectSection.closeEntry_closedName (c : WorkCalendar) (entry : String) :
    closeEntry c (closedName entry) = closeEntry c entry := by
  unfold closedName
  cases hw : Weekday.ofText? entry with
  | none => rfl
  | some w =>
    have hdate : Day.read? entry = none := by
      rw [Option.eq_none_iff_forall_ne_some]
      intro d hd
      rw [Weekday.ofText?_eq_none_of_read? hd] at hw
      cases hw
    simp only [Option.map_some, Option.getD_some, closeEntry, w.read?_name, hdate,
      WorkCalendar.closeWeekday, Day.spanOn, w.ofText?_name, hw]

/-- Closed weekdays may be named in full. -/
theorem ProjectSection.calendar_closedNames (p : ProjectSection) :
    { p with closed := p.closed.map closedName }.calendar = p.calendar := by
  have hclosed (c : WorkCalendar) :
      (p.closed.map closedName).foldl closeEntry c = p.closed.foldl closeEntry c := by
    rw [List.foldl_map]
    simp only [closeEntry_closedName]
  simp only [calendar, hclosed]

theorem strings_of_readList {entries : List String} (h : readList readText v = .ok entries) :
    v = .strings entries := by
  obtain ⟨items, rfl, hitems⟩ := readList_eq_ok h
  have hall : List.Forall₂ (fun w entry => w = Value.str entry) items entries := by
    refine hitems.imp fun w entry hw => ?_
    cases w with
    | str s =>
      cases hw
      rfl
    | _ => cases hw
  rw [← List.forall₂_map_right_iff, List.forall₂_eq_eq_eq] at hall
  rw [hall, Value.strings]

/-- The closed days of an object are read by their full names. -/
theorem closed_coerced {hours : Float} {fs gs : List (String × Value)} {place : Nat}
    {entries : List String}
    (hg : FieldsCoerced hours (some "project") (.object fs) gs)
    (h : ((named fs).given "closed" place (readList readText)).map (·.getD []) = .ok entries) :
    ((named gs).given "closed" place (readList readText)).map (·.getD []) =
      .ok (entries.map closedName) := by
  obtain ⟨o, ho, rfl⟩ := map_eq_ok.mp h
  rcases given_eq_ok_iff.mp ho with ⟨hv, rfl⟩ | ⟨v, entries, hv, hread, rfl⟩
  · rcases field?_coerced hg rfl with ⟨hnone, _⟩ | ⟨_, _, _, hsome, _⟩
    · exact map_eq_ok.mpr ⟨none, given_eq_ok_iff.mpr (.inl ⟨hnone, rfl⟩), rfl⟩
    · cases hv.symm.trans hsome
  · have hv : (Value.object fs).field? "closed" = some (.strings entries) :=
      hv.trans (congrArg some (strings_of_readList hread))
    obtain ⟨_, hgiven, rfl⟩ := given_of_carried "closed" (carried_closed rfl) hg hv place
    exact map_eq_ok.mpr ⟨_, hgiven, rfl⟩

theorem ProjectSection.exists_coerced (hours : Float) (hread : ofValue v = .ok p) :
    ∃ w p', coerceAt hours (some "project") v = .ok w ∧ ofValue w = .ok p' ∧
      p'.calendar = p.calendar := by
  obtain ⟨fields, hfields, hp⟩ := ofValue_eq_ok_iff.mp hread
  rcases Fields.ofValue_eq_ok hfields with ⟨fs, rfl, rfl⟩ | ⟨items, rfl, rfl⟩
  · have hclear : Clear "project" := by decide
    obtain ⟨w, hw, _⟩ : ∃ w, coerceAt hours (some "project") (.object fs) = .ok w ∧ _ :=
      coerceAt_of_clear hclear (.object fs)
    obtain ⟨gs, rfl, hgs⟩ := coerceAt_object hw
    have hg := fieldsCoerced_of_coerceFields hgs
    refine ⟨.object gs, { p with closed := p.closed.map closedName }, hw,
      ofValue_eq_ok_iff.mpr ⟨named gs, rfl, trivial, ?_, ?_, ?_, ?_, ?_⟩, p.calendar_closedNames⟩
    · exact optional_of_rulesFrom (p := "project.start") hg rfl rfl hp.start
    · exact optional_of_rulesFrom (p := "project.end") hg rfl rfl hp.finish
    · exact optional_of_rulesFrom (p := "project.today") hg rfl rfl hp.today
    · exact closed_coerced hg hp.closed
    · exact optional_of_rulesFrom (p := "project.scale") hg rfl rfl hp.scale
  · exact ⟨.list items, p, coerceAt_list_of_rulesFrom rfl items, hread, rfl⟩

end Project

/-! ## The document -/

/-- A value in which coercing sees the scalars of the document that it is read as: no other key of an
object goes on to the path of a scalar, none of the scalars is null, and a list holds none that is a
text, since nothing in a list that stands for a record is at the path of a scalar. -/
structure Document.Regular (d : Document) (v : Value) : Prop where
  clear : ∀ fs, v = .object fs → ∀ f ∈ fs, f.1 ∉ ["milestone", "task"] → Clear f.1
  unlisted : ∀ items, v = .list items → ∀ s ∈ d.scalars, s.IsNumber
  tasks : ∀ items, v.field? "task" = some (.list items) →
    List.Forall₂ (fun w t => RegularItem "task.elem" t.plan t.actual w) items d.tasks
  milestones : ∀ items, v.field? "milestone" = some (.list items) →
    List.Forall₂ (fun w m => RegularItem "milestone.elem" m.plan m.actual w) items d.milestones

/-- A key without a point leads to no scalar unless it is that of the tasks or the milestones. -/
theorem clear_of_undotted {key : String} (hdot : '.' ∉ key.toList)
    (hkey : key ∉ ["milestone", "task"]) : Clear key := by
  by_cases hproject : key = "project"
  · rw [hproject]
    decide
  · have hkeys : (tails "").map (List.takeWhile (· ≠ '.')) =
        ["project", "task", "task", "task", "milestone", "milestone", "milestone"].map
          String.toList := rfl
    have hnone : rulesFrom ("" ++ key) = [] := by
      refine rulesFrom_of_undotted hkeys hdot fun hmem => ?_
      simp only [List.mem_cons, List.not_mem_nil, or_false] at hmem hkey
      tauto
    rw [String.empty_append] at hnone
    exact clear_of_rulesFrom hnone

section Document

variable {hours : Float} {v : Value} {fs gs : List (String × Value)} {d : Document}

/-- A list of records settles at its field, whether it is there or not. -/
theorem list_settles {α : Type} {read : Value → Except ShapeError α}
    {settle : α → Except ScheduleError α} (hours : Float) (path : Option String) {key : String}
    {place : Nat} {as : List α}
    (ho : ((named fs).given key place (readList read)).map (·.getD []) = .ok as)
    (h : ∀ items, (Value.object fs).field? key = some (.list items) →
      List.Forall₂ (fun v a => read v = .ok a) items as →
      List.Forall₂ (fun v a => Settles hours (extend (extend path key) itemKey) v read (settle a))
        items as) :
    fieldError? hours path (.object fs) key = error? (as.mapM settle) ∧
      ∀ gs bs, FieldsCoerced hours path (.object fs) gs → as.mapM settle = .ok bs →
        ((named gs).given key place (readList read)).map (·.getD []) = .ok bs := by
  obtain ⟨o, hgiven, rfl⟩ := map_eq_ok.mp ho
  rcases given_eq_ok_iff.mp hgiven with ⟨hv, rfl⟩ | ⟨v, as, hv, hread, rfl⟩
  · rw [value?_named] at hv
    refine ⟨by rw [fieldError?, hv]; rfl, fun gs bs hg hbs => ?_⟩
    cases hbs
    rcases field?_coerced hg rfl with ⟨hnone, _⟩ | ⟨_, _, _, hsome, _⟩
    · exact map_eq_ok.mpr ⟨none, given_eq_ok_iff.mpr (.inl ⟨hnone, rfl⟩), rfl⟩
    · cases hv.symm.trans hsome
  · rw [value?_named] at hv
    obtain ⟨items, rfl, hitems⟩ := readList_eq_ok hread
    have hlist := Settles.list (h items hv hitems)
    refine ⟨by rw [fieldError?, hv, Option.bind_some, hlist.error], fun gs bs hg hbs => ?_⟩
    rcases field?_coerced hg rfl with ⟨_, hnone⟩ | ⟨_, w, hgs, hsome, hw⟩
    · cases hv.symm.trans hnone
    · cases hv.symm.trans hsome
      have hread := hlist.read_eq w bs hw hbs
      exact map_eq_ok.mpr ⟨some bs, given_eq_ok_iff.mpr (.inr ⟨w, bs, hgs, hread, rfl⟩), rfl⟩

/-- Records of a list settle when each of them does that is well formed and regular. -/
theorem settles_records {α : Type} {read : Value → Except ShapeError α}
    {settle : α → Except ScheduleError α} {path : Option String} {Regular : Value → α → Prop}
    {items : List Value} {as : List α} (hitems : ∀ w ∈ items, w.isWellFormed = true)
    (hread : List.Forall₂ (fun v a => read v = .ok a) items as)
    (hregular : List.Forall₂ Regular items as)
    (h : ∀ w a, w.isWellFormed = true → read w = .ok a → Regular w a →
      Settles hours path w read (settle a)) :
    List.Forall₂ (fun w a => Settles hours path w read (settle a)) items as := by
  induction hread with
  | nil => exact .nil
  | cons hw _ ih =>
    cases hregular with
    | cons hr hregular =>
      refine .cons (h _ _ (hitems _ List.mem_cons_self) hw hr) (ih ?_ hregular)
      exact fun w hw => hitems w (List.mem_cons_of_mem _ hw)

theorem wellFormed_items {key : String} {items : List Value}
    (hv : (Value.object fs).isWellFormed = true)
    (h : (Value.object fs).field? key = some (.list items)) :
    ∀ w ∈ items, w.isWellFormed = true :=
  Value.areWellFormed_iff.mp (wellFormed_of_field? hv h)

theorem project_coerced {place : Nat} {p : ProjectSection}
    (hg : FieldsCoerced hours none (.object fs) gs)
    (h : ((named fs).given "project" place ProjectSection.ofValue).map (·.getD .empty) = .ok p) :
    ∃ p', ((named gs).given "project" place ProjectSection.ofValue).map (·.getD .empty) = .ok p' ∧
      p'.calendar = p.calendar := by
  obtain ⟨o, hgiven, rfl⟩ := map_eq_ok.mp h
  rcases given_eq_ok_iff.mp hgiven with ⟨hv, rfl⟩ | ⟨v, p, hv, hread, rfl⟩
  · rcases field?_coerced hg rfl with ⟨hnone, _⟩ | ⟨_, _, _, hsome, _⟩
    · exact ⟨_, map_eq_ok.mpr ⟨none, given_eq_ok_iff.mpr (.inl ⟨hnone, rfl⟩), rfl⟩, rfl⟩
    · cases hv.symm.trans hsome
  · rcases field?_coerced hg rfl with ⟨_, hnone⟩ | ⟨_, w, hgs, hsome, hw⟩
    · cases hv.symm.trans hnone
    · cases hv.symm.trans hsome
      obtain ⟨w', p', hw', hread', hcalendar⟩ := ProjectSection.exists_coerced hours hread
      cases hw.symm.trans hw'
      exact ⟨p', map_eq_ok.mpr ⟨some p', given_eq_ok_iff.mpr (.inr ⟨w, p', hgs, hread', rfl⟩), rfl⟩,
        hcalendar⟩

/-- What is read after coercing is the settled document, but for the names of closed weekdays. -/
theorem Document.settles (hours : Float) (hv : v.isWellFormed = true) (hread : ofValue v = .ok d)
    (hregular : d.Regular v) :
    error? (coerceAt hours none v) = error? (d.settle hours) ∧
      ∀ w d', coerceAt hours none v = .ok w → d.settle hours = .ok d' →
        ∃ p, p.calendar = d'.project.calendar ∧ ofValue w = .ok { d' with project := p } := by
  obtain ⟨fields, hfields, hd⟩ := ofValue_eq_ok_iff.mp hread
  rcases Fields.ofValue_eq_ok hfields with ⟨fs, rfl, rfl⟩ | ⟨items, rfl, rfl⟩
  · obtain ⟨htaskError, htasks⟩ := list_settles hours none hd.tasks fun items hfield hitems =>
      settles_records (wellFormed_items hv hfield) hitems (hregular.tasks items hfield)
        fun w t => TaskRecord.settles
    obtain ⟨hmilestoneError, hmilestones⟩ := list_settles hours none hd.milestones
      fun items hfield hitems =>
        settles_records (wellFormed_items hv hfield) hitems (hregular.milestones items hfield)
          fun w m => MilestoneRecord.settles
    constructor
    · rw [coerceAt, error?_map, error?_coerceFields_of_pair "milestone" "task" (by decide)
        (Value.haveWellFormed_iff.mp hv).1, hmilestoneError, htaskError, settle, error?_bind_bind]
      intro f hf hnot
      obtain ⟨w, hw, _⟩ := coerceAt_of_clear (hregular.clear fs rfl f hf hnot) f.2
      exact ⟨w, hw⟩
    · intro w d' hw hd'
      obtain ⟨milestones, hmilestones', hd'⟩ := bind_eq_ok.mp hd'
      obtain ⟨tasks, htasks', hd'⟩ := bind_eq_ok.mp hd'
      cases hd'
      obtain ⟨gs, rfl, hgs⟩ := coerceAt_object hw
      have hg := fieldsCoerced_of_coerceFields hgs
      obtain ⟨p, hproject, hcalendar⟩ := project_coerced hg hd.project
      refine ⟨p, hcalendar, ofValue_eq_ok_iff.mpr ?_⟩
      refine ⟨named gs, rfl, trivial, hproject, ?_, ?_, ?_, ?_⟩
      · rw [given_of_rulesFrom (p := "style") hg rfl rfl]
        exact hd.colors
      · exact htasks gs tasks hg htasks'
      · exact hmilestones gs milestones hg hmilestones'
      · rw [given_of_rulesFrom (p := "group") hg rfl rfl]
        exact hd.groups
  · have hunchanged : coerceAt hours none (.list items) = .ok (.list items) := by
      have hclear : Clear itemKey := by decide
      obtain ⟨ws, hws, hkept⟩ := coerceItems_of_clear hclear items
      rw [hkept rfl] at hws
      exact map_eq_ok.mpr ⟨items, hws, rfl⟩
    rw [hunchanged, settle_of_isNumber hours (hregular.unlisted items rfl)]
    refine ⟨rfl, fun w d' hw hd' => ?_⟩
    cases hw
    cases hd'
    exact ⟨d.project, rfl, hread⟩

end Document

/-! ## Schedules -/

/-- Resolving asks nothing of the project but its calendar. -/
theorem Document.resolve_withProject {d : Document} {p : ProjectSection}
    (h : p.calendar = d.project.calendar) (config : ChartConfig) :
    { d with project := p }.resolve config = d.resolve config := by
  simp only [resolve, h]
  rfl

/-- A regular value resolves as the document does that it is read as, once that has settled. -/
theorem Schedule.ofValue_eq_settled {v : Value} {d : Document} (config : ChartConfig)
    (scale : Option Scale) (hv : v.isWellFormed = true) (hread : Document.ofValue v = .ok d)
    (hregular : d.Regular v) :
    ofValue v config scale = do
      let d ← d.settle config.hoursPerDay
      let s ← d.resolve config
      return s.withScale scale := by
  obtain ⟨herror, hsettled⟩ := Document.settles config.hoursPerDay hv hread hregular
  rw [ofValue, coerce]
  cases hw : coerceAt config.hoursPerDay none v with
  | error e =>
    rw [hw] at herror
    rw [error?_eq_some.mp herror.symm]
    rfl
  | ok w =>
    rw [hw] at herror
    obtain ⟨d', hd'⟩ := error?_eq_none.mp herror.symm
    obtain ⟨p, hcalendar, hread'⟩ := hsettled w d' hw hd'
    have hdocument : Document.read w = .ok { d' with project := p } := by
      rw [Document.read, hread']
      rfl
    simp only [hd', bind, Except.bind, hdocument, Document.resolve_withProject hcalendar]

/-- Regular values that are read as one document resolve to one schedule, or fail alike. -/
theorem Schedule.ofValue_eq_of_document {v v' : Value} {d : Document} (config : ChartConfig)
    (scale : Option Scale) (hv : v.isWellFormed = true) (hv' : v'.isWellFormed = true)
    (hread : Document.ofValue v = .ok d) (hread' : Document.ofValue v' = .ok d)
    (hregular : d.Regular v) (hregular' : d.Regular v') :
    ofValue v config scale = ofValue v' config scale := by
  rw [ofValue_eq_settled config scale hv hread hregular,
    ofValue_eq_settled config scale hv' hread' hregular']

/-! ## One document, several values -/

/-- The days of a project, in an object. -/
def Value.aprilObject : Value :=
  .object [("end", .str "2020/4/30"), ("start", .str "2020/4/1"), ("today", .str "2020/4/10")]

/-- The same days, in a list. -/
def Value.aprilList : Value := .list [.str "2020/4/1", .str "2020/4/30", .str "2020/4/10"]

/-- A task that is partly done, perhaps with a note, which no record has. -/
def Value.paint (note : Option Value) : Value :=
  .object ([("actual", .object [("progress", .str "20%")]), ("name", .str "paint")] ++
    optionalField "note" note ++ [("plan", .list [.str "2020/4/2", .str "2020/4/6"])])

def Value.painting (note : Option Value) (project : Value) : Value :=
  .object (optionalField "note" note ++ [("project", project), ("task", .list [.paint note])])

def Document.partlyDone : Document :=
  { Document.empty with
    project := ⟨some "2020/4/1", some "2020/4/30", some "2020/4/10", [], none⟩
    tasks :=
      [{ TaskRecord.spanning "paint" "2020/4/2" "2020/4/6" with
          actual := some (.range { ActualRange.empty with progress := some (.text "20%") }) }] }

theorem Document.regularItem_paint (note : Option Value) :
    ∀ t ∈ partlyDone.tasks, RegularItem "task.elem" t.plan t.actual (.paint note) := by
  intro t ht
  obtain rfl := List.mem_singleton.mp ht
  constructor
  case clear =>
    intro fs hfs f hf
    cases hfs
    refine itemPath_task.clear_of_undotted ?_
    revert f
    cases note <;> simp [optionalField]
  case unlisted =>
    intro items hitems
    cases hitems
  case plan =>
    intro w a hw ha
    cases ha
    have hw : w = .list [.str "2020/4/2", .str "2020/4/6"] := by
      simpa [Value.paint, eq_comm] using hw
    subst hw
    refine ⟨by simp [Value.field?], fun items _ s hs => ?_⟩
    cases hs
  case actual =>
    intro w a hw ha
    cases ha
    have hw : w = .object [("progress", .str "20%")] := by
      simpa [Value.paint, eq_comm] using hw
    subst hw
    refine ⟨by simp, fun items hitems => ?_⟩
    cases hitems

theorem Document.regular_painting (note : Option Value) (project : Value) :
    partlyDone.Regular (.painting note project) := by
  constructor
  case clear =>
    intro fs hfs f hf
    cases hfs
    refine clear_of_undotted ?_
    revert f
    cases note <;> simp [optionalField]
  case unlisted =>
    intro items hitems
    cases hitems
  case tasks =>
    intro items hitems
    have hitems : items = [.paint note] := by simpa [Value.painting, eq_comm] using hitems
    rw [hitems]
    exact .cons (regularItem_paint note _ List.mem_cons_self) .nil
  case milestones =>
    intro items hitems
    simp [Value.painting] at hitems

/-- Notes and a list for the project change nothing. -/
theorem painting_noted :
    Document.ofValue (.painting none .aprilObject) = .ok .partlyDone ∧
      Document.ofValue (.painting (some .null) .aprilList) = .ok .partlyDone ∧
      Schedule.ofValue (.painting none .aprilObject) .standard none =
        Schedule.ofValue (.painting (some .null) .aprilList) .standard none := by
  have hread : Document.ofValue (.painting none .aprilObject) = .ok .partlyDone := by rfl
  have hread' : Document.ofValue (.painting (some .null) .aprilList) = .ok .partlyDone := by rfl
  refine ⟨hread, hread', ?_⟩
  exact Schedule.ofValue_eq_of_document .standard none (by decide +kernel) (by decide +kernel) hread
    hread' (Document.regular_painting none _) (Document.regular_painting (some .null) _)

/-- Values that are read as one document, of which one is refused and the other one resolved. -/
structure Apart (v v' : Value) : Prop where
  wellFormed : v.isWellFormed = true
  wellFormed' : v'.isWellFormed = true
  exists_document : ∃ d, Document.ofValue v = .ok d ∧ Document.ofValue v' = .ok d
  refused : (Schedule.ofValue v .standard none).isOk = false
  resolved : (Schedule.ofValue v' .standard none).isOk = true

/-- A document with one milestone. -/
def Value.withMilestone (m : Value) : Value :=
  .object [("milestone", .list [m]), ("project", aprilList)]

/-- A milestone with an actual block, and with other fields behind that. -/
def Value.fair (actual : Value) (others : List (String × Value)) : Value :=
  .withMilestone (.object
    (("actual", actual) :: others ++ [("name", .str "fair"), ("plan", .str "2020/4/9")]))

/-- Coercing does not find a progress in a list, and refuses one that is no number elsewhere. -/
theorem apart_of_list : Apart (.fair (.object [("progress", .str "half")]) [])
    (.withMilestone
      (.list [.str "fair", .null, .str "2020/4/9", .object [("progress", .str "half")]])) where
  wellFormed := by decide +kernel
  wellFormed' := by decide +kernel
  exists_document := ⟨_, by rfl, by rfl⟩
  refused := by cbv
  resolved := by cbv

/-- Coercing refuses a progress that is null, which reading takes for one that is left out. -/
theorem apart_of_null :
    Apart (.fair (.object [("progress", .null)]) []) (.fair (.object []) []) where
  wellFormed := by decide +kernel
  wellFormed' := by decide +kernel
  exists_document := ⟨_, by rfl, by rfl⟩
  refused := by cbv
  resolved := by cbv

/-- Coercing takes a key with a point for two keys, where reading passes it over. -/
theorem apart_of_point :
    Apart (.fair (.object []) [("actual.progress", .str "half")]) (.fair (.object []) []) where
  wellFormed := by decide +kernel
  wellFormed' := by decide +kernel
  exists_document := ⟨_, by rfl, by rfl⟩
  refused := by cbv
  resolved := by cbv

/-- Not all values that are read as one document resolve alike. -/
theorem exists_alike_resolved_apart : ¬ ∀ (v v' : Value) (d : Document) (config : ChartConfig)
    (scale : Option Scale), v.isWellFormed = true → v'.isWellFormed = true →
    Document.ofValue v = .ok d → Document.ofValue v' = .ok d →
    Schedule.ofValue v config scale = Schedule.ofValue v' config scale := by
  intro h
  obtain ⟨hv, hv', ⟨d, hread, hread'⟩, hrefused, hresolved⟩ := apart_of_list
  rw [h _ _ d .standard none hv hv' hread hread', hresolved] at hrefused
  cases hrefused

end GanttChart
