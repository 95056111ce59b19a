import GanttChart.Proofs.Coercion.Paths
import GanttChart.Proofs.Document.Decoded
import GanttChart.Proofs.Notation.Reading
import GanttChart.Proofs.Notation.Resolving
import GanttChart.Proofs.Schedule.Scales

/-! # Scales in the notation

A scale may be asked for in the notation or besides it. In the notation it is written into the
document, coerced and read again before the calendar has it, and none of this makes a difference to
anything but the scale, faults included. -/

namespace GanttChart

open Coercion Outcome

/-! ## Coercing without a look at the scale -/

section Coerced

variable {config : ChartConfig}

namespace Document

/-- The fields of a document as they are written, in the order of their keys. -/
theorem toValue_eq_object (d : Document) : d.toValue = .object
    [("group", .list (d.groups.map GroupRecord.toValue)),
     ("milestone", .list (d.milestones.map MilestoneRecord.toValue)),
     ("project", d.project.toValue),
     ("style", .ofFields [("color", d.colors.toValue)]),
     ("task", .list (d.tasks.map TaskRecord.toValue))] := by cbv

/-- Coercing finds fault with milestones and tasks only. -/
theorem error?_coerce_toValue (d : Document) (config : ChartConfig) :
    error? (coerce config d.toValue) =
      (error? (coerceAt config.hoursPerDay (some "milestone")
        (.list (d.milestones.map MilestoneRecord.toValue)))).or
      (error? (coerceAt config.hoursPerDay (some "task")
        (.list (d.tasks.map TaskRecord.toValue)))) := by
  have hgroup : error? (coerceAt config.hoursPerDay (some "group")
      (.list (d.groups.map GroupRecord.toValue))) = none := by
    rw [coerceAt_of_rulesFrom rfl, error?_ok]
  have hstyle : error? (coerceAt config.hoursPerDay (some "style")
      (.ofFields [("color", d.colors.toValue)])) = none := by
    rw [coerceAt_of_rulesFrom rfl, error?_ok]
  have hproject : error? (coerceAt config.hoursPerDay (some "project") d.project.toValue) =
      none := by
    obtain ⟨w, hw, _⟩ : ∃ w, coerceAt config.hoursPerDay (some "project") d.project.toValue =
        .ok w ∧ _ := coerceAt_of_clear (by decide : Clear "project") _
    rw [hw, error?_ok]
  rw [toValue_eq_object, coerce, coerceAt, error?_map, error?_coerceFields]
  simp only [List.findSome?_cons, List.findSome?_nil, extend, hgroup, hstyle, hproject]
  cases error? (coerceAt config.hoursPerDay (some "milestone")
    (.list (d.milestones.map MilestoneRecord.toValue))) with
  | some e => rfl
  | none =>
    cases error? (coerceAt config.hoursPerDay (some "task")
      (.list (d.tasks.map TaskRecord.toValue))) <;> rfl

/-- What coercing makes of all fields but the project goes by these fields alone. -/
theorem eq_atScale_of_coerced {d d₁ d₂ : Document} {scale : Scale} {w w' : Value}
    (hw : coerce config d.toValue = .ok w) (hw' : coerce config (d.atScale scale).toValue = .ok w')
    (h : ofValue w = .ok d₁) (h' : ofValue w' = .ok d₂) (hrel : d.CoercedTo config d₁)
    (hrel' : (d.atScale scale).CoercedTo config d₂) : d₂ = d₁.atScale scale := by
  obtain ⟨gs, rfl, hg⟩ := coerceAt_ofFields hw
  obtain ⟨gs', rfl, hg'⟩ := coerceAt_ofFields hw'
  obtain ⟨_, hfields, hread⟩ := ofValue_eq_ok_iff.mp h
  obtain ⟨_, hfields', hread'⟩ := ofValue_eq_ok_iff.mp h'
  cases hfields
  cases hfields'
  have hsame {α : Type} {key : String} {place : Nat} {read : Value → Except ShapeError α}
      (hkey : d.toValue.field? key = (d.atScale scale).toValue.field? key) :
      (Fields.named gs).given key place read = (Fields.named gs').given key place read := by
    rw [Fields.given, Fields.given, Fields.value?_named, Fields.value?_named,
      hg.field?_congr hg' hkey]
  have htasks : d₂.tasks = d₁.tasks := by
    apply Except.ok.inj
    rw [← hread.tasks, ← hread'.tasks, hsame (by simp [toValue, atScale])]
  have hmilestones : d₂.milestones = d₁.milestones := by
    apply Except.ok.inj
    rw [← hread.milestones, ← hread'.milestones, hsame (by simp [toValue, atScale])]
  have hproject : d₂.project = d₁.project.atScale scale := by
    rw [hrel'.project, hrel.project]
    rfl
  have hcolors : d₂.colors = d₁.colors := hrel'.colors.trans hrel.colors.symm
  have hgroups : d₂.groups = d₁.groups := hrel'.groups.trans hrel.groups.symm
  obtain ⟨project, colors, tasks, milestones, groups⟩ := d₂
  simp only at htasks hmilestones hproject hcolors hgroups
  rw [htasks, hmilestones, hproject, hcolors, hgroups, atScale]

/-- A scale goes through coercing and reading as it is, and leaves the rest and all faults as they
are. -/
theorem coerced_atScale (d : Document) (config : ChartConfig) (scale : Scale) :
    (coerce config (d.atScale scale).toValue >>= Document.read) =
      (coerce config d.toValue >>= Document.read).map (·.atScale scale) := by
  have herror : error? (coerce config (d.atScale scale).toValue) =
      error? (coerce config d.toValue) := by
    rw [error?_coerce_toValue, error?_coerce_toValue]
    rfl
  cases hw : coerce config d.toValue with
  | error e =>
    rw [hw] at herror
    rw [error?_eq_some.mp herror]
    rfl
  | ok w =>
    rw [hw] at herror
    obtain ⟨w', hw'⟩ := error?_eq_none.mp herror
    obtain ⟨_, d₁, hread, hrel⟩ := Document.carried d w hw
    obtain ⟨_, d₂, hread', hrel'⟩ := Document.carried (d.atScale scale) w' hw'
    obtain rfl := eq_atScale_of_coerced hw hw' hread hread' hrel hrel'
    have hdocument : Document.read w = .ok d₁ := by rw [Document.read, hread]; rfl
    have hdocument' : Document.read w' = .ok (d₁.atScale scale) := by
      rw [Document.read, hread']
      rfl
    rw [hw']
    change Document.read w' = (Document.read w).map _
    rw [hdocument, hdocument']
    rfl

end Document

end Coerced

/-! ## Two ways to ask for a scale -/

namespace Schedule

/-- The schedule that lines of the notation describe. -/
def ofLines (lines : List String) (config : ChartConfig) (scale : Option Scale) :
    Except ScheduleError Schedule :=
  ofValue (Notation.Draft.empty.feedAll lines).document.toValue config scale

theorem ofValue_atScale (d : Document) (config : ChartConfig) (scale : Scale) :
    ofValue (d.atScale scale).toValue config none = ofValue d.toValue config (some scale) := by
  rw [ofValue_eq_map, ofValue_eq_map, Document.coerced_atScale]
  cases coerce config d.toValue >>= Document.read with
  | error e => rfl
  | ok d =>
    change Except.map _ ((d.atScale scale).resolve config) = Except.map _ (d.resolve config)
    rw [Document.resolve_atScale]
    cases d.resolve config <;> rfl

end Schedule

namespace Notation

theorem Line.read?_scale (scale : Scale) :
    Line.read? ("scale is " ++ scale.name) = some (.scale scale.name) := by
  cases scale <;> decide +kernel

theorem Draft.document_feedAll_scale (lines : List String) (scale : Scale) :
    (empty.feedAll (lines ++ ["scale is " ++ scale.name])).document =
      (empty.feedAll lines).document.atScale scale := by
  rw [feedAll, List.foldl_append, List.foldl_cons, List.foldl_nil, feed, Line.read?_scale]
  simp only [takeLine, setScale, Scale.ofText?_name]
  rfl

end Notation

/-- It is the same to ask for a scale in the last line as to ask for it besides the notation, and
either way the schedule is that of the other lines, or fails as they do, but for the scale. -/
theorem Schedule.ofLines_scale (lines : List String) (config : ChartConfig) (scale : Scale) :
    ofLines (lines ++ ["scale is " ++ scale.name]) config none = ofLines lines config (some scale) ∧
    (∀ o, ofLines lines config (some scale) = (ofLines lines config o).map fun s =>
      { s with calendar := { s.calendar with scale := scale } }) ∧
    ∀ text o, ofText .plain text config o = ofLines (Text.lines text) config o := by
  refine ⟨?_, fun o => ?_, fun _ _ => rfl⟩
  · rw [ofLines, Notation.Draft.document_feedAll_scale, ofValue_atScale]
    rfl
  · rw [ofLines, ofLines, ofValue_eq_map, ofValue_eq_map]
    cases (coerce config (Notation.Draft.empty.feedAll lines).document.toValue >>=
        Document.read) >>= fun d => d.resolve config with
    | error e => rfl
    | ok s => cases o <;> rfl

end GanttChart
