import GanttChart.Proofs.Document.Coerced
import GanttChart.Proofs.Schedule.Plannable
import GanttChart.Source

/-! # From the notation to the resolver

The document that a text in the notation describes is written as a structured value, coerced and
read back before it is resolved. The only faults on this way are those of coercing. -/

namespace GanttChart

open Coercion Outcome

/-- The faults of texts and values that stand for no document. -/
def ScheduleError.IsInvalidDocument : ScheduleError → Prop
  | invalidShape _ => True
  | malformedText => True
  | _ => False

namespace Coercion

variable {hours : Float} {path : Option String} {err : ScheduleError}

/-- Why a leaf cannot be coerced. -/
inductive Fault : ScheduleError → Prop
  | period (value : String) : Fault (.unsupportedPeriod value)
  | progress (value : String) : Fault (.unsupportedProgress value)

theorem fault_of_apply {rule : Rule} {v : Value} (h : rule.apply hours v = .error err) :
    Fault err := by
  cases rule with
  | closedDay => cases h
  | period =>
    simp only [Rule.apply] at h
    split at h
    · cases h
    · cases h; exact .period _
  | progress =>
    simp only [Rule.apply] at h
    split at h
    · cases h
    · cases h; exact .progress _

theorem fault_of_coerceLeaf {v : Value} (h : coerceLeaf hours path v = .error err) :
    Fault err := by
  unfold coerceLeaf at h
  split at h
  · exact fault_of_apply h
  · cases h

mutual

theorem fault_of_coerceAt {path : Option String} :
    ∀ {v : Value}, coerceAt hours path v = .error err → Fault err
  | .object fields, h => by
    rw [coerceAt] at h
    cases hf : coerceFields hours path fields with
    | error e =>
      rw [hf] at h
      cases h
      exact fault_of_coerceFields hf
    | ok gs => rw [hf] at h; cases h
  | .list items, h => by
    rw [coerceAt] at h
    cases hi : coerceItems hours (extend path itemKey) items with
    | error e =>
      rw [hi] at h
      cases h
      exact fault_of_coerceItems hi
    | ok ws => rw [hi] at h; cases h
  | .null, h => fault_of_coerceLeaf h
  | .bool _, h => fault_of_coerceLeaf h
  | .num _, h => fault_of_coerceLeaf h
  | .str _, h => fault_of_coerceLeaf h

theorem fault_of_coerceFields {path : Option String} :
    ∀ {fields : List (String × Value)}, coerceFields hours path fields = .error err → Fault err
  | (key, v) :: rest, h => by
    rw [coerceFields] at h
    rcases bind_eq_error.mp h with h | ⟨w, _, h⟩
    · exact fault_of_coerceAt h
    rcases bind_eq_error.mp h with h | ⟨ws, _, h⟩
    · exact fault_of_coerceFields h
    · cases h

theorem fault_of_coerceItems {path : Option String} :
    ∀ {items : List Value}, coerceItems hours path items = .error err → Fault err
  | v :: rest, h => by
    rw [coerceItems] at h
    rcases bind_eq_error.mp h with h | ⟨w, _, h⟩
    · exact fault_of_coerceAt h
    rcases bind_eq_error.mp h with h | ⟨ws, _, h⟩
    · exact fault_of_coerceItems h
    · cases h

end

theorem coerceAt_eq_error {v : Value} (h : coerceAt hours path v = .error err) :
    ¬ err.IsInvalidDocument := by
  cases fault_of_coerceAt h <;> exact not_false

end Coercion

namespace Document

variable {d : Document} {config : ChartConfig} {err : ScheduleError}

/-- Resolving finds fault with what a document says, never with its shape. -/
theorem not_isInvalidDocument_of_resolve (h : d.resolve config = .error err) :
    ¬ err.IsInvalidDocument := by
  cases fault_of_resolve h with
  | calendar hf => cases ProjectSection.calendar_eq_error hf <;> exact not_false
  | repeated _ => exact not_false
  | looped _ => exact not_false
  | unplanned _ _ => exact not_false
  | plan _ _ hf => cases hf <;> exact not_false
  | actual _ hf => cases hf <;> exact not_false

/-- A document that is written and coerced is read back, with finite numbers for its periods and
progresses. -/
theorem read_of_coerce {v : Value} (h : coerce config d.toValue = .ok v) :
    ∃ d', Document.read v = .ok d' ∧ d.CoercedTo config d' := by
  obtain ⟨_, d', hread, hrel⟩ := Document.carried d v h
  exact ⟨d', by rw [Document.read, hread]; rfl, hrel⟩

end Document

/-- A schedule is resolved from the document that coercing leaves, and drawn at another scale only
after that. -/
theorem Schedule.ofValue_eq_map (v : Value) (config : ChartConfig) (scale : Option Scale) :
    ofValue v config scale = ((coerce config v >>= Document.read) >>= fun d =>
      d.resolve config).map fun s => s.withScale scale := by
  rw [ofValue]
  cases coerce config v with
  | error e => rfl
  | ok w =>
    change (Document.read w >>= fun d => _) = Except.map _ (Document.read w >>= fun d => _)
    cases Document.read w with
    | error e => rfl
    | ok d =>
      change (d.resolve config >>= fun s => _) = Except.map _ (d.resolve config)
      cases d.resolve config <;> rfl

theorem Schedule.isOk_ofValue {v : Value} {d : Document} {config : ChartConfig}
    {scale : Option Scale} (hread : (coerce config v >>= Document.read) = .ok d)
    (h : (d.resolve config).isOk = true) : (ofValue v config scale).isOk = true := by
  obtain ⟨s, hs⟩ := exists_of_isOk h
  rw [ofValue_eq_map, hread]
  change ((d.resolve config).map _).isOk = true
  rw [hs]
  rfl

namespace Notation

variable {text : String} {config : ChartConfig} {scale : Option Scale}

theorem ofText_eq_ofValue (text : String) (config : ChartConfig) (scale : Option Scale) :
    Schedule.ofText .plain text config scale =
      Schedule.ofValue (document text).toValue config scale := rfl

/-- What becomes of a text in the notation: coercing fails, or its document is resolved as
coerced. -/
theorem ofText_plain (text : String) (config : ChartConfig) (scale : Option Scale) :
    (∃ err, coerce config (document text).toValue = .error err ∧
      Schedule.ofText .plain text config scale = .error err) ∨
    ∃ d, (document text).CoercedTo config d ∧
      Schedule.ofText .plain text config scale =
        (d.resolve config).map fun s => s.withScale scale := by
  rw [ofText_eq_ofValue, Schedule.ofValue_eq_map]
  cases hc : coerce config (document text).toValue with
  | error err => exact .inl ⟨err, rfl, rfl⟩
  | ok v =>
    obtain ⟨d, hread, hrel⟩ := Document.read_of_coerce hc
    refine .inr ⟨d, hrel, ?_⟩
    change (Document.read v >>= fun d => d.resolve config).map _ = _
    rw [hread]
    rfl

/-- A text in the notation fails where its document is coerced or where that is resolved. -/
theorem ofText_plain_eq_error {err : ScheduleError}
    (h : Schedule.ofText .plain text config scale = .error err) :
    Coercion.Fault err ∨ ∃ d, (document text).CoercedTo config d ∧ d.resolve config = .error err := by
  rcases ofText_plain text config scale with ⟨err', hc, hof⟩ | ⟨d, hrel, hof⟩
  · rw [hof] at h
    cases h
    exact .inl (fault_of_coerceAt hc)
  · right
    refine ⟨d, hrel, ?_⟩
    cases hr : d.resolve config with
    | error err' =>
      rw [hof, hr] at h
      exact h
    | ok s =>
      rw [hof, hr] at h
      cases h

end Notation

/-- A document that is written and coerced is read back as itself, but for full names of closed
weekdays and finite numbers as periods and progresses. So a text in the notation is never an invalid
document, and what is resolved has no period and no progress that is still a text. -/
theorem document_reads_back (config : ChartConfig) :
    (∀ (d : Document) v, coerce config d.toValue = .ok v →
      ∃ d', Document.read v = .ok d' ∧ d.CoercedTo config d' ∧
        ∀ s ∈ d'.scalars, s.IsFiniteNumber) ∧
    ∀ text scale,
      (∀ err, Schedule.ofText .plain text config scale = .error err → ¬ err.IsInvalidDocument) ∧
      ((∃ err, coerce config (Notation.document text).toValue = .error err ∧
        Schedule.ofText .plain text config scale = .error err) ∨
      ∃ d', (Notation.document text).CoercedTo config d' ∧
        (∀ s ∈ d'.scalars, s.IsFiniteNumber) ∧
        Schedule.ofText .plain text config scale =
          (d'.resolve config).map fun s => s.withScale scale) := by
  refine ⟨?_, ?_⟩
  · intro d v h
    obtain ⟨d', hread, hrel⟩ := Document.read_of_coerce h
    exact ⟨d', hread, hrel, hrel.isFiniteNumber⟩
  · intro text scale
    rcases Notation.ofText_plain text config scale with ⟨err, hc, hof⟩ | ⟨d', hrel, hof⟩
    · rw [hof]
      refine ⟨fun err h => ?_, .inl ⟨err, hc, rfl⟩⟩
      cases h
      exact coerceAt_eq_error hc
    · rw [hof]
      refine ⟨fun err h => ?_, .inr ⟨d', hrel, hrel.isFiniteNumber, rfl⟩⟩
      cases hr : d'.resolve config with
      | error e =>
        rw [hr] at h
        cases h
        exact Document.not_isInvalidDocument_of_resolve hr
      | ok s => rw [hr] at h; cases h

/-- A document whose only task has a period and a progress that are texts. -/
def Document.loose : Document :=
  .april
    [{ TaskRecord.named "paint" with
        plan := some (.range ⟨some "2020/4/2", none, some (.text "3 days")⟩)
        actual := some (.range { ActualRange.empty with progress := some (.text "20%") }) }]
    []

/-- A text with two items of one name. -/
def doubled : String :=
  "project lasts 2020/4/1 to 2020/4/30\ntoday is 2020/4/10\npaint\n  >2020/4/2\n  <2020/4/3\n" ++
    "paint\n  >2020/4/6\n  <2020/4/7\n"

theorem loose_reads_back :
    (∃ v d', coerce .standard Document.loose.toValue = .ok v ∧
      Document.read v = .ok d' ∧ Document.loose.CoercedTo .standard d' ∧
      ∀ s ∈ d'.scalars, s.IsFiniteNumber) ∧
    Schedule.ofText .plain doubled .standard none = .error (.duplicateName "paint") ∧
      ¬ (ScheduleError.duplicateName "paint").IsInvalidDocument := by
  obtain ⟨hdocument, htext⟩ := document_reads_back .standard
  have hok : (coerce .standard Document.loose.toValue).isOk = true := by decide +kernel
  obtain ⟨v, hv⟩ := exists_of_isOk hok
  obtain ⟨d', h⟩ := hdocument _ _ hv
  have hdoubled : Schedule.ofText .plain doubled .standard none =
      .error (.duplicateName "paint") := by cbv
  exact ⟨⟨v, d', hv, h⟩, hdoubled, (htext doubled none).1 _ hdoubled⟩

end GanttChart
