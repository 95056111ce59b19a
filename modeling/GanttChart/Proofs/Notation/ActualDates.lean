import GanttChart.Proofs.DateExpr
import GanttChart.Proofs.Notation.Partition
import GanttChart.Proofs.Notation.PlanTexts
import GanttChart.Proofs.Schedule.ActualDates

/-! # The dates of actual blocks in the notation

An attribute line takes any date expression for a date of the actual block, as it does for a plan,
while resolving takes none but literal dates there. So what goes wrong with actual dates are the
references among them: each of them keeps its text from resolving, and nothing else is reported. -/

namespace GanttChart

open Notation (Attribute Marker)

/-- The dates that a block is written with. -/
def ActualRange.texts (r : ActualRange) : List String :=
  r.start.toList ++ r.finish.toList ++ r.completed.toList

namespace Entry

def actual? : Entry → Option ActualSpec
  | task t => t.actual
  | milestone m => m.actual

def actualTexts (e : Entry) : List String := e.actual?.toList.flatMap fun a => a.toRange.texts

end Entry

section Texts

variable {block : Option ActualSpec} {marker : Marker} {raw value item field : String}
  {e : Entry} {a : Attribute}

theorem ActualRange.mem_texts {r : ActualRange} :
    value ∈ r.texts ↔ r.start = some value ∨ r.finish = some value ∨ r.completed = some value := by
  simp [texts]

/-- Going on with a block adds no dates to it. -/
theorem ActualSpec.mem_texts_openRange (h : value ∈ (openRange block).texts) :
    ∃ a, block = some a ∧ value ∈ a.toRange.texts := by
  rcases block with _ | ⟨day⟩ | ⟨r⟩
  · cases h
  · cases h
  · exact ⟨.range r, rfl, h⟩

theorem Notation.Attribute.mem_texts_onActual
    (h : value ∈ (onActual marker raw block).toRange.texts) :
    (marker ≠ .period ∧ raw = value) ∨ value ∈ (ActualSpec.openRange block).texts := by
  rw [ActualRange.mem_texts] at h ⊢
  cases marker with
  | point =>
    -- a point is given up for nothing else
    rcases h with h | h | h
    · exact .inl ⟨by decide, Option.some.inj h⟩
    · cases h
    · cases h
  | start =>
    rcases h with h | h
    · exact .inl ⟨by decide, Option.some.inj h⟩
    · exact .inr (.inr h)
  | finish =>
    rcases h with h | h | h
    · exact .inr (.inl h)
    · exact .inl ⟨by decide, Option.some.inj h⟩
    · exact .inr (.inr (.inr h))
  | period => exact .inr h

theorem Entry.mem_actualTexts :
    value ∈ e.actualTexts ↔ ∃ a, e.actual? = some a ∧ value ∈ a.toRange.texts := by
  simp [actualTexts]

theorem Entry.actual?_apply (e : Entry) (a : Attribute) :
    (e.apply a).actual? = match a with
      | .actual marker raw => some (Attribute.onActual marker raw e.actual?)
      | .progress raw => some (Attribute.onProgress raw e.actual?)
      | _ => e.actual? := by
  cases e <;> cases a <;> rfl

/-- A date of an actual block was there before, or the attribute sets it. -/
theorem Entry.mem_actualTexts_apply (h : value ∈ (e.apply a).actualTexts) :
    value ∈ e.actualTexts ∨ ∃ marker, marker ≠ .period ∧ a = .actual marker value := by
  rw [mem_actualTexts, actual?_apply] at h
  obtain ⟨block, hblock, hvalue⟩ := h
  cases a with
  | plan _ _ => exact .inl (mem_actualTexts.mpr ⟨block, hblock, hvalue⟩)
  | assignee _ => exact .inl (mem_actualTexts.mpr ⟨block, hblock, hvalue⟩)
  | progress _ =>
    cases hblock
    exact .inl (mem_actualTexts.mpr (ActualSpec.mem_texts_openRange hvalue))
  | actual marker raw =>
    cases hblock
    rcases Attribute.mem_texts_onActual hvalue with ⟨hmarker, rfl⟩ | hvalue
    · exact .inr ⟨marker, hmarker, rfl⟩
    · exact .inl (mem_actualTexts.mpr (ActualSpec.mem_texts_openRange hvalue))

theorem Entry.mem_actualTexts_foldl {as : List Attribute}
    (h : value ∈ (as.foldl Entry.apply e).actualTexts) :
    value ∈ e.actualTexts ∨ ∃ marker, marker ≠ .period ∧ .actual marker value ∈ as := by
  induction as generalizing e with
  | nil => exact .inl h
  | cons a rest ih =>
    rcases ih h with h | ⟨marker, hmarker, hmem⟩
    · rcases mem_actualTexts_apply h with h | ⟨marker, hmarker, rfl⟩
      · exact .inl h
      · exact .inr ⟨marker, hmarker, .head _⟩
    · exact .inr ⟨marker, hmarker, .tail _ hmem⟩

/-- What is read as a date is one of the dates that the block is written with. -/
theorem Entry.mem_actualTexts_of_actualDates (h : (field, value) ∈ e.actualDates) :
    value ∈ e.actualTexts := by
  rw [mem_actualTexts]
  cases e with
  | task t =>
    obtain ⟨a, ha, hdate⟩ := mem_actualDates_task.mp h
    refine ⟨a, ha, ActualRange.mem_texts.mpr ?_⟩
    exact (ActualRange.mem_dates.mp hdate).imp And.left (Or.imp And.left And.left)
  | milestone m =>
    obtain ⟨a, ha, hday, _⟩ := mem_actualDates_milestone.mp h
    exact ⟨a, ha, ActualRange.mem_texts.mpr (.inl hday)⟩

end Texts

/-! ## Coercing keeps the dates -/

section Coerced

variable {hours : Float} {config : ChartConfig} {d d' : Document} {e e' : Entry}

theorem ActualSpec.CoercedTo.toRange {a a' : ActualSpec} (h : a.CoercedTo hours a') :
    a.toRange.CoercedTo hours a'.toRange := by
  cases h with
  | point day => exact ⟨rfl, rfl, rfl, .none, .none⟩
  | range h => exact h

theorem TaskRecord.CoercedTo.actualDates {t t' : TaskRecord} (h : t.CoercedTo hours t') :
    (Entry.task t').actualDates = (Entry.task t).actualDates := by
  have hactual := h.actual
  simp only [Entry.actualDates, h.name]
  generalize t.actual = actual, t'.actual = actual' at hactual
  cases hactual with
  | none => rfl
  | some hactual =>
    have hrange := hactual.toRange
    simp only [ActualRange.dates, Option.toList_some, List.flatMap_singleton, hrange.start,
      hrange.finish, hrange.completed]

theorem MilestoneRecord.CoercedTo.actualDates {m m' : MilestoneRecord}
    (h : m.CoercedTo hours m') :
    (Entry.milestone m').actualDates = (Entry.milestone m).actualDates := by
  have hactual := h.actual
  simp only [Entry.actualDates, h.name]
  generalize m.actual = actual, m'.actual = actual' at hactual
  cases hactual with
  | none => rfl
  | some hactual =>
    simp only [ActualSpec.day?, Option.toList_some, List.flatMap_singleton, hactual.toRange.start]

theorem Document.CoercedTo.actualDates (h : d.CoercedTo config d') :
    List.Forall₂ (fun e e' => e'.actualDates = e.actualDates) d.entries d'.entries := by
  refine List.rel_append ?_ ?_
  · rw [List.forall₂_map_left_iff, List.forall₂_map_right_iff]
    exact h.tasks.imp fun _ _ ht => ht.actualDates
  · rw [List.forall₂_map_left_iff, List.forall₂_map_right_iff]
    exact h.milestones.imp fun _ _ hm => hm.actualDates

end Coerced

namespace Notation

variable {text : String} {config : ChartConfig} {scale : Option Scale} {ls : List Line}
  {b : Block} {body : List Char} {marker : Marker} {field value : String} {d : Document}

theorem Attribute.accepts_of_read?_actual (h : read? body = some (.actual marker value)) :
    marker.accepts value = true := by
  unfold read? at h
  split at h
  · cases h
  · simp only at h
    split at h <;> cases h
  · obtain ⟨⟨m, v⟩, hmarked, heq⟩ := Option.map_eq_some_iff.mp h
    cases heq
    exact accepts_of_marked? hmarked
  · -- what is left are attributes of the plan
    simp at h
  · simp at h

theorem Line.actualTexts_of_opened? {l : Line} {e : Entry} (h : l.opened? = some e) :
    e.actualTexts = [] := by
  cases l <;> cases h <;> rfl

/-- The dates of the actual blocks that the notation describes are date expressions. -/
theorem exists_expr_of_mem_actualTexts (hb : b ∈ blocks ls) (h : value ∈ b.finished.actualTexts) :
    ∃ expr, DateExpr.read? value = some expr := by
  obtain ⟨_, _, _, hopened, _⟩ := exists_suffix_of_mem_blocks hb
  rcases Entry.mem_actualTexts_foldl h with h | ⟨marker, hmarker, hmem⟩
  · rw [Line.actualTexts_of_opened? hopened] at h
    cases h
  · obtain ⟨l, _, hl⟩ := exists_line_of_mem_attributes hb hmem
    obtain ⟨body, hread⟩ := Line.exists_body_of_attribute? hl
    exact Marker.exists_expr_of_accepts (Attribute.accepts_of_read?_actual hread) hmarker

/-- A finished item has a reference where a date of its actual block is read. -/
def Block.RefersAt (b : Block) (field value : String) : Prop :=
  (field, value) ∈ b.finished.actualDates ∧
    ∃ expr, DateExpr.read? value = some expr ∧ expr.IsReference

theorem Block.refersAt_iff (hb : b ∈ blocks ls) : b.RefersAt field value ↔
    (field, value) ∈ b.finished.actualDates ∧ Day.read? value = none := by
  refine and_congr_right fun hdate => ?_
  obtain ⟨expr, hread⟩ :=
    exists_expr_of_mem_actualTexts hb (Entry.mem_actualTexts_of_actualDates hdate)
  rw [← DateExpr.isReference_iff hread, hread]
  simp

/-- What is read of the items of a coerced document is what their blocks leave. -/
theorem exists_actualDates_iff (h : (document text).CoercedTo config d) :
    (∃ e ∈ d.entries, (field, value) ∈ e.actualDates) ↔
      ∃ b ∈ blocks (linesOf text), b.Enters ∧ (field, value) ∈ b.finished.actualDates := by
  constructor
  · intro hdate
    obtain ⟨e', he', hdate⟩ := hdate
    obtain ⟨e, he, heq⟩ := Outcome.exists_of_forall₂ h.actualDates.flip e' he'
    obtain ⟨b, hb, hin, rfl⟩ := (Draft.mem_entries_feedAll _).mp he
    exact ⟨b, hb, hin, heq ▸ hdate⟩
  · intro hdate
    obtain ⟨b, hb, hin, hdate⟩ := hdate
    have he : b.finished ∈ (document text).entries :=
      (Draft.mem_entries_feedAll _).mpr ⟨b, hb, hin, rfl⟩
    obtain ⟨e', he', heq⟩ := Outcome.exists_of_forall₂ h.actualDates _ he
    exact ⟨e', he', heq ▸ hdate⟩

/-- Every date that lines leave in an actual block is a date expression. A text that fails at an
actual date has an item with a reference under that field, and a text with such an item never
resolves. -/
theorem invalidDate_of_reference (text : String) (config : ChartConfig) (scale : Option Scale) :
    (∀ b ∈ blocks (linesOf text), ∀ field value, (field, value) ∈ b.finished.actualDates →
      ∃ expr, DateExpr.read? value = some expr) ∧
    (∀ item, ∀ part ∈ ActualRange.fieldEnds, ∀ value,
      Schedule.ofText .plain text config scale = .error (.invalidDate (item ++ part) value) →
      ∃ b ∈ blocks (linesOf text), b.Enters ∧ b.RefersAt (item ++ part) value) ∧
    ∀ b ∈ blocks (linesOf text), b.Enters → ∀ field value, b.RefersAt field value →
      ∀ s, Schedule.ofText .plain text config scale ≠ .ok s := by
  refine ⟨?_, ?_, ?_⟩
  · intro b hb field value hdate
    exact exists_expr_of_mem_actualTexts hb (Entry.mem_actualTexts_of_actualDates hdate)
  · intro item part hpart value h
    rcases ofText_plain_eq_error h with hfault | ⟨d, hrel, hr⟩
    · -- coercing has no faults of dates
      cases hfault
    · obtain ⟨e, he, hdate, hnone⟩ := Document.unreadable_of_resolve hpart hr
      obtain ⟨b, hb, hin, hdate⟩ := (exists_actualDates_iff hrel).mp ⟨e, he, hdate⟩
      exact ⟨b, hb, hin, (Block.refersAt_iff hb).mpr ⟨hdate, hnone⟩⟩
  · intro b hb hin field value hrefers s h
    obtain ⟨hdate, hnone⟩ := (Block.refersAt_iff hb).mp hrefers
    obtain ⟨d, t, table, hrel, hresolves, _⟩ := Schedule.resolvesTo_of_ofText h
    obtain ⟨e, he, hdate⟩ := (exists_actualDates_iff hrel).mpr ⟨b, hb, hin, hdate⟩
    have hok : d.resolve config = .ok t := Document.resolve_eq_ok_iff.mpr ⟨table, hresolves⟩
    have hread := Document.readable_of_resolve hok he hdate
    rw [hnone] at hread
    cases hread

/-- A task that has actually started at the end of another one. -/
def followed : String :=
  "project lasts 2020/4/1 to 2020/4/30\ntoday is 2020/4/10\nprime\n  >2020/4/2\n  <2020/4/3\n" ++
    "paint\n  >prime's end\n  <2020/4/8\n  .>prime's end\n"

theorem ofText_followed : Schedule.ofText .plain followed .standard none =
    .error (.invalidDate "paint.actual.start" "prime's end") := by
  cbv

theorem followed_refers :
    Schedule.ofText .plain followed .standard none =
      .error (.invalidDate ("paint" ++ ".actual.start") "prime's end") ∧
    ∃ b ∈ blocks (linesOf followed), b.Enters ∧
      b.RefersAt ("paint" ++ ".actual.start") "prime's end" ∧
      ∀ s, Schedule.ofText .plain followed .standard none ≠ .ok s := by
  obtain ⟨_, hinvalid, hunresolved⟩ := invalidDate_of_reference followed .standard none
  have hpart : ".actual.start" ∈ ActualRange.fieldEnds := by decide
  obtain ⟨b, hb, hin, hrefers⟩ := hinvalid "paint" _ hpart _ ofText_followed
  exact ⟨ofText_followed, b, hb, hin, hrefers, hunresolved b hb hin _ _ hrefers⟩

/-- Not every actual date that is accepted is of use. -/
theorem exists_actual_date_invalid : ¬ ∀ (text : String) (config : ChartConfig)
    (scale : Option Scale) (item value : String),
    ∀ part ∈ [".actual", ".actual.start", ".actual.end"],
    Schedule.ofText .plain text config scale ≠ .error (.invalidDate (item ++ part) value) := by
  intro h
  exact h followed .standard none "paint" "prime's end" ".actual.start" (by decide) ofText_followed

end Notation

end GanttChart
