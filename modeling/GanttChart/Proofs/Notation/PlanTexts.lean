import GanttChart.Proofs.Document.Entries
import GanttChart.Proofs.Notation.Plans
import GanttChart.Proofs.Notation.Resolving

/-! # The dates of plans in the notation

An attribute line is accepted only with a date expression that can be read. Whatever lines follow
and replace, the plans of a draft hold no other dates, and coercing keeps them. So resolving a text
in the notation never fails at a date of a plan. -/

namespace GanttChart

open Coercion

namespace Notation

/-! ## Accepted attributes -/

section Accepted

variable {cs body : List Char} {marker : Marker} {value : String} {ls : List Line} {b : Block}

theorem Attribute.accepts_of_marked? (h : marked? cs = some (marker, value)) :
    marker.accepts value = true := by
  unfold marked? at h
  split at h
  · cases h
  · split at h
    · cases h
    · simp only [Option.ite_none_right_eq_some, Option.some.injEq, Prod.mk.injEq] at h
      obtain ⟨haccepts, rfl, rfl⟩ := h
      exact haccepts

theorem Attribute.accepts_of_read? (h : read? body = some (.plan marker value)) :
    marker.accepts value = true := by
  unfold read? at h
  split at h
  · cases h
  · simp only at h
    split at h <;> cases h
  · -- an attribute of the actual block is none of the plan
    simp at h
  · obtain ⟨⟨m, v⟩, hmarked, heq⟩ := Option.map_eq_some_iff.mp h
    cases heq
    exact accepts_of_marked? hmarked
  · obtain ⟨⟨m, v⟩, hmarked, heq⟩ := Option.map_eq_some_iff.mp h
    cases heq
    exact accepts_of_marked? hmarked

/-- All markers but that of a period take date expressions. -/
theorem Marker.exists_expr_of_accepts (h : marker.accepts value = true) (hp : marker ≠ .period) :
    ∃ expr, DateExpr.read? value = some expr := by
  have hacceptable : DateExpr.isAcceptable value = true := by
    cases marker with
    | period => exact absurd rfl hp
    | _ => exact h
  rw [← DateExpr.isSome_read?] at hacceptable
  exact Option.isSome_iff_exists.mp hacceptable

theorem Line.exists_body_of_attribute? {l : Line} {a : Attribute} (h : l.attribute? = some a) :
    ∃ body, Attribute.read? body = some a := by
  cases l with
  | detail body => exact ⟨body.toList, h⟩
  | _ => cases h

theorem accepts_of_mem_settings (hb : b ∈ blocks ls) (h : (marker, value) ∈ b.settings) :
    marker.accepts value = true := by
  obtain ⟨a, ha, hsetting⟩ := List.mem_filterMap.mp h
  obtain ⟨l, _, hl⟩ := exists_line_of_mem_attributes hb ha
  obtain ⟨body, hread⟩ := Line.exists_body_of_attribute? hl
  cases a with
  | plan marker' value' =>
    cases hsetting
    exact Attribute.accepts_of_read? hread
  | _ => cases hsetting

end Accepted

/-- The dates of the plans that the notation describes can be read. -/
theorem exists_expr_of_mem_planTexts {lines : List String} {raw : String}
    (h : raw ∈ (Draft.empty.feedAll lines).document.planTexts) :
    ∃ expr, DateExpr.read? raw = some expr := by
  obtain ⟨e, he, hraw⟩ := List.mem_flatMap.mp h
  obtain ⟨b, hb, _, rfl⟩ := (Draft.mem_entries_feedAll lines).mp he
  obtain ⟨plan, hplan, hraw⟩ := Entry.mem_planTexts.mp hraw
  have hleaves := leaves_of_mem_blocks hb
  rw [hplan] at hleaves
  obtain ⟨marker, hmarker, hset⟩ := hleaves.exists_mem_of_mem_texts hraw
  exact Marker.exists_expr_of_accepts (accepts_of_mem_settings hb hset) hmarker

end Notation

/-! ## Evaluated dates -/

section Evaluated

variable {r : PlanRange} {plan : PlanSpec} {e : Entry} {raw : String}

theorem PlanSpec.mem_texts_iff :
    raw ∈ plan.texts ↔ plan.toRange.start = some raw ∨ plan.toRange.finish = some raw := by
  cases plan with
  | point day => simp [texts, toRange, eq_comm]
  | range r => simp [texts, toRange]

/-- The part that a milestone completes is a copy of the other one. -/
theorem PlanRange.part_of_forMilestone
    (h : r.forMilestone.start = some raw ∨ r.forMilestone.finish = some raw) :
    r.start = some raw ∨ r.finish = some raw := by
  rw [forMilestone_eq] at h
  rcases h with h | h
  · rcases Option.or_eq_some_iff.mp h with hs | ⟨_, hf⟩
    · exact .inl hs
    · exact .inr hf
  · simp only at h
    split at h
    · rcases Option.or_eq_some_iff.mp h with hf | ⟨_, hs⟩
      · exact .inr hf
      · exact .inl hs
    · exact .inr h

/-- What is evaluated of a plan is written in it. -/
theorem Entry.mem_planTexts_of_evaluated (hr : e.range? = some r) (hraw : raw ∈ r.evaluated) :
    raw ∈ e.planTexts := by
  have hpart := PlanRange.part_of_evaluated hraw
  cases e with
  | task t =>
    obtain ⟨plan, hplan, rfl⟩ := Option.map_eq_some_iff.mp hr
    exact mem_planTexts.mpr ⟨plan, hplan, PlanSpec.mem_texts_iff.mpr hpart⟩
  | milestone m =>
    obtain ⟨plan, hplan, rfl⟩ := Option.map_eq_some_iff.mp hr
    have hwritten := PlanRange.part_of_forMilestone hpart
    exact mem_planTexts.mpr ⟨plan, hplan, PlanSpec.mem_texts_iff.mpr hwritten⟩

end Evaluated

namespace Notation

/-- Every date that lines leave in a plan is a date expression that can be read, whatever they
replace on the way. So no text in the notation fails at a date of a plan. -/
theorem plan_dates_read :
    (∀ lines, ∀ raw ∈ (Draft.empty.feedAll lines).document.planTexts,
      ∃ expr, DateExpr.read? raw = some expr) ∧
    ∀ text config scale item value,
      Schedule.ofText .plain text config scale ≠ .error (.invalidDate (item ++ ".plan") value) := by
  refine ⟨fun lines raw hraw => exists_expr_of_mem_planTexts hraw, ?_⟩
  intro text config scale item value h
  rcases ofText_plain_eq_error h with hfault | ⟨d, hrel, hr⟩
  · -- coercing has no faults of dates
    cases hfault
  · obtain ⟨e', he', r', hrange', hraw, hnone⟩ := Document.unreadable_of_invalidDate hr
    -- the text was evaluated before coercing as well, so an attribute line has set it
    obtain ⟨e, he, r, hrange, hcoerced⟩ := hrel.exists_range he' hrange'
    rw [hcoerced.evaluated_eq] at hraw
    have hwritten := Entry.mem_planTexts_of_evaluated hrange hraw
    obtain ⟨expr, hread⟩ := exists_expr_of_mem_planTexts (List.mem_flatMap.mpr ⟨e, he, hwritten⟩)
    rw [hnone] at hread
    cases hread

/-- A point that a range replaces, and a start that stays when another one is refused. -/
def replanned : String :=
  "project lasts 2020/4/1 to 2020/4/30\ntoday is 2020/4/10\nprime\n  !2020/4/1\n  >2020/4/2\n" ++
    "  <2020/4/3\npaint\n  > prime's end \n  >tomorrow\n  =3 days\n"

theorem replanned_dates_read :
    ("prime's end" ∈ (Draft.empty.feedAll (Text.lines replanned)).document.planTexts ∧
      ∃ expr, DateExpr.read? "prime's end" = some expr) ∧
    ∀ item value, Schedule.ofText .plain replanned .standard none ≠
      .error (.invalidDate (item ++ ".plan") value) := by
  obtain ⟨hstored, hresolved⟩ := plan_dates_read
  have hraw : "prime's end" ∈
      (Draft.empty.feedAll (Text.lines replanned)).document.planTexts := by decide +kernel
  exact ⟨⟨hraw, hstored _ _ hraw⟩, hresolved replanned .standard none⟩

end Notation

end GanttChart
