import GanttChart.Proofs.Notation.Reading
import Mathlib.Data.List.DropRight

/-! # What attribute lines leave of a plan

A point gives up what a plan said before, and any other part gives up a point. So after all
attributes of a block its plan is that of the last point, or it has the last value of each part
that has been set since. -/

namespace GanttChart

open Notation (Attribute Marker)

/-- The dates that a plan is written with. -/
def PlanSpec.texts : PlanSpec → List String
  | point day => [day]
  | range r => r.start.toList ++ r.finish.toList

namespace Entry

def plan? : Entry → Option PlanSpec
  | task t => t.plan
  | milestone m => m.plan

def planTexts (e : Entry) : List String := e.plan?.toList.flatMap PlanSpec.texts

theorem mem_planTexts {e : Entry} {raw : String} :
    raw ∈ e.planTexts ↔ ∃ plan, e.plan? = some plan ∧ raw ∈ plan.texts := by
  simp [planTexts]

end Entry

/-- The dates that all plans of a document are written with. -/
def Document.planTexts (d : Document) : List String := d.entries.flatMap Entry.planTexts

/-- The part of the plan that an attribute sets, and its value. -/
def Notation.Attribute.setting? : Attribute → Option (Marker × String)
  | plan marker value => some (marker, value)
  | _ => none

namespace Notation

/-- The last value that a part has been set to. -/
def latest? (marker : Marker) (settings : List (Marker × String)) : Option String :=
  (settings.reverse.find? fun s => s.1 = marker).map Prod.snd

/-- What has been set after the last point. -/
def sincePoint (settings : List (Marker × String)) : List (Marker × String) :=
  settings.rtakeWhile fun s => s.1 ≠ .point

/-- The range with the last value of each part. -/
def rangeOf (settings : List (Marker × String)) : PlanRange where
  start := latest? .start settings
  finish := latest? .finish settings
  period := (latest? .period settings).map .text

/-- The plan after some settings, made one after the other. -/
def planOf (settings : List (Marker × String)) : Option PlanSpec :=
  settings.foldl (fun plan s => some (Attribute.onPlan s.1 s.2 plan)) none

/-- What settings leave of a plan. -/
inductive Leaves (settings : List (Marker × String)) : Option PlanSpec → Prop
  | nothing (h : settings = []) : Leaves settings none
  | point {day : String} (h : (Marker.point, day) ∈ settings) (hs : sincePoint settings = []) :
      Leaves settings (some (.point day))
  | range (h : sincePoint settings ≠ []) :
      Leaves settings (some (.range (rangeOf (sincePoint settings))))

variable {settings : List (Marker × String)} {marker : Marker} {value : String}
  {plan : Option PlanSpec}

theorem latest?_concat (settings : List (Marker × String)) (marker : Marker)
    (s : Marker × String) :
    latest? marker (settings ++ [s]) = if s.1 = marker then some s.2 else latest? marker settings := by
  by_cases h : s.1 = marker <;> simp [latest?, h]

theorem mem_of_latest? (h : latest? marker settings = some value) : (marker, value) ∈ settings := by
  obtain ⟨s, hs, rfl⟩ := Option.map_eq_some_iff.mp h
  have hmarker : s.1 = marker := by simpa using List.find?_some hs
  have hmem := List.mem_of_find?_eq_some hs
  rw [← hmarker]
  exact List.mem_reverse.mp hmem

theorem latest?_eq_none_iff : latest? marker settings = none ↔ marker ∉ settings.map Prod.fst := by
  rw [latest?, Option.map_eq_none_iff, List.find?_eq_none]
  simp only [List.mem_reverse, decide_eq_true_eq, List.mem_map, not_exists, not_and]

theorem sincePoint_concat_point (settings : List (Marker × String)) (day : String) :
    sincePoint (settings ++ [(.point, day)]) = [] := by
  simp [sincePoint]

theorem sincePoint_concat (h : marker ≠ .point) (settings : List (Marker × String))
    (value : String) :
    sincePoint (settings ++ [(marker, value)]) = sincePoint settings ++ [(marker, value)] := by
  simp [sincePoint, h]

theorem mem_of_mem_sincePoint {s : Marker × String} (h : s ∈ sincePoint settings) :
    s ∈ settings :=
  (List.rtakeWhile_suffix _ _).subset h

namespace Leaves

/-- Going on with a plan is going on with what has been set since the last point. -/
theorem openRange_eq (h : Leaves settings plan) :
    PlanSpec.openRange plan = rangeOf (sincePoint settings) := by
  cases h with
  | nothing h => rw [h]; rfl
  | point _ hs => rw [hs]; rfl
  | range _ => rfl

theorem concat (h : Leaves settings plan) (marker : Marker) (value : String) :
    Leaves (settings ++ [(marker, value)]) (some (Attribute.onPlan marker value plan)) := by
  by_cases hpoint : marker = .point
  · subst hpoint
    exact .point (by simp) (sincePoint_concat_point settings value)
  have hsince := sincePoint_concat hpoint settings value
  -- the range goes on with one part replaced
  have hrange : Attribute.onPlan marker value plan =
      .range (rangeOf (sincePoint settings ++ [(marker, value)])) := by
    cases marker with
    | point => exact absurd rfl hpoint
    | _ => simp [Attribute.onPlan, h.openRange_eq, rangeOf, latest?_concat]
  rw [hrange, ← hsince]
  exact .range (by simp [hsince])

end Leaves

/-- The dates of a plan are the values of settings. -/
theorem Leaves.exists_mem_of_mem_texts {plan : PlanSpec} {raw : String}
    (h : Leaves settings (some plan)) (hraw : raw ∈ plan.texts) :
    ∃ marker, marker ≠ .period ∧ (marker, raw) ∈ settings := by
  cases h with
  | point hday _ =>
    obtain rfl := List.mem_singleton.mp hraw
    exact ⟨.point, by decide, hday⟩
  | range _ =>
    rcases List.mem_append.mp hraw with hraw | hraw
    · have hlatest : latest? .start (sincePoint settings) = some raw := Option.mem_toList.mp hraw
      exact ⟨.start, by decide, mem_of_mem_sincePoint (mem_of_latest? hlatest)⟩
    · have hlatest : latest? .finish (sincePoint settings) = some raw := Option.mem_toList.mp hraw
      exact ⟨.finish, by decide, mem_of_mem_sincePoint (mem_of_latest? hlatest)⟩

theorem leaves_planOf (settings : List (Marker × String)) : Leaves settings (planOf settings) := by
  induction settings using List.reverseRecOn with
  | nil => exact .nothing rfl
  | append_singleton settings s ih =>
    rw [planOf, List.foldl_append]
    exact ih.concat s.1 s.2

end Notation

/-! ## The plans of blocks -/

theorem Entry.plan?_apply (e : Entry) (a : Attribute) :
    (e.apply a).plan? = match a.setting? with
      | some s => some (Attribute.onPlan s.1 s.2 e.plan?)
      | none => e.plan? := by
  cases e <;> cases a <;> rfl

theorem Entry.plan?_foldl (as : List Attribute) (e : Entry) :
    (as.foldl Entry.apply e).plan? =
      (as.filterMap Attribute.setting?).foldl
        (fun plan s => some (Attribute.onPlan s.1 s.2 plan)) e.plan? := by
  induction as generalizing e with
  | nil => rfl
  | cons a rest ih =>
    rw [List.foldl_cons, ih, plan?_apply]
    cases ha : a.setting? with
    | none => rw [List.filterMap_cons_none ha]
    | some s => rw [List.filterMap_cons_some ha, List.foldl_cons]

namespace Notation

variable {ls : List Line} {l : Line} {e : Entry} {b : Block}

/-- What the attributes of a block set of its plan. -/
def Block.settings (b : Block) : List (Marker × String) :=
  b.attributes.filterMap Attribute.setting?

theorem Line.plan?_of_opened? (h : l.opened? = some e) : e.plan? = none := by
  cases l <;> cases h <;> rfl

/-- A block starts at an item line, and its attributes are those of the lines after it. -/
theorem exists_suffix_of_mem_blocks (h : b ∈ blocks ls) : ∃ l rest, (l :: rest) <:+ ls ∧
    l.opened? = some b.opened ∧ b.attributes = ownAttributes rest := by
  induction ls with
  | nil => cases h
  | cons l rest ih =>
    have hlater (hb : b ∈ blocks rest) : ∃ l' rest', (l' :: rest') <:+ (l :: rest) ∧
        l'.opened? = some b.opened ∧ b.attributes = ownAttributes rest' := by
      obtain ⟨l', rest', hsuffix, hb'⟩ := ih hb
      exact ⟨l', rest', hsuffix.trans (List.suffix_cons l rest), hb'⟩
    rw [blocks] at h
    cases hopened : l.opened? with
    | none =>
      rw [hopened] at h
      exact hlater h
    | some e =>
      rw [hopened] at h
      rcases List.mem_cons.mp h with rfl | hb
      · exact ⟨l, rest, List.suffix_refl _, hopened, rfl⟩
      · exact hlater hb

/-- Attributes of blocks are attributes of lines. -/
theorem exists_line_of_mem_attributes {a : Attribute} (hb : b ∈ blocks ls)
    (ha : a ∈ b.attributes) : ∃ l ∈ ls, l.attribute? = some a := by
  obtain ⟨_, rest, hsuffix, _, hattributes⟩ := exists_suffix_of_mem_blocks hb
  rw [hattributes] at ha
  obtain ⟨l, hl, hread⟩ := List.mem_filterMap.mp ha
  have hrest : l ∈ rest := (List.takeWhile_sublist _).subset hl
  exact ⟨l, hsuffix.subset (.tail _ hrest), hread⟩

theorem leaves_of_mem_blocks (h : b ∈ blocks ls) : Leaves b.settings b.finished.plan? := by
  obtain ⟨_, _, _, hopened, _⟩ := exists_suffix_of_mem_blocks h
  rw [Block.finished, Entry.plan?_foldl, Line.plan?_of_opened? hopened]
  exact leaves_planOf _

end Notation

end GanttChart
