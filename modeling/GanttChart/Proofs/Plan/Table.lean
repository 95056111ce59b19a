import GanttChart.Proofs.Plan.Resolution

/-! # Tables of plans

What is found in a table, and what a table says of the paths behind its plans. Planning an item
adds its plan, made from the table as it is, or finds one there already. -/

namespace GanttChart

open Outcome

variable {calendar : WorkCalendar} {gap : Int} {t t' : PlanTable} {name item : String}

namespace PlanRange.Makes

variable {a b : Assignment} {r : PlanRange} {p p' : Plan}

theorem eq_of_days (h : r.Makes calendar gap a p) (h' : r.Makes calendar gap b p')
    (hd : p.days = p'.days) : p = p' := by
  obtain ⟨start, finish, startOrigin, finishOrigin⟩ := p
  obtain ⟨start', finish', startOrigin', finishOrigin'⟩ := p'
  obtain ⟨rfl, rfl⟩ : start = start' ∧ finish = finish' := PlanDays.mk.inj hd
  rw [Plan.mk.injEq]
  exact ⟨rfl, rfl, h.startOrigin.trans h'.startOrigin.symm, h.finishOrigin.trans h'.finishOrigin.symm⟩

theorem eq_of_agrees (hab : a.Agrees b) (h : r.Makes calendar gap a p)
    (h' : r.Makes calendar gap b p') : p = p' :=
  h.eq_of_days h' (h.solved.eq_of_agrees hab h'.solved)

/-- A plan stays made from its range when the assignment gives more items days. -/
theorem mono (h : r.Makes calendar gap a p)
    (hab : ∀ name q, a name = some q → b name = some q) : r.Makes calendar gap b p :=
  ⟨h.solved.transfer fun name _ q => hab name q, h.startOrigin, h.finishOrigin⟩

end PlanRange.Makes

namespace PlanTable

variable {p : Plan}

theorem isPlanned_iff : t.isPlanned name = true ↔ ∃ p, t.get? name = some p := by
  rw [isPlanned, get?, ← Option.isSome_iff_exists, Std.HashMap.isSome_getElem?_eq_contains]

theorem get?_eq_none_iff : t.get? name = none ↔ t.isPlanned name = false := by
  rw [← Bool.not_eq_true, isPlanned_iff, Option.eq_none_iff_forall_ne_some, not_exists]

theorem get?_insert :
    PlanTable.get? ⟨t.plans.insert item p⟩ name = if item = name then some p else t.get? name := by
  simp [get?, Std.HashMap.getElem?_insert]

theorem get?_insert_eq_some {q : Plan}
    (h : PlanTable.get? ⟨t.plans.insert item q⟩ name = some p) :
    (item = name ∧ q = p) ∨ t.get? name = some p := by
  rw [get?_insert] at h
  split at h
  · rename_i heq
    exact .inl ⟨heq, Option.some.inj h⟩
  · exact .inr h

/-- A plan of an item that had none leaves the plans that are there. -/
theorem get?_insert_of_get? {q : Plan} (hn : t.get? item = none) (h : t.get? name = some p) :
    PlanTable.get? ⟨t.plans.insert item q⟩ name = some p := by
  rw [get?_insert, if_neg]
  · exact h
  · rintro rfl
    rw [hn] at h
    cases h

@[simp] theorem get?_empty : empty.get? name = none := by simp [get?, empty]

theorem resolve_of_get? (h : t.get? item = some p) (range : PlanRange) :
    t.resolve calendar gap item range = .ok t :=
  if_pos (isPlanned_iff.mpr ⟨p, h⟩)

theorem resolve_of_get?_eq_none (h : t.get? item = none) (range : PlanRange) :
    t.resolve calendar gap item range =
      (t.resolveRange calendar gap item range).map fun p => ⟨t.plans.insert item p⟩ :=
  if_neg (by simp [get?_eq_none_iff.mp h])

theorem days_of_get? (h : t.get? name = some p) : t.days name = some p.days := by
  simp [days, h]

theorem days_eq_none_iff : t.days name = none ↔ t.get? name = none := by
  simp [days]

theorem path?_congr (h : ∀ name, t.get? name = t'.get? name) (item color : String)
    (origin : Option DateExpr) (d : Day) :
    t.path? item color origin d = t'.path? item color origin d := by
  simp only [path?, h]

theorem paths_congr (h : ∀ name, t.get? name = t'.get? name) (item color : String) :
    t.paths item color = t'.paths item color := by
  simp only [paths, h, path?_congr h]

end PlanTable

end GanttChart
