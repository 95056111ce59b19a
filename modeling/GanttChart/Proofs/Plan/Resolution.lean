import GanttChart.Proofs.Plan.Solution

/-! # What resolving a range gives

Every way in which a range resolves or fails to, said once for the uses of it: the plan is the one
that the equation of the range makes from the table, and each fault has one reason. -/

namespace GanttChart

open Outcome

namespace PlanRange

/-- The texts of a range that are evaluated: the start, and the end unless a period overrides it. -/
def evaluated (r : PlanRange) : List String :=
  r.start.toList ++ if r.period.isSome then [] else r.finish.toList

/-- Why a range does not resolve against a table. -/
inductive Fault (t : PlanTable) (item : String) (r : PlanRange) : ScheduleError → Prop
  | noStart (hs : r.start = none) : Fault t item r (.missingField (item ++ ".plan.start"))
  | noFinish (hp : r.period = none) (hf : r.finish = none) :
      Fault t item r (.missingField (item ++ ".plan.end"))
  | unreadable {raw : String} (hraw : raw ∈ r.evaluated) (hd : DateExpr.read? raw = none) :
      Fault t item r (.invalidDate (item ++ ".plan") raw)
  | unknown {raw name : String} {expr : DateExpr} (hraw : raw ∈ r.evaluated)
      (he : DateExpr.read? raw = some expr) (hn : expr.reference? = some name)
      (ht : t.get? name = none) : Fault t item r (.unknownReference item name)
  | unsupported (value : String) : Fault t item r (.unsupportedPeriod value)

end PlanRange

namespace PlanTable

variable {t : PlanTable} {calendar : WorkCalendar} {gap : Int} {item raw : String}
  {r : PlanRange} {plan : Plan} {err : ScheduleError}

theorem dependency_eq_ok_iff {name : String} {p : Plan} :
    t.dependency item name = .ok p ↔ t.get? name = some p := by
  unfold dependency
  cases t.get? name <;> simp

theorem dependency_eq_error {name : String} (h : t.dependency item name = .error err) :
    t.get? name = none ∧ err = .unknownReference item name := by
  unfold dependency at h
  cases hg : t.get? name with
  | some p => rw [hg] at h; cases h
  | none => rw [hg] at h; cases h; exact ⟨rfl, rfl⟩

theorem days_eq_some_iff {name : String} {q : PlanDays} :
    t.days name = some q ↔ ∃ p, t.get? name = some p ∧ p.days = q := by
  simp [days]

theorem addWholeDays_eq_error {d : Day} {count : Int}
    (h : calendar.addWholeDays d count = .error err) : ∃ value, err = .unsupportedPeriod value := by
  unfold WorkCalendar.addWholeDays at h
  split at h
  · cases h
  · cases h; exact ⟨_, rfl⟩

theorem addBusinessDays_eq_error {d : Day} {days : Float}
    (h : calendar.addBusinessDays d days = .error err) :
    ∃ value, err = .unsupportedPeriod value := by
  unfold WorkCalendar.addBusinessDays at h
  split at h
  · cases h
  · cases h; exact ⟨_, rfl⟩

/-! ## Expressions -/

/-- What a reference to another item gives: a day away from one of its bounds. -/
theorem reference_eq_ok_iff (bound : Plan → Day) {name : String} {count : Int} {expr : DateExpr}
    {d : Day} {origin : Option DateExpr} :
    (do
      let p ← t.dependency item name
      let d ← calendar.addWholeDays (bound p) count
      return (d, some expr)) = Except.ok (d, origin) ↔
      ∃ p, t.get? name = some p ∧ calendar.addWholeDays (bound p) count = .ok d ∧
        origin = some expr := by
  simp only [bind_eq_ok, dependency_eq_ok_iff]
  constructor
  · rintro ⟨p, hp, e, he, h⟩
    cases h
    exact ⟨p, hp, he, rfl⟩
  · rintro ⟨p, hp, he, rfl⟩
    exact ⟨p, hp, d, he, rfl⟩

theorem reference_eq_error (bound : Plan → Day) {name : String} {count : Int} {expr : DateExpr}
    (h : (do
      let p ← t.dependency item name
      let d ← calendar.addWholeDays (bound p) count
      return (d, some expr)) = Except.error err) :
    (t.get? name = none ∧ err = .unknownReference item name) ∨
      ∃ value, err = .unsupportedPeriod value := by
  rcases bind_eq_error.mp h with h | ⟨p, _, h⟩
  · exact .inl (dependency_eq_error h)
  · rcases bind_eq_error.mp h with h | ⟨d, _, h⟩
    · exact .inr (addWholeDays_eq_error h)
    · cases h

theorem resolveExpr_eq_ok_iff {d : Day} {origin : Option DateExpr} :
    t.resolveExpr calendar gap item raw = .ok (d, origin) ↔
      ∃ expr, DateExpr.read? raw = some expr ∧ expr.Denotes calendar gap t.days d ∧
        origin = expr.origin? := by
  unfold resolveExpr
  cases DateExpr.read? raw with
  | none => simp
  | some expr =>
    simp only [Option.some.injEq, exists_eq_left']
    cases expr with
    | literal e =>
      constructor
      · intro h
        cases h
        exact ⟨.literal _, rfl⟩
      · rintro ⟨⟨⟩, rfl⟩
        rfl
    | projectStart =>
      constructor
      · intro h
        cases h
        exact ⟨.projectStart, rfl⟩
      · rintro ⟨⟨⟩, rfl⟩
        rfl
    | projectEnd =>
      constructor
      · intro h
        cases h
        exact ⟨.projectEnd, rfl⟩
      · rintro ⟨⟨⟩, rfl⟩
        rfl
    | startOf name =>
      simp only [reference_eq_ok_iff Plan.start]
      constructor
      · rintro ⟨p, hp, hd, ho⟩
        exact ⟨.startOf (days_eq_some_iff.mpr ⟨p, hp, rfl⟩) hd, ho⟩
      · rintro ⟨h, ho⟩
        cases h with
        | startOf hq hd =>
          obtain ⟨p, hp, rfl⟩ := days_eq_some_iff.mp hq
          exact ⟨p, hp, hd, ho⟩
    | endOf name =>
      simp only [reference_eq_ok_iff Plan.finish]
      constructor
      · rintro ⟨p, hp, hd, ho⟩
        exact ⟨.endOf (days_eq_some_iff.mpr ⟨p, hp, rfl⟩) hd, ho⟩
      · rintro ⟨h, ho⟩
        cases h with
        | endOf hq hd =>
          obtain ⟨p, hp, rfl⟩ := days_eq_some_iff.mp hq
          exact ⟨p, hp, hd, ho⟩

theorem resolveExpr_eq_error (hraw : raw ∈ r.evaluated)
    (h : t.resolveExpr calendar gap item raw = .error err) : r.Fault t item err := by
  have hreference {name : String} {expr : DateExpr} (he : DateExpr.read? raw = some expr)
      (hn : expr.reference? = some name)
      (h : (t.get? name = none ∧ err = .unknownReference item name) ∨
        ∃ value, err = .unsupportedPeriod value) : r.Fault t item err := by
    rcases h with ⟨ht, rfl⟩ | ⟨value, rfl⟩
    · exact .unknown hraw he hn ht
    · exact .unsupported value
  unfold resolveExpr at h
  cases he : DateExpr.read? raw with
  | none =>
    rw [he] at h
    cases h
    exact .unreadable hraw he
  | some expr =>
    rw [he] at h
    cases expr with
    | literal _ => cases h
    | projectStart => cases h
    | projectEnd => cases h
    | startOf name => exact hreference he rfl (reference_eq_error Plan.start h)
    | endOf name => exact hreference he rfl (reference_eq_error Plan.finish h)

/-! ## Ranges -/

theorem requirePart_eq_ok_iff {field : String} {part : Option String} :
    requirePart field part = .ok raw ↔ part = some raw := by
  cases part <;> simp [requirePart]

theorem requirePart_eq_error {field : String} {part : Option String}
    (h : requirePart field part = .error err) : part = none ∧ err = .missingField field := by
  cases part with
  | none => cases h; exact ⟨rfl, rfl⟩
  | some _ => cases h

theorem periodDays_eq_ok {period : Scalar} {days : Float} (h : period.periodDays = .ok days) :
    period = .number days := by
  cases period with
  | number x =>
    simp only [Scalar.periodDays] at h
    split at h
    · cases h; rfl
    · cases h
  | text s => cases h

theorem periodDays_eq_error {period : Scalar} (h : period.periodDays = .error err) :
    ∃ value, err = .unsupportedPeriod value := by
  cases period with
  | number x =>
    simp only [Scalar.periodDays] at h
    split at h
    · cases h
    · cases h; exact ⟨_, rfl⟩
  | text s => cases h; exact ⟨_, rfl⟩

/-- Business days can only be added in a finite number. -/
theorem periodDays_of_addBusinessDays {d e : Day} {days : Float}
    (h : calendar.addBusinessDays d days = .ok e) :
    (Scalar.number days).periodDays = .ok days := by
  have hf : Number.isFinite days = true := by
    by_contra hn
    have hb : Number.Binary.ofFloat? days = none := by simpa [Number.isFinite] using hn
    simp [WorkCalendar.addBusinessDays, WorkCalendar.wholeDays?, hb] at h
  simp [Scalar.periodDays, hf]

/-- A range resolves exactly to the plan that its equation makes from the table. -/
theorem resolveRange_eq_ok_iff :
    t.resolveRange calendar gap item r = .ok plan ↔ r.Makes calendar gap t.days plan := by
  obtain ⟨start, finish, startOrigin, finishOrigin⟩ := plan
  unfold resolveRange
  simp only [bind_eq_ok, requirePart_eq_ok_iff]
  constructor
  · rintro ⟨raw, hraw, ⟨d, origin⟩, hd, h⟩
    obtain ⟨expr, he, hden, rfl⟩ := resolveExpr_eq_ok_iff.mp hd
    cases hp : r.period with
    | some period =>
      rw [hp] at h
      simp only [bind_eq_ok] at h
      obtain ⟨days, hdays, e, hadd, h⟩ := h
      cases h
      refine ⟨⟨⟨raw, expr, hraw, he, hden⟩, ?_⟩, ?_, ?_⟩
      · rw [hp]
        exact ⟨days, periodDays_eq_ok hdays, hadd⟩
      · simp [PlanRange.startOrigin, hraw, he]
      · simp [PlanRange.finishOrigin, hp]
    | none =>
      rw [hp] at h
      simp only [bind_eq_ok, requirePart_eq_ok_iff] at h
      obtain ⟨raw', hraw', ⟨d', origin'⟩, hd', h⟩ := h
      obtain ⟨expr', he', hden', rfl⟩ := resolveExpr_eq_ok_iff.mp hd'
      cases h
      refine ⟨⟨⟨raw, expr, hraw, he, hden⟩, ?_⟩, ?_, ?_⟩
      · rw [hp]
        exact ⟨raw', expr', hraw', he', hden'⟩
      · simp [PlanRange.startOrigin, hraw, he]
      · simp [PlanRange.finishOrigin, hp, hraw', he']
  · rintro ⟨⟨⟨raw, expr, hraw, he, hden⟩, hfinish⟩, hso, hfo⟩
    refine ⟨raw, hraw, (start, expr.origin?), resolveExpr_eq_ok_iff.mpr ⟨expr, he, hden, rfl⟩, ?_⟩
    have hso : startOrigin = expr.origin? := by
      simpa [PlanRange.startOrigin, hraw, he] using hso
    subst hso
    cases hp : r.period with
    | some period =>
      rw [hp] at hfinish
      obtain ⟨days, rfl, hadd⟩ := hfinish
      have hfo : finishOrigin = none := by simpa [PlanRange.finishOrigin, hp] using hfo
      subst hfo
      exact bind_eq_ok.mpr ⟨days, periodDays_of_addBusinessDays hadd,
        bind_eq_ok.mpr ⟨finish, hadd, rfl⟩⟩
    | none =>
      rw [hp] at hfinish
      obtain ⟨raw', expr', hraw', he', hden'⟩ := hfinish
      have hfo : finishOrigin = expr'.origin? := by
        simpa [PlanRange.finishOrigin, hp, hraw', he'] using hfo
      subst hfo
      exact bind_eq_ok.mpr ⟨raw', requirePart_eq_ok_iff.mpr hraw', bind_eq_ok.mpr
        ⟨(finish, expr'.origin?), resolveExpr_eq_ok_iff.mpr ⟨expr', he', hden', rfl⟩, rfl⟩⟩

theorem resolveRange_eq_error (h : t.resolveRange calendar gap item r = .error err) :
    r.Fault t item err := by
  unfold resolveRange at h
  rcases bind_eq_error.mp h with h | ⟨raw, hraw, h⟩
  · obtain ⟨hs, rfl⟩ := requirePart_eq_error h
    exact .noStart hs
  rw [requirePart_eq_ok_iff] at hraw
  rcases bind_eq_error.mp h with h | ⟨⟨d, origin⟩, _, h⟩
  · exact resolveExpr_eq_error (by simp [PlanRange.evaluated, hraw]) h
  cases hp : r.period with
  | some period =>
    simp only [hp] at h
    rcases bind_eq_error.mp h with h | ⟨days, _, h⟩
    · obtain ⟨value, rfl⟩ := periodDays_eq_error h
      exact .unsupported value
    rcases bind_eq_error.mp h with h | ⟨e, _, h⟩
    · obtain ⟨value, rfl⟩ := addBusinessDays_eq_error h
      exact .unsupported value
    · cases h
  | none =>
    simp only [hp] at h
    rcases bind_eq_error.mp h with h | ⟨raw', hraw', h⟩
    · obtain ⟨hf, rfl⟩ := requirePart_eq_error h
      exact .noFinish hp hf
    rw [requirePart_eq_ok_iff] at hraw'
    rcases bind_eq_error.mp h with h | ⟨⟨d', origin'⟩, _, h⟩
    · exact resolveExpr_eq_error (by simp [PlanRange.evaluated, hraw', hp]) h
    · cases h

end PlanTable

end GanttChart
