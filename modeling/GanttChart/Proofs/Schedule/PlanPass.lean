import GanttChart.Proofs.Plan.Table
import Mathlib.Data.List.Nodup

/-! # Planning items one after the other

A step of the plan pass either leaves the table alone or adds the plan of one item. Plans are never
given up, every plan of the table belongs to an item and is made from its range, and the days of
the table agree with every solution of the plan equations. -/

namespace GanttChart

open Outcome

namespace PlanTable

/-- Every plan is that of an item, and is made from its range. -/
def Sound (calendar : WorkCalendar) (gap : Int) (entries : List Entry) (t : PlanTable) : Prop :=
  ∀ name p, t.get? name = some p →
    ∃ e ∈ entries, e.name = name ∧ ∃ r, e.range? = some r ∧ r.Makes calendar gap t.days p

/-- The days of all plans are those of an assignment. -/
def Within (a : Assignment) (t : PlanTable) : Prop :=
  ∀ name p, t.get? name = some p → a name = some p.days

end PlanTable

namespace Entry

variable {entries : List Entry} {calendar : WorkCalendar} {gap : Int} {t t' : PlanTable}
  {item name : String} {err : ScheduleError} {a : Assignment} {e : Entry}

/-! ## One step -/

theorem find?_eq_none_iff :
    (entries.find? fun e => e.name == item) = none ↔ item ∉ entries.map Entry.name := by
  simp [List.find?_eq_none]

/-- A step that succeeds has nothing to plan, or plans an item that has no plan yet. -/
theorem plan_eq_ok (h : plan entries calendar gap t item = .ok t') :
    (t' = t ∧ (item ∈ entries.map Entry.name → ∃ p, t.get? item = some p)) ∨
      ∃ e ∈ entries, ∃ r p, e.name = item ∧ e.range? = some r ∧ t.get? item = none ∧
        r.Makes calendar gap t.days p ∧ t' = ⟨t.plans.insert item p⟩ := by
  unfold plan at h
  split at h
  · rename_i hp
    cases h
    exact .inl ⟨rfl, fun _ => PlanTable.isPlanned_iff.mp hp⟩
  · rename_i hp
    rw [Bool.not_eq_true] at hp
    have hnone : t.get? item = none := PlanTable.get?_eq_none_iff.mpr hp
    cases he : entries.find? fun e => e.name == item with
    | none =>
      rw [he] at h
      cases h
      exact .inl ⟨rfl, fun hm => absurd hm (find?_eq_none_iff.mp he)⟩
    | some e =>
      rw [he] at h
      have hn : e.name = item := by simpa using List.find?_some he
      cases hr : e.range? with
      | none => simp only [hr] at h; cases h
      | some r =>
        simp only [hr, PlanTable.resolve_of_get?_eq_none hnone] at h
        obtain ⟨p, hp, rfl⟩ := map_eq_ok.mp h
        exact .inr ⟨e, List.mem_of_find?_eq_some he, r, p, hn, hr, hnone,
          PlanTable.resolveRange_eq_ok_iff.mp hp, rfl⟩

/-- A step that fails is at an item without a plan or with a range that does not resolve. -/
theorem plan_eq_error (h : plan entries calendar gap t item = .error err) :
    ∃ e ∈ entries, e.name = item ∧ ((e.range? = none ∧ err = .missingField (item ++ ".plan")) ∨
      ∃ r, e.range? = some r ∧ t.resolveRange calendar gap item r = .error err) := by
  unfold plan at h
  split at h
  · cases h
  · rename_i hp
    rw [Bool.not_eq_true] at hp
    cases he : entries.find? fun e => e.name == item with
    | none => rw [he] at h; cases h
    | some e =>
      rw [he] at h
      have hn : e.name = item := by simpa using List.find?_some he
      refine ⟨e, List.mem_of_find?_eq_some he, hn, ?_⟩
      cases hr : e.range? with
      | none =>
        simp only [hr] at h
        cases h
        exact .inl ⟨rfl, rfl⟩
      | some r =>
        simp only [hr, PlanTable.resolve, hp] at h
        cases hres : t.resolveRange calendar gap item r with
        | error err' => rw [hres] at h; cases h; exact .inr ⟨r, rfl, hres⟩
        | ok p => rw [hres] at h; cases h

theorem get?_of_plan {p : Plan} (h : plan entries calendar gap t item = .ok t')
    (hp : t.get? name = some p) : t'.get? name = some p := by
  rcases plan_eq_ok h with ⟨rfl, _⟩ | ⟨e, _, r, q, _, _, hnone, _, rfl⟩
  · exact hp
  · exact PlanTable.get?_insert_of_get? hnone hp

theorem planned_of_plan (h : plan entries calendar gap t item = .ok t')
    (hm : item ∈ entries.map Entry.name) : ∃ p, t'.get? item = some p := by
  rcases plan_eq_ok h with ⟨rfl, hp⟩ | ⟨e, _, r, q, _, _, _, _, rfl⟩
  · exact hp hm
  · exact ⟨q, by simp [PlanTable.get?_insert]⟩

theorem days_of_plan {q : PlanDays} (h : plan entries calendar gap t item = .ok t')
    (hq : t.days name = some q) : t'.days name = some q := by
  obtain ⟨p, hp, rfl⟩ := PlanTable.days_eq_some_iff.mp hq
  exact PlanTable.days_of_get? (get?_of_plan h hp)

theorem sound_of_plan (h : plan entries calendar gap t item = .ok t')
    (ht : t.Sound calendar gap entries) : t'.Sound calendar gap entries := by
  have keep {r : PlanRange} {p : Plan} (hm : r.Makes calendar gap t.days p) :
      r.Makes calendar gap t'.days p :=
    hm.mono fun _ _ hq => days_of_plan h hq
  intro name p hp
  by_cases hold : ∃ q, t.get? name = some q
  · obtain ⟨q, hq⟩ := hold
    have heq : p = q := Option.some.inj (hp.symm.trans (get?_of_plan h hq))
    obtain ⟨e, he, hn, r, hr, hm⟩ := ht name q hq
    exact ⟨e, he, hn, r, hr, heq ▸ keep hm⟩
  · rcases plan_eq_ok h with ⟨rfl, _⟩ | ⟨e, he, r, q, hn, hr, _, hm, rfl⟩
    · exact absurd ⟨p, hp⟩ hold
    · rcases PlanTable.get?_insert_eq_some hp with ⟨rfl, rfl⟩ | hp
      · exact ⟨e, he, hn, r, hr, keep hm⟩
      · exact absurd ⟨p, hp⟩ hold

theorem within_of_plan (ha : a.Solves calendar gap entries)
    (h : plan entries calendar gap t item = .ok t') (ht : t.Within a) : t'.Within a := by
  rcases plan_eq_ok h with ⟨rfl, _⟩ | ⟨e, he, r, q, rfl, hr, _, hm, rfl⟩
  · exact ht
  · intro name p hp
    rcases PlanTable.get?_insert_eq_some hp with ⟨rfl, rfl⟩ | hp
    · obtain ⟨r', s, hr', hs, hsolved⟩ := ha.solved e he
      rw [hr] at hr'
      cases hr'
      -- the new days solve the equation under the assignment too, and it has one solution
      have hmade : r.Solved calendar gap a q.days := hm.solved.transfer fun n s _ hs => by
        obtain ⟨p', hp', rfl⟩ := PlanTable.days_eq_some_iff.mp hs
        exact ht n p' hp'
      rw [hs, hsolved.unique hmade]
    · exact ht name p hp

/-! ## The whole pass -/

theorem sound_of_foldlM {order : List String}
    (h : order.foldlM (plan entries calendar gap) .empty = .ok t) :
    t.Sound calendar gap entries :=
  foldlM_preserves (fun _ _ _ hs hstep => sound_of_plan hstep hs)
    (fun name p hp => by simp at hp) h

theorem within_of_foldlM {order : List String} (ha : a.Solves calendar gap entries)
    (h : order.foldlM (plan entries calendar gap) .empty = .ok t) : t.Within a :=
  foldlM_preserves (fun _ _ _ hs hstep => within_of_plan ha hstep hs)
    (fun name p hp => by simp at hp) h

theorem planned_of_foldlM {order : List String}
    (h : order.foldlM (plan entries calendar gap) .empty = .ok t) :
    ∀ n ∈ order, n ∈ entries.map Entry.name → ∃ p, t.get? n = some p := by
  refine foldlM_establishes (Q := fun n s => n ∈ entries.map Entry.name → ∃ p, s.get? n = some p)
    (fun s n s' hstep hm => planned_of_plan hstep hm) ?_ h
  intro n s m s' hn hstep hm
  obtain ⟨p, hp⟩ := hn hm
  exact ⟨p, get?_of_plan hstep hp⟩

theorem eq_of_name_eq {e e' : Entry} (hn : (entries.map Entry.name).Nodup) (he : e ∈ entries)
    (he' : e' ∈ entries) (h : e.name = e'.name) : e = e' :=
  List.inj_on_of_nodup_map hn he he' h

/-- Once every item has a plan, the days of the table solve the plan equations. -/
theorem solves_of_sound (hn : (entries.map Entry.name).Nodup) (ht : t.Sound calendar gap entries)
    (hall : ∀ e ∈ entries, ∃ p, t.get? e.name = some p) : t.days.Solves calendar gap entries where
  named name := by
    rw [Option.isSome_iff_exists]
    constructor
    · rintro ⟨q, hq⟩
      obtain ⟨p, hp, _⟩ := PlanTable.days_eq_some_iff.mp hq
      obtain ⟨e, he, hname, _⟩ := ht name p hp
      exact List.mem_map.mpr ⟨e, he, hname⟩
    · intro hm
      obtain ⟨e, he, rfl⟩ := List.mem_map.mp hm
      obtain ⟨p, hp⟩ := hall e he
      exact ⟨p.days, PlanTable.days_of_get? hp⟩
  solved e he := by
    obtain ⟨p, hp⟩ := hall e he
    obtain ⟨e', he', hname, r, hr, hm⟩ := ht e.name p hp
    rw [eq_of_name_eq hn he' he hname] at hr
    exact ⟨r, p.days, hr, PlanTable.days_of_get? hp, hm.solved⟩

/-- A solution has no other days than those of a table within it that plans every item. -/
theorem eq_days_of_within (ha : a.Solves calendar gap entries) (ht : t.Within a)
    (hs : t.Sound calendar gap entries) (hall : ∀ e ∈ entries, ∃ p, t.get? e.name = some p) :
    a = t.days := by
  funext name
  by_cases hm : name ∈ entries.map Entry.name
  · obtain ⟨e, he, rfl⟩ := List.mem_map.mp hm
    obtain ⟨p, hp⟩ := hall e he
    rw [ht e.name p hp, PlanTable.days_of_get? hp]
  · have hnone : a name = none := by
      rw [← Option.not_isSome_iff_eq_none, ha.named]
      exact hm
    rw [hnone, eq_comm, PlanTable.days, Option.map_eq_none_iff, Option.eq_none_iff_forall_ne_some]
    intro p hp
    obtain ⟨e, he, hname, _⟩ := hs name p hp
    exact hm (List.mem_map.mpr ⟨e, he, hname⟩)

end Entry

end GanttChart
