import GanttChart.Proofs.Plan.Table
import Mathlib

/-! # Planning in any order

Calls to plan items may come in any order, fail, and be made again. A table only grows under them:
a call that fails leaves it as it is, and no plan in it is ever replaced, so that each stays made
from its own range and the plans it refers to. Hence where every call of two orders succeeds, both
end with the same plans and the same paths. -/

namespace GanttChart

open Outcome

/-- A call to plan an item by a range. -/
structure PlanCall where
  item : String
  range : PlanRange

namespace PlanCall

/-- Plans the item in a table that is changed in place, and answers with what the table then has for
it. -/
def inPlace (calendar : WorkCalendar) (gap : Int) (c : PlanCall) :
    EStateM ScheduleError PlanTable Plan := do
  let table ← get
  unless table.isPlanned c.item do
    let plan ← MonadExcept.ofExcept (table.resolveRange calendar gap c.item c.range)
    set (⟨table.plans.insert c.item plan⟩ : PlanTable)
  match (← get).get? c.item with
  | some plan => return plan
  | none => throw (.missingField (c.item ++ ".plan"))

/-- The table after the call, whether it has succeeded or failed. -/
def apply (calendar : WorkCalendar) (gap : Int) (t : PlanTable) (c : PlanCall) : PlanTable :=
  match (c.inPlace calendar gap).run t with
  | .ok _ t' => t'
  | .error _ t' => t'

/-- The table after the call, if it succeeds. -/
def plan (calendar : WorkCalendar) (gap : Int) (t : PlanTable) (c : PlanCall) :
    Except ScheduleError PlanTable :=
  t.resolve calendar gap c.item c.range

end PlanCall

namespace PlanTable

variable {calendar : WorkCalendar} {gap : Int} {t t' : PlanTable} {c : PlanCall}
  {calls calls' before after : List PlanCall} {name : String} {p p' : Plan}

/-! ## One call -/

/-- A call finds a plan of its item, or adds one, or fails; it changes the table only to add a
plan, and its answer is the plan that the table has then. -/
theorem call_cases (calendar : WorkCalendar) (gap : Int) (t : PlanTable) (c : PlanCall) :
    (∃ p, t.get? c.item = some p ∧ c.plan calendar gap t = .ok t ∧
      (c.inPlace calendar gap).run t = .ok p t) ∨
    (t.get? c.item = none ∧ ∃ p, c.range.Makes calendar gap t.days p ∧
      c.plan calendar gap t = .ok ⟨t.plans.insert c.item p⟩ ∧
      (c.inPlace calendar gap).run t = .ok p ⟨t.plans.insert c.item p⟩) ∨
    ∃ err, c.plan calendar gap t = .error err ∧ (c.inPlace calendar gap).run t = .error err t := by
  cases hp : t.get? c.item with
  | some p =>
    have hplanned : t.isPlanned c.item = true := isPlanned_iff.mpr ⟨p, hp⟩
    refine .inl ⟨p, rfl, resolve_of_get? hp c.range, ?_⟩
    simp [PlanCall.inPlace, hplanned, hp]
  | none =>
    have hplanned : t.isPlanned c.item = false := get?_eq_none_iff.mp hp
    right
    cases hr : t.resolveRange calendar gap c.item c.range with
    | ok p =>
      refine .inl ⟨rfl, p, resolveRange_eq_ok_iff.mp hr, ?_, ?_⟩
      · rw [PlanCall.plan, resolve_of_get?_eq_none hp, hr]
        rfl
      · simp [PlanCall.inPlace, hplanned, hr, get?_insert, MonadExcept.ofExcept]
    | error err =>
      refine .inr ⟨err, ?_, ?_⟩
      · rw [PlanCall.plan, resolve_of_get?_eq_none hp, hr]
        rfl
      · have hthrow : (throw err : EStateM ScheduleError PlanTable Plan).run t = .error err t := rfl
        simp [PlanCall.inPlace, hplanned, hr, MonadExcept.ofExcept, hthrow]

/-- A call leaves the table as it is, or adds a plan of an item that had none. -/
theorem apply_cases (calendar : WorkCalendar) (gap : Int) (t : PlanTable) (c : PlanCall) :
    c.apply calendar gap t = t ∨
    (t.get? c.item = none ∧ ∃ p, c.range.Makes calendar gap t.days p ∧
      c.apply calendar gap t = ⟨t.plans.insert c.item p⟩) := by
  unfold PlanCall.apply
  rcases call_cases calendar gap t c with ⟨p, _, _, hrun⟩ | ⟨hn, p, hp, _, hrun⟩ | ⟨err, _, hrun⟩
  · exact .inl (by rw [hrun])
  · exact .inr ⟨hn, p, hp, by rw [hrun]⟩
  · exact .inl (by rw [hrun])

theorem get?_apply (h : t.get? name = some p) :
    (c.apply calendar gap t).get? name = some p := by
  rcases apply_cases calendar gap t c with hsame | ⟨hn, q, _, hadds⟩
  · rwa [hsame]
  · rw [hadds]
    exact get?_insert_of_get? hn h

/-- A plan that is in the table after a call was there before or is that of the call. -/
theorem made_of_apply (hn : t.get? name = none)
    (h : (c.apply calendar gap t).get? name = some p) :
    c.item = name ∧ c.range.Makes calendar gap t.days p := by
  rcases apply_cases calendar gap t c with hsame | ⟨_, q, hq, hadds⟩
  · rw [hsame, hn] at h
    cases h
  · rw [hadds] at h
    rcases get?_insert_eq_some h with ⟨hitem, rfl⟩ | h
    · exact ⟨hitem, hq⟩
    · rw [hn] at h
      cases h

theorem apply_of_plan (h : c.plan calendar gap t = .ok t') : c.apply calendar gap t = t' := by
  rcases call_cases calendar gap t c with ⟨q, _, hplan, hrun⟩ | ⟨_, q, _, hplan, hrun⟩ |
    ⟨err, hplan, _⟩
  · rw [PlanCall.apply, hrun]
    exact Except.ok.inj (hplan.symm.trans h)
  · rw [PlanCall.apply, hrun]
    exact Except.ok.inj (hplan.symm.trans h)
  · rw [hplan] at h
    cases h

theorem get?_of_plan (h : c.plan calendar gap t = .ok t') : ∃ p, t'.get? c.item = some p := by
  rcases call_cases calendar gap t c with ⟨q, hq, hplan, _⟩ | ⟨_, q, _, hplan, _⟩ | ⟨err, hplan, _⟩
  · cases hplan.symm.trans h
    exact ⟨q, hq⟩
  · cases hplan.symm.trans h
    exact ⟨q, by simp [get?_insert]⟩
  · rw [hplan] at h
    cases h

/-! ## Any number of calls -/

/-- A table that was empty, after some calls. -/
def afterCalls (calendar : WorkCalendar) (gap : Int) (calls : List PlanCall) : PlanTable :=
  calls.foldl (PlanCall.apply calendar gap) .empty

theorem afterCalls_concat : afterCalls calendar gap (calls ++ [c]) =
    c.apply calendar gap (afterCalls calendar gap calls) := by
  rw [afterCalls, List.foldl_append]
  rfl

/-- What is planned stays planned, by the same plan. -/
theorem get?_afterCalls_append (h : (afterCalls calendar gap before).get? name = some p) :
    (afterCalls calendar gap (before ++ after)).get? name = some p := by
  induction after using List.reverseRecOn with
  | nil => rwa [List.append_nil]
  | append_singleton after c ih =>
    rw [← List.append_assoc, afterCalls_concat]
    exact get?_apply ih

/-- Every plan is from the first call of its item that succeeded, and is made from the range of that
call and the plans that are in the table now. -/
theorem made_of_afterCalls (h : (afterCalls calendar gap calls).get? name = some p) :
    ∃ before range after, calls = before ++ ⟨name, range⟩ :: after ∧
      (afterCalls calendar gap before).get? name = none ∧
      (afterCalls calendar gap (before ++ [⟨name, range⟩])).get? name = some p ∧
      range.Makes calendar gap (afterCalls calendar gap calls).days p := by
  induction calls using List.reverseRecOn with
  | nil => simp [afterCalls] at h
  | append_singleton calls c ih =>
    have hkeeps : ∀ n q, (afterCalls calendar gap calls).days n = some q →
        (afterCalls calendar gap (calls ++ [c])).days n = some q := by
      intro n q hq
      obtain ⟨p, hp, rfl⟩ := days_eq_some_iff.mp hq
      exact days_of_get? (get?_afterCalls_append hp)
    cases hold : (afterCalls calendar gap calls).get? name with
    | some q =>
      obtain rfl : q = p := Option.some.inj ((get?_afterCalls_append hold).symm.trans h)
      obtain ⟨before, range, after, rfl, hfirst, hthen, hmade⟩ := ih hold
      exact ⟨before, range, after ++ [c], by simp, hfirst, hthen, hmade.mono hkeeps⟩
    | none =>
      obtain ⟨rfl, hmade⟩ := made_of_apply hold (afterCalls_concat ▸ h)
      exact ⟨calls, c.range, [], rfl, hold, h, hmade.mono hkeeps⟩

theorem get?_afterCalls_eq_none (h : ¬ ∃ c ∈ calls, c.item = name) :
    (afterCalls calendar gap calls).get? name = none := by
  rw [Option.eq_none_iff_forall_ne_some]
  intro p hp
  obtain ⟨before, range, after, rfl, _⟩ := made_of_afterCalls hp
  exact h ⟨⟨name, range⟩, by simp, rfl⟩

/-! ## Two runs of calls -/

/-- Where an item is never called with different ranges, two runs have the same plan for every item
that both have planned. -/
theorem eq_of_afterCalls (hcalls : ∀ c ∈ calls, ∀ c' ∈ calls', c.item = c'.item → c = c')
    (hp : (afterCalls calendar gap calls).get? name = some p)
    (hp' : (afterCalls calendar gap calls').get? name = some p') : p = p' := by
  induction calls using List.reverseRecOn generalizing name p p' with
  | nil => simp [afterCalls] at hp
  | append_singleton calls c ih =>
    have hfewer : ∀ c ∈ calls, ∀ c' ∈ calls', c.item = c'.item → c = c' := by
      intro c hc
      exact hcalls c (List.mem_append_left _ hc)
    cases hold : (afterCalls calendar gap calls).get? name with
    | some q =>
      obtain rfl : q = p := Option.some.inj ((get?_afterCalls_append hold).symm.trans hp)
      exact ih hfewer hold hp'
    | none =>
      obtain ⟨rfl, hmade⟩ := made_of_apply hold (afterCalls_concat ▸ hp)
      obtain ⟨before, range, after, rfl, _, _, hmade'⟩ := made_of_afterCalls hp'
      have hsame : c = ⟨c.item, range⟩ := hcalls c (by simp) _ (by simp) rfl
      have hrange : c.range = range := congrArg PlanCall.range hsame
      rw [hrange] at hmade
      refine hmade.eq_of_agrees (fun n q q' hq hq' => ?_) hmade'
      obtain ⟨_, hplan, rfl⟩ := days_eq_some_iff.mp hq
      obtain ⟨_, hplan', rfl⟩ := days_eq_some_iff.mp hq'
      rw [ih hfewer hplan hplan']

/-- The table that calls end with which succeed one after the other. -/
theorem afterCalls_of_foldlM (h : calls.foldlM (PlanCall.plan calendar gap) .empty = .ok t) :
    afterCalls calendar gap calls = t := by
  unfold afterCalls
  generalize PlanTable.empty = start at h ⊢
  induction calls generalizing start with
  | nil => exact Except.ok.inj h
  | cons c rest ih =>
    rw [List.foldlM_cons] at h
    obtain ⟨next, hnext, hrest⟩ := bind_eq_ok.mp h
    rw [List.foldl_cons, apply_of_plan hnext]
    exact ih next hrest

theorem get?_of_foldlM (h : calls.foldlM (PlanCall.plan calendar gap) .empty = .ok t) :
    ∀ c ∈ calls, ∃ p, t.get? c.item = some p := by
  refine foldlM_establishes (Q := fun c s => ∃ p, s.get? c.item = some p)
    (fun s c s' hstep => get?_of_plan hstep) ?_ h
  rintro c s c' s' ⟨p, hp⟩ hstep
  exact ⟨p, apply_of_plan hstep ▸ get?_apply hp⟩

/-- The order of calls does not matter for an item that both orders have planned. -/
theorem get?_eq_of_perm (hperm : calls.Perm calls') (hnames : (calls.map PlanCall.item).Nodup)
    (h : calls.foldlM (PlanCall.plan calendar gap) .empty = .ok t)
    (h' : calls'.foldlM (PlanCall.plan calendar gap) .empty = .ok t') (name : String) :
    t.get? name = t'.get? name := by
  have hplanned := get?_of_foldlM h
  have hplanned' := get?_of_foldlM h'
  rw [← afterCalls_of_foldlM h] at hplanned ⊢
  rw [← afterCalls_of_foldlM h'] at hplanned' ⊢
  have hcalls : ∀ c ∈ calls, ∀ c' ∈ calls', c.item = c'.item → c = c' := by
    intro c hc c' hc' hitem
    exact List.inj_on_of_nodup_map hnames hc (hperm.mem_iff.mpr hc') hitem
  by_cases hcalled : ∃ c ∈ calls, c.item = name
  · obtain ⟨c, hc, rfl⟩ := hcalled
    obtain ⟨p, hp⟩ := hplanned c hc
    obtain ⟨p', hp'⟩ := hplanned' c (hperm.mem_iff.mp hc)
    rw [hp, hp', eq_of_afterCalls hcalls hp hp']
  · have hcalled' : ¬ ∃ c ∈ calls', c.item = name := by simpa only [hperm.mem_iff] using hcalled
    rw [get?_afterCalls_eq_none hcalled, get?_afterCalls_eq_none hcalled']

/-- The table only grows: a call that fails leaves it as it was, and one that succeeds answers with
the plan the table has then. The first plan of an item stays for ever, and is made from its range
and the plans in the table, whichever calls come later. Items that are planned once each have the
same plans and the same paths in every order in which all calls succeed. -/
theorem calls_confluent (calendar : WorkCalendar) (gap : Int) :
    (∀ (t : PlanTable) (c : PlanCall),
      (∃ p t', (c.inPlace calendar gap).run t = .ok p t' ∧ c.plan calendar gap t = .ok t' ∧
        t'.get? c.item = some p) ∨
      ∃ err, (c.inPlace calendar gap).run t = .error err t ∧
        c.plan calendar gap t = .error err) ∧
    (∀ (before after : List PlanCall) (name : String) (p : Plan),
      (afterCalls calendar gap before).get? name = some p →
      (afterCalls calendar gap (before ++ after)).get? name = some p) ∧
    (∀ (calls : List PlanCall) (name : String) (p : Plan),
      (afterCalls calendar gap calls).get? name = some p →
      ∃ before range after, calls = before ++ ⟨name, range⟩ :: after ∧
        (afterCalls calendar gap before).get? name = none ∧
        (afterCalls calendar gap (before ++ [⟨name, range⟩])).get? name = some p ∧
        range.Makes calendar gap (afterCalls calendar gap calls).days p) ∧
    ∀ (calls calls' : List PlanCall) (t t' : PlanTable),
      calls.Perm calls' → (calls.map PlanCall.item).Nodup →
      calls.foldlM (PlanCall.plan calendar gap) .empty = .ok t →
      calls'.foldlM (PlanCall.plan calendar gap) .empty = .ok t' →
      ∀ name, t.get? name = t'.get? name ∧ ∀ color, t.paths name color = t'.paths name color := by
  refine ⟨fun t c => ?_, fun before after name p => get?_afterCalls_append,
    fun calls name p => made_of_afterCalls, ?_⟩
  · rcases call_cases calendar gap t c with ⟨p, hp, hplan, hrun⟩ | ⟨_, p, _, hplan, hrun⟩ |
      ⟨err, hplan, hrun⟩
    · exact .inl ⟨p, t, hrun, hplan, hp⟩
    · exact .inl ⟨p, _, hrun, hplan, by simp [get?_insert]⟩
    · exact .inr ⟨err, hrun, hplan⟩
  · intro calls calls' t t' hperm hnames h h' name
    have hplans := get?_eq_of_perm hperm hnames h h'
    exact ⟨hplans name, paths_congr hplans name⟩

/-- The days from 3 April to 30 April 2020. -/
def april : WorkCalendar :=
  .ofWindow ⟨18355, by decide, by decide⟩ ⟨18382, by decide, by decide⟩
    ⟨18355, by decide, by decide⟩ .daily

def dig : PlanCall := ⟨"dig", some "2020/4/6", some "2020/4/8", none⟩

/-- From the end of digging to the end of the project. -/
def build : PlanCall := ⟨"build", some "dig's end", some "project's end", none⟩

def fence : PlanCall := ⟨"fence", some "project's start", some "2020/4/7", none⟩

/-- Building cannot be planned before digging is, digging is not planned anew by another range, and
fencing may be planned first or last. -/
theorem fence_first_or_last :
    (∃ err, (build.inPlace april 1).run .empty = .error err .empty) ∧
    (∃ p, (afterCalls april 1 [dig]).get? "dig" = some p ∧
      (afterCalls april 1 ([dig] ++ [⟨"dig", fence.range⟩])).get? "dig" = some p ∧
      ∃ range : PlanRange, range.Makes april 1 (afterCalls april 1 [dig]).days p) ∧
    ∃ t t', [dig, build, fence].foldlM (PlanCall.plan april 1) .empty = .ok t ∧
      [fence, dig, build].foldlM (PlanCall.plan april 1) .empty = .ok t' ∧
      ∀ name, t.get? name = t'.get? name ∧
        ∀ color, t.paths name color = t'.paths name color := by
  obtain ⟨hcall, hgrows, hmade, hconfluent⟩ := calls_confluent april 1
  refine ⟨?_, ?_, ?_⟩
  · have hfails : (build.plan april 1 .empty).isOk = false := by cbv
    rcases hcall .empty build with ⟨p, t', _, hplan, _⟩ | ⟨err, hrun, _⟩
    · rw [hplan] at hfails
      cases hfails
    · exact ⟨err, hrun⟩
  · have hsome : ((afterCalls april 1 [dig]).get? "dig").isSome = true := by cbv
    obtain ⟨p, hp⟩ := Option.isSome_iff_exists.mp hsome
    obtain ⟨_, range, _, _, _, _, hrange⟩ := hmade _ _ _ hp
    exact ⟨p, hp, hgrows _ _ _ _ hp, range, hrange⟩
  · have hok : ([dig, build, fence].foldlM (PlanCall.plan april 1) .empty).isOk = true := by cbv
    have hok' : ([fence, dig, build].foldlM (PlanCall.plan april 1) .empty).isOk = true := by cbv
    obtain ⟨t, ht⟩ := exists_of_isOk hok
    obtain ⟨t', ht'⟩ := exists_of_isOk hok'
    have hperm : [dig, build, fence].Perm [fence, dig, build] :=
      @List.perm_append_comm _ [dig, build] [fence]
    exact ⟨t, t', ht, ht', hconfluent _ _ t t' hperm (by decide) ht ht'⟩

end PlanTable

end GanttChart
