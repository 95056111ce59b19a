import GanttChart.Proofs.Calendar.Steps
import GanttChart.Proofs.Schedule.Solved

/-! # The gap between items

A day that an item takes from the end of another one comes after that end, and one that it takes
from a start comes before that start. Both are open days, and from one bound to the other there are
as many open days as the gap has days, whatever days are closed. -/

namespace GanttChart

variable {calendar : WorkCalendar} {gap : Int} {a : Assignment}

namespace DateExpr

/-- A day keeps the gap from the bound that an expression refers to, if it refers to another
item. -/
def KeepsOff (calendar : WorkCalendar) (gap : Int) (a : Assignment) (day : Day) : DateExpr → Prop
  | startOf name => ∃ p, a name = some p ∧ calendar.isOpen day = true ∧ day < p.start ∧
      ((calendar.openDays day p.start).ncard : Int) = gap
  | endOf name => ∃ p, a name = some p ∧ calendar.isOpen day = true ∧ p.finish < day ∧
      ((calendar.openDays p.finish day).ncard : Int) = gap
  | _ => True

theorem Denotes.keepsOff {expr : DateExpr} {day : Day} (h : expr.Denotes calendar gap a day)
    (hgap : 2 ≤ gap) : expr.KeepsOff calendar gap a day := by
  cases h with
  | startOf hp hd =>
    have hstep := WorkCalendar.addWholeDays_eq_ok_iff.mp hd
    obtain ⟨hopen, hlt, hcard⟩ := WorkCalendar.step?_backward hstep (by omega)
    exact ⟨_, hp, hopen, hlt, hcard.trans (Int.neg_neg gap)⟩
  | endOf hp hd =>
    have hstep := WorkCalendar.addWholeDays_eq_ok_iff.mp hd
    obtain ⟨hopen, hlt, hcard⟩ := WorkCalendar.step?_forward hstep hgap
    exact ⟨_, hp, hopen, hlt, hcard⟩
  | _ => trivial

end DateExpr

namespace PlanRange

/-- A day that a range takes from an expression: the start, or the end where no period gives it. -/
inductive Takes (r : PlanRange) (q : PlanDays) : DateExpr → Day → Prop
  | start {raw : String} {expr : DateExpr} (hraw : r.start = some raw)
      (hread : DateExpr.read? raw = some expr) : Takes r q expr q.start
  | finish {raw : String} {expr : DateExpr} (hperiod : r.period = none)
      (hraw : r.finish = some raw) (hread : DateExpr.read? raw = some expr) :
      Takes r q expr q.finish

theorem Solved.denotes {r : PlanRange} {q : PlanDays} {expr : DateExpr} {day : Day}
    (h : r.Solved calendar gap a q) (ht : r.Takes q expr day) : expr.Denotes calendar gap a day := by
  cases ht with
  | start hraw hread =>
    obtain ⟨_, _, hraw', hread', hdenotes⟩ := h.start
    cases hraw.symm.trans hraw'
    cases hread.symm.trans hread'
    exact hdenotes
  | finish hperiod hraw hread =>
    have hfinish := h.finish
    rw [hperiod] at hfinish
    obtain ⟨_, _, hraw', hread', hdenotes⟩ := hfinish
    cases hraw.symm.trans hraw'
    cases hread.symm.trans hread'
    exact hdenotes

end PlanRange

namespace Document

variable {d : Document} {config : ChartConfig} {s : Schedule}

/-- Every day that an item of a resolved schedule takes from another item keeps the gap from it,
when the gap is two days or longer. -/
theorem resolve_keeps_gap (h : d.resolve config = .ok s) (hgap : 2 ≤ config.dependencyGapDays) :
    ∃ a : Assignment, a.Solves s.calendar config.dependencyGapDays d.entries ∧
      List.Forall₂ (Entry.ShownAs a) d.entries s.items ∧
      ∀ e ∈ d.entries, ∃ r q, e.range? = some r ∧ a e.name = some q ∧
        ∀ expr day, r.Takes q expr day →
          expr.KeepsOff s.calendar config.dependencyGapDays a day := by
  obtain ⟨table, hr⟩ := resolve_eq_ok_iff.mp h
  refine ⟨table.days, hr.solves, hr.shownAs, fun e he => ?_⟩
  obtain ⟨r, q, hrange, hq, hsolved⟩ := hr.solves.solved e he
  exact ⟨r, q, hrange, hq, fun expr day ht => (hsolved.denotes ht).keepsOff hgap⟩

/-- In the relay, building starts on an open day after the planning, with one open day of both. -/
theorem relay_keeps_gap : ∃ s, relay.resolve .standard = .ok s ∧
    2 ≤ ChartConfig.standard.dependencyGapDays ∧
    ∃ a : Assignment, a.Solves s.calendar ChartConfig.standard.dependencyGapDays relay.entries ∧
      ∃ p q, a "plan" = some p ∧ a "build" = some q ∧ s.calendar.isOpen q.start = true ∧
        p.finish < q.start ∧ ((s.calendar.openDays p.finish q.start).ncard : Int) = 2 := by
  obtain ⟨s, hs⟩ := exists_resolve_relay
  have hgap : 2 ≤ ChartConfig.standard.dependencyGapDays := Int.le_refl 2
  obtain ⟨a, hsolves, _, hall⟩ := resolve_keeps_gap hs hgap
  have hbuild : Entry.task (.spanning "build" "plan's end" "2020/4/20") ∈ relay.entries := by
    simp [relay, april, entries]
  obtain ⟨r, q, hrange, hq, hkeeps⟩ := hall _ hbuild
  cases hrange
  have hread : DateExpr.read? "plan's end" = some (.endOf "plan") := by decide +kernel
  obtain ⟨p, hp, hopen, hlt, hcard⟩ := hkeeps _ _ (.start rfl hread)
  exact ⟨s, hs, hgap, a, hsolves, p, q, hp, hq, hopen, hlt, hcard⟩

end Document

end GanttChart
