import GanttChart.Actual
import GanttChart.Proofs.Calendar.Elapsed
import GanttChart.Proofs.Number.Quotients
import GanttChart.Proofs.Plan.Resolution

/-! # Where progress leads

The open days that have elapsed are a fraction of all days of the work. The end that follows from
them is not before the last of them, with one exception: a work of a single day that starts on a
closed day ends where it starts, since a step of one day does not move, while its one day is worked
later. -/

namespace GanttChart

open Outcome

namespace WorkCalendar

variable {c : WorkCalendar} {first last : Day} {total : Int}

/-! ## Elapsed days and the whole -/

theorem countOpen_nonneg (c : WorkCalendar) (a b : Day) : 0 ≤ c.countOpen a b := by
  rw [countOpen_eq_ncard]
  exact Int.natCast_nonneg _

theorem countOpen_lt (c : WorkCalendar) (a b : Day) :
    (c.countOpen a b).natAbs < Number.twoTo 53 := by
  have hrange : lastDayNumber - firstDayNumber < (Number.twoTo 53 : Int) := by decide +kernel
  by_cases hle : b ≤ a
  · rw [countOpen_of_le hle]
    exact Number.twoTo_pos 53
  · have hdays := Day.ncard_before (Int.le_of_lt (Int.not_le.mp hle))
    have hsub : c.openDaysBefore a b ⊆ Day.before a b := fun d hd => hd.2
    have hcard := Set.ncard_le_ncard hsub
    have hfirst := a.first_le
    have hlast := b.le_last
    rw [countOpen_eq_ncard, Int.natAbs_natCast]
    unfold Day.distance at hdays
    omega

/-- The whole that elapsed days are a fraction of: all of it is the days themselves, a smaller part
of it belongs to more days. -/
theorem wholeDays?_quotient {elapsed : Int} {p : Float} (hnonneg : 0 ≤ elapsed)
    (hlt : elapsed.natAbs < Number.twoTo 53) (hpos : 0 < p) (hle : p ≤ 1)
    (h : wholeDays? (Number.ofInt elapsed / p) = some total) :
    (p = 1 → total = elapsed) ∧ (p ≠ 1 → 0 < elapsed → elapsed < total) := by
  unfold wholeDays? at h
  obtain ⟨b, hb, htotal⟩ := Option.map_eq_some_iff.mp h
  obtain ⟨hnegative, hall, hpart⟩ := Number.ceil_quotient hnonneg hlt hpos hle hb
  rw [hnegative, if_neg Bool.false_ne_true] at htotal
  rw [← htotal]
  exact ⟨hall, hpart⟩

/-! ## What the end covers -/

/-- A step of at least as many days as have elapsed leaves none of them behind. -/
theorem le_of_step? {bound : Day} (h : c.step? first total = some last) (htwo : 2 ≤ total)
    (hle : c.countOpen first bound ≤ total) : ∀ d ∈ c.openDaysBefore first bound, d ≤ last := by
  intro d hd
  obtain ⟨hopen, -, hcard⟩ := step?_forward h htwo
  by_contra hlate
  have hlt : last < d := Int.not_le.mp hlate
  -- the days up to the end have elapsed, and the later day besides
  have hsub : c.openDays first last ⊆ c.openDaysBefore first bound \ {d} := by
    intro x hx
    refine ⟨⟨hx.1, hx.2.1, Int.lt_trans (Int.lt_of_le_of_lt hx.2.2 hlt) hd.2.2⟩, ?_⟩
    rintro rfl
    exact hlate hx.2.2
  have hless := Set.ncard_le_ncard hsub
  have hone := Set.ncard_sdiff_singleton_add_one hd
  rw [countOpen_eq_ncard] at hle
  omega

theorem openDaysBefore_eq_empty {bound : Day} (h : c.countOpen first bound = 0) :
    c.openDaysBefore first bound = ∅ := by
  rw [countOpen_eq_ncard] at h
  exact (Set.ncard_eq_zero).mp (Int.ofNat.inj h)

/-- If one open day has elapsed, it is the first day just if that one is open. -/
theorem forall_le_first_iff {bound : Day} (h : c.countOpen first bound = 1) :
    (∀ d ∈ c.openDaysBefore first bound, d ≤ first) ↔ c.isOpen first = true := by
  rw [countOpen_eq_ncard] at h
  obtain ⟨d, hd⟩ := Set.ncard_eq_one.mp (Int.ofNat.inj h)
  have hmem : d ∈ c.openDaysBefore first bound := hd ▸ Set.mem_singleton d
  constructor
  · intro hcovers
    have hsame : d = first := Day.ext (Int.le_antisymm (hcovers d hmem) hmem.2.1)
    exact hsame ▸ hmem.1
  · intro hopen x hx
    have hfirst : first ∈ c.openDaysBefore first bound :=
      ⟨hopen, Int.le_refl _, Int.lt_of_le_of_lt hmem.2.1 hmem.2.2⟩
    rw [hd, Set.mem_singleton_iff] at hx hfirst
    rw [hx, hfirst]
    exact Int.le_refl d.number

end WorkCalendar

namespace ActualRange

variable {calendar : WorkCalendar} {item context raw : String} {r : ActualRange} {first last : Day}
  {p : Float} {days : ActualDays}

/-! ## Where the end of a block comes from -/

theorem readProgress_eq_ok {raw : Option Scalar} {progress : Option Float}
    (h : readProgress raw = .ok progress) : raw = progress.map .number ∧
      ∀ p ∈ progress, Number.isFinite p = true := by
  rcases raw with _ | ⟨x⟩ | s
  · cases h
    exact ⟨rfl, nofun⟩
  · simp only [readProgress] at h
    split at h
    · rename_i hfinite
      cases h
      exact ⟨rfl, fun p hp => Option.some.inj hp ▸ hfinite⟩
    · cases h
  · cases h

theorem readDay_eq_some {raw : Option String} {d : Day} (h : readDay context raw = .ok (some d)) :
    ∃ text, raw = some text ∧ Day.read? text = some d := by
  cases raw with
  | none => cases h
  | some text =>
    simp only [readDay] at h
    split at h
    · rename_i hread
      cases h
      exact ⟨text, rfl, hread⟩
    · cases h

theorem readDay_eq_none {raw : Option String} (h : readDay context raw = .ok none) :
    raw = none := by
  cases raw with
  | none => rfl
  | some text =>
    simp only [readDay] at h
    split at h <;> cases h

/-- Where the end of a block comes from that starts on the given day. -/
inductive Ends (calendar : WorkCalendar) (item : String) (r : ActualRange) (first : Day) :
    Option Day → Prop
  | progress {p : Float} {last : Day} (h : r.progress = some (.number p))
      (hfinite : Number.isFinite p = true) (hpos : 0 < p)
      (hlast : finishByProgress calendar first p = .ok last) :
      Ends calendar item r first (some last)
  | period {days : Float} {last : Day} (hnone : ∀ p, r.progress = some (.number p) → ¬ 0 < p)
      (h : r.period = some (.number days))
      (hlast : calendar.addBusinessDays first days = .ok last) :
      Ends calendar item r first (some last)
  | written {finish : Option Day} (hnone : ∀ p, r.progress = some (.number p) → ¬ 0 < p)
      (h : r.period = none) (hfinish : readDay (item ++ ".actual.end") r.finish = .ok finish) :
      Ends calendar item r first finish

/-- Without a progress the period counts, and without a period what is written. -/
theorem ends_of_finishByPeriod {byPeriod finish : Option Day}
    (hnone : ∀ p, r.progress = some (.number p) → ¬ 0 < p)
    (hfinish : readDay (item ++ ".actual.end") r.finish = .ok finish)
    (h : finishByPeriod calendar first r.period = .ok byPeriod) :
    r.Ends calendar item first (byPeriod.or finish) := by
  cases hperiod : r.period with
  | none =>
    rw [hperiod] at h
    cases h
    exact .written hnone hperiod hfinish
  | some period =>
    rw [hperiod] at h
    obtain ⟨days, hdays, h⟩ := bind_eq_ok.mp h
    obtain ⟨last, hlast, h⟩ := bind_eq_ok.mp h
    cases h
    rw [PlanTable.periodDays_eq_ok hdays] at hperiod
    exact .period hnone hperiod hlast

/-- The days of a block: the start is what is written, and from a start there is an end. -/
theorem ends_of_resolve (h : r.resolve calendar item = .ok days) :
    readDay (item ++ ".actual.start") r.start = .ok days.start ∧
      ∀ first, days.start = some first → r.Ends calendar item first days.finish := by
  obtain ⟨start, hstart, h⟩ := bind_eq_ok.mp h
  obtain ⟨finish, hfinish, h⟩ := bind_eq_ok.mp h
  obtain ⟨completed, -, h⟩ := bind_eq_ok.mp h
  obtain ⟨progress, hnumber, h⟩ := bind_eq_ok.mp h
  obtain ⟨hprogress, hfinite⟩ := readProgress_eq_ok hnumber
  cases start with
  | none =>
    cases h
    exact ⟨hstart, fun _ heq => nomatch heq⟩
  | some first =>
    obtain ⟨byPeriod, hperiod, h⟩ := bind_eq_ok.mp h
    cases progress with
    | none =>
      cases h
      refine ⟨hstart, fun _ heq => Option.some.inj heq ▸ ?_⟩
      exact ends_of_finishByPeriod (fun p hp => nomatch hprogress.symm.trans hp) hfinish hperiod
    | some p =>
      dsimp only at h
      split at h
      · rename_i hpos
        obtain ⟨last, hlast, h⟩ := bind_eq_ok.mp h
        cases h
        refine ⟨hstart, fun _ heq => Option.some.inj heq ▸ ?_⟩
        exact .progress hprogress (hfinite p rfl) hpos hlast
      · rename_i hpos
        cases h
        refine ⟨hstart, fun _ heq => Option.some.inj heq ▸ ?_⟩
        refine ends_of_finishByPeriod (fun q hq => ?_) hfinish hperiod
        cases hprogress.symm.trans hq
        exact hpos

/-! ## The projected end -/

theorem finishByProgress_eq_ok (h : finishByProgress calendar first p = .ok last) :
    calendar.addBusinessDays first
      (Number.ofInt (calendar.countOpen first calendar.today) / p) = .ok last := by
  unfold finishByProgress at h
  dsimp only at h
  split at h
  · cases h
    assumption
  · cases h

/-- The end covers the elapsed days unless it is the closed start of a finished work of one day. -/
theorem covers_of_finishByProgress (hpos : 0 < p) (hle : p ≤ 1)
    (h : finishByProgress calendar first p = .ok last) :
    (∀ d ∈ calendar.openDaysBefore first calendar.today, d ≤ last) ↔
      ¬ (calendar.isClosed first = true ∧ calendar.countOpen first calendar.today = 1 ∧
        p = 1) := by
  obtain ⟨total, htotal, hstep⟩ :=
    WorkCalendar.addBusinessDays_eq_ok_iff.mp (finishByProgress_eq_ok h)
  have hnonneg := calendar.countOpen_nonneg first calendar.today
  obtain ⟨hall, hpart⟩ := WorkCalendar.wholeDays?_quotient hnonneg
    (calendar.countOpen_lt first calendar.today) hpos hle htotal
  by_cases hzero : calendar.countOpen first calendar.today = 0
  · refine iff_of_true ?_ fun hexcept => by omega
    rw [WorkCalendar.openDaysBefore_eq_empty hzero]
    exact fun d hd => hd.elim
  · have helapsed : calendar.countOpen first calendar.today ≤ total := by
      by_cases hone : p = 1
      · exact (hall hone).ge
      · exact (hpart hone (by omega)).le
    by_cases htwo : 2 ≤ total
    · refine iff_of_true (WorkCalendar.le_of_step? hstep htwo helapsed) ?_
      intro hexcept
      have htotal := hall hexcept.2.2
      omega
    · -- all of the work is the one elapsed day, and a step of one day does not move
      have hone : calendar.countOpen first calendar.today = 1 := by omega
      have hfull : p = 1 := by
        by_contra hne
        have hless := hpart hne (by omega)
        omega
      rw [WorkCalendar.step?_of_natAbs_le_one (by omega)] at hstep
      cases hstep
      rw [WorkCalendar.forall_le_first_iff hone]
      simp [WorkCalendar.isOpen, hone, hfull]

/-- Finished work of one day ends where it starts: its one day is a step that stays where it is. -/
theorem eq_first_of_finishByProgress (hone : calendar.countOpen first calendar.today = 1)
    (h : finishByProgress calendar first 1 = .ok last) : last = first := by
  obtain ⟨total, htotal, hstep⟩ :=
    WorkCalendar.addBusinessDays_eq_ok_iff.mp (finishByProgress_eq_ok h)
  obtain ⟨hall, -⟩ := WorkCalendar.wholeDays?_quotient (calendar.countOpen_nonneg first _)
    (calendar.countOpen_lt first _) (by decide +kernel) (by decide +kernel) htotal
  have htotal : total = 1 := (hall rfl).trans hone
  rw [WorkCalendar.step?_of_natAbs_le_one (by omega)] at hstep
  exact (Option.some.inj hstep).symm

/-- A block with a start and a progress above zero ends where the progress leads. -/
theorem finish_of_resolve (h : r.resolve calendar item = .ok days) (hstart : r.start = some raw)
    (hread : Day.read? raw = some first) (hprogress : r.progress = some (.number p))
    (hpos : 0 < p) :
    ∃ last, days.finish = some last ∧ finishByProgress calendar first p = .ok last := by
  obtain ⟨hfirst, hends⟩ := ends_of_resolve h
  rw [hstart, readDay, hread] at hfirst
  have hends := hends first (Except.ok.inj hfirst).symm
  generalize days.finish = finish at hends
  cases hends with
  | progress hp _ _ hlast =>
    cases hprogress.symm.trans hp
    exact ⟨_, rfl, hlast⟩
  | period hnone _ _ => exact absurd hpos (hnone p hprogress)
  | written hnone _ _ => exact absurd hpos (hnone p hprogress)

/-- The end that a progress above zero and not above one leads to is not before an open day that has
elapsed since the start, with one exception: the start is a closed day, one open day has elapsed
and the work is finished. Then the end is the start, because a step of one business day stays where
it is, and the open day lies after it. -/
theorem progress_covers_elapsed (h : r.resolve calendar item = .ok days)
    (hstart : r.start = some raw) (hread : Day.read? raw = some first)
    (hprogress : r.progress = some (.number p)) (hpos : 0 < p) (hle : p ≤ 1) :
    ∃ last, days.finish = some last ∧
      ((∀ d, calendar.isOpen d = true → first ≤ d → d < calendar.today → d ≤ last) ↔
        ¬ (calendar.isClosed first = true ∧ calendar.countOpen first calendar.today = 1 ∧
          p = 1)) ∧
      (calendar.isClosed first = true ∧ calendar.countOpen first calendar.today = 1 ∧ p = 1 →
        last = first ∧
          ∀ d, calendar.isOpen d = true → first ≤ d → d < calendar.today → last < d) := by
  obtain ⟨last, hfinish, hlast⟩ := finish_of_resolve h hstart hread hprogress hpos
  refine ⟨last, hfinish, ?_, ?_⟩
  · rw [← covers_of_finishByProgress hpos hle hlast]
    constructor
    · intro hcovers d hd
      exact hcovers d hd.1 hd.2.1 hd.2.2
    · intro hcovers d hopen hfrom hbefore
      exact hcovers d ⟨hopen, hfrom, hbefore⟩
  · intro hexcept
    obtain ⟨hclosed, hone, rfl⟩ := hexcept
    have hsame : last = first := eq_first_of_finishByProgress hone hlast
    refine ⟨hsame, fun d hopen hfrom _ => ?_⟩
    -- the open day is not the start, which is closed
    have hne : d ≠ first := by
      intro heq
      rw [heq, WorkCalendar.isOpen, hclosed] at hopen
      cases hopen
    have hnumbers : d.number ≠ first.number := fun heq => hne (Day.ext heq)
    rw [hsame, Day.lt_def]
    rw [Day.le_def] at hfrom
    omega

/-- Work begun on the Saturday of the closed weekend. -/
def begun (p : Float) : ActualRange := ⟨some "2020/4/4", none, none, none, some (.number p)⟩

/-- The calendar of that weekend on a later day. -/
def afterWeekend (today : Day) : WorkCalendar := { WorkCalendar.weekendOff with today }

/-- The Tuesday after it. -/
def tuesday : Day := ⟨18359, by decide, by decide⟩

/-- On the Wednesday two open days have elapsed, and half of the work covers them. -/
theorem half_done_covers_elapsed :
    Day.read? "2020/4/4" = some WorkCalendar.saturday ∧ (0 : Float) < 0.5 ∧ (0.5 : Float) ≤ 1 ∧
    ∃ days last, (begun 0.5).resolve (afterWeekend WorkCalendar.wednesday) "paint" = .ok days ∧
      days.finish = some last ∧
      ∀ d, (afterWeekend WorkCalendar.wednesday).isOpen d = true → WorkCalendar.saturday ≤ d →
        d < WorkCalendar.wednesday → d ≤ last := by
  have hread : Day.read? "2020/4/4" = some WorkCalendar.saturday := by decide +kernel
  have hpos : (0 : Float) < 0.5 := by decide +kernel
  have hle : (0.5 : Float) ≤ 1 := by decide +kernel
  have hcount : (afterWeekend WorkCalendar.wednesday).countOpen WorkCalendar.saturday
      WorkCalendar.wednesday = 2 := by decide +kernel
  obtain ⟨days, hdays⟩ := exists_of_isOk
    (show ((begun 0.5).resolve (afterWeekend WorkCalendar.wednesday) "paint").isOk = true by
      decide +kernel)
  obtain ⟨last, hfinish, hcovers, -⟩ := progress_covers_elapsed hdays rfl hread rfl hpos hle
  refine ⟨hread, hpos, hle, days, last, hdays, hfinish, hcovers.mpr ?_⟩
  intro hexcept
  have hone : (2 : Int) = 1 := hcount.symm.trans hexcept.2.1
  omega

/-- On the Tuesday one open day has elapsed, the Monday; finished work of that one day ends on the
closed Saturday it began on. -/
theorem finished_work_leaves_elapsed :
    Day.read? "2020/4/4" = some WorkCalendar.saturday ∧ WorkCalendar.saturday ≤ tuesday ∧
    (0 : Float) < 1 ∧ (1 : Float) ≤ 1 ∧
    ∃ days last, (begun 1).resolve (afterWeekend tuesday) "paint" = .ok days ∧
      days.finish = some last ∧
      ¬ ∀ d, (afterWeekend tuesday).isOpen d = true → WorkCalendar.saturday ≤ d →
        d < tuesday → d ≤ last := by
  have hread : Day.read? "2020/4/4" = some WorkCalendar.saturday := by decide +kernel
  have hpos : (0 : Float) < 1 := by decide +kernel
  have hle : (1 : Float) ≤ 1 := by decide +kernel
  have hend : ((begun 1).resolve (afterWeekend tuesday) "paint").toOption.bind (·.finish) =
      some WorkCalendar.saturday := by decide +kernel
  obtain ⟨days, hdays⟩ := exists_of_isOk
    (show ((begun 1).resolve (afterWeekend tuesday) "paint").isOk = true by decide +kernel)
  rw [hdays] at hend
  refine ⟨hread, by decide, hpos, hle, days, WorkCalendar.saturday, hdays, hend, ?_⟩
  intro hcovers
  have hmonday := hcovers WorkCalendar.monday (by decide +kernel) (by decide) (by decide)
  exact absurd hmonday (by decide)

end ActualRange

end GanttChart
