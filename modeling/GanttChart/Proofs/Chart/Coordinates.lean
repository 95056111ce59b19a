import GanttChart.Chart.Layout
import GanttChart.Proofs.Number.Arithmetic

/-! # Columns and rows

A coordinate is a whole number of column widths or row heights, rounded a few times. What rounding
changes is so little that columns and rows keep their order, and that the middle of a column stays
between its sides. -/

namespace GanttChart.Layout

open Number

variable {l : Layout} {d e : Day} {u v w : ℚ} {m n : ℕ}

/-- What lets coordinates keep their order: half of a column is not rounded to nothing, rows have a
height, and there are not so many of them that rounding makes two of them one. -/
structure Spacious (l : Layout) (rows : ℕ) : Prop where
  column : 0 < l.columnWidth / 2
  row : 0 < l.rowHeight
  count : rows ≤ 2 ^ 45

/-! ## Columns -/

theorem natAbs_distance_le (a b : Day) : (a.distance b).natAbs ≤ twoTo 28 := by
  have ha := a.first_le
  have ha' := a.le_last
  have hb := b.first_le
  have hb' := b.le_last
  have htwo : twoTo 28 = 268435456 := rfl
  unfold firstDayNumber at ha hb
  unfold lastDayNumber at ha' hb'
  unfold Day.distance
  omega

theorem abs_mul_distance_le (hw : 0 < w) (a b : Day) : |w * a.distance b| ≤ w * 2 ^ 28 := by
  rw [abs_mul, abs_of_pos hw]
  refine mul_le_mul_of_nonneg_left ?_ hw.le
  have hdistance := natAbs_distance_le a b
  rw [← Int.cast_abs, Int.abs_eq_natAbs]
  exact_mod_cast hdistance

theorem x_near (hw : value? l.columnWidth = some w) (hpos : 0 < w) (h : value? (l.x d) = some v) :
    |v - w * l.start.distance d| ≤ w / 2 ^ 20 := by
  have hsmall : (l.start.distance d).natAbs < twoTo 53 :=
    (natAbs_distance_le _ _).trans_lt (by decide)
  obtain ⟨a, ha, hnear⟩ := mul_ofInt_near hsmall h
  cases hw.symm.trans ha
  have hdistance := abs_mul_distance_le hpos l.start d
  linarith

/-- The middle of a column is between its sides. -/
theorem middle_bounds (hhalf : 0 < l.columnWidth / 2)
    (h : value? (l.x d + l.columnWidth / 2) = some v) :
    ∃ w, value? l.columnWidth = some w ∧ 0 < w ∧ w * l.start.distance d + w / 3 ≤ v ∧
      v ≤ w * l.start.distance d + 3 / 4 * w := by
  obtain ⟨a, b, ha, hb, hnear⟩ := add_near h
  have hpos : 0 < b := (lt_iff value?_zero hb).mp hhalf
  obtain ⟨w, hw, hlow, hhigh⟩ := half_near hpos hb
  have hwpos : 0 < w := by linarith
  have hdistance := abs_le.mp (abs_mul_distance_le hwpos l.start d)
  have hx := abs_le.mp (x_near hw hwpos ha)
  have hsum : |a + b| ≤ w * 2 ^ 29 := abs_le.mpr ⟨by linarith, by linarith⟩
  have hnear := abs_le.mp (hnear.trans (div_le_div_of_nonneg_right hsum (by positivity)))
  exact ⟨w, hw, hwpos, by linarith, by linarith⟩

theorem right_near (hw : value? l.columnWidth = some w) (hpos : 0 < w)
    (h : value? (l.x d + l.columnWidth) = some v) :
    |v - (w * l.start.distance d + w)| ≤ w / 8 := by
  obtain ⟨a, b, ha, hb, hnear⟩ := add_near h
  cases hw.symm.trans hb
  have hdistance := abs_le.mp (abs_mul_distance_le hpos l.start d)
  have hx := abs_le.mp (x_near hw hpos ha)
  have hsum : |a + w| ≤ w * 2 ^ 29 := abs_le.mpr ⟨by linarith, by linarith⟩
  have hnear := abs_le.mp (hnear.trans (div_le_div_of_nonneg_right hsum (by positivity)))
  exact abs_le.mpr ⟨by linarith, by linarith⟩

theorem mul_distance_add_le (hw : 0 < w) {a : Day} (hlt : d < e) :
    w * a.distance d + w ≤ w * a.distance e := by
  have hnumbers : d.number < e.number := hlt
  have hstep : a.distance d + 1 ≤ a.distance e := by
    unfold Day.distance
    omega
  have hcast : (a.distance d : ℚ) + 1 ≤ a.distance e := by exact_mod_cast hstep
  linarith [mul_le_mul_of_nonneg_left hcast hw.le]

section

variable (hhalf : 0 < l.columnWidth / 2) (hmiddle : isFinite (l.x d + l.columnWidth / 2) = true)
include hhalf hmiddle

/-- A column is wholly left of a later one. -/
theorem middle_lt_x (hfinite : isFinite (l.x e) = true) (hlt : d < e) :
    l.x d + l.columnWidth / 2 < l.x e := by
  obtain ⟨v, hv⟩ := exists_value? hmiddle
  obtain ⟨v', hv'⟩ := exists_value? hfinite
  obtain ⟨w, hw, hpos, _, hhigh⟩ := middle_bounds hhalf hv
  have hx := abs_le.mp (x_near hw hpos hv')
  have hstep := mul_distance_add_le hpos (a := l.start) hlt
  rw [lt_iff hv hv']
  linarith

theorem right_lt_middle (hfinite : isFinite (l.x e + l.columnWidth) = true) (hlt : e < d) :
    l.x e + l.columnWidth < l.x d + l.columnWidth / 2 := by
  obtain ⟨v, hv⟩ := exists_value? hmiddle
  obtain ⟨v', hv'⟩ := exists_value? hfinite
  obtain ⟨w, hw, hpos, hlow, _⟩ := middle_bounds hhalf hv
  have hright := abs_le.mp (right_near hw hpos hv')
  have hstep := mul_distance_add_le hpos (a := l.start) hlt
  rw [lt_iff hv' hv]
  linarith

theorem middle_lt_right (hfinite : isFinite (l.x d + l.columnWidth) = true) :
    l.x d + l.columnWidth / 2 < l.x d + l.columnWidth := by
  obtain ⟨v, hv⟩ := exists_value? hmiddle
  obtain ⟨v', hv'⟩ := exists_value? hfinite
  obtain ⟨w, hw, hpos, _, hhigh⟩ := middle_bounds hhalf hv
  have hright := abs_le.mp (right_near hw hpos hv')
  rw [lt_iff hv hv']
  linarith

end

/-! ## Rows -/

/-- The layout of a schedule has a header of three rows at most. -/
theorem headerRows_ofSchedule_le (chart : ChartConfig) (s : Schedule) :
    (ofSchedule chart s).headerRows ≤ 3 := by
  show headerRowsOf s.calendar.scale ≤ 3
  cases s.calendar.scale <;> decide

/-- The rows above a row, those of the header and two for each, take a number of heights. -/
def heightsAbove (l : Layout) (n : ℕ) : ℚ := l.headerRows + 1 + 2 * n

theorem heightsAbove_add_le (l : Layout) (hlt : m < n) :
    l.heightsAbove m + 2 ≤ l.heightsAbove n := by
  have hcast : (m : ℚ) + 1 ≤ n := by exact_mod_cast hlt
  unfold heightsAbove
  linarith

theorem mul_heightsAbove_bounds (hheader : l.headerRows ≤ 3) (hpos : 0 < u) (hn : n ≤ 2 ^ 45) :
    u ≤ u * l.heightsAbove n ∧ u * l.heightsAbove n ≤ u * 2 ^ 47 := by
  have hn : (n : ℚ) ≤ 2 ^ 45 := by exact_mod_cast hn
  have hheader : (l.headerRows : ℚ) ≤ 3 := by exact_mod_cast hheader
  have hone : 1 ≤ l.heightsAbove n := by
    unfold heightsAbove
    have hrows : (0 : ℚ) ≤ n := Nat.cast_nonneg n
    have hheads : (0 : ℚ) ≤ l.headerRows := Nat.cast_nonneg _
    linarith
  constructor
  · exact le_mul_of_one_le_right hpos.le hone
  · refine mul_le_mul_of_nonneg_left ?_ hpos.le
    unfold heightsAbove
    linarith

theorem top_near (hheader : l.headerRows ≤ 3) (hu : value? l.rowHeight = some u) (hpos : 0 < u)
    (h : value? (l.headerHeight + l.rowHeight) = some v) :
    |v - (u * l.headerRows + u)| ≤ u / 2 ^ 20 := by
  obtain ⟨header, u', hvalue, hu', hnear⟩ := add_near h
  cases hu.symm.trans hu'
  obtain ⟨u', hu', hheaderNear⟩ := mul_ofInt_near (n := l.headerRows)
    (by rw [Int.natAbs_natCast]; exact hheader.trans_lt (by decide)) hvalue
  cases hu.symm.trans hu'
  have hheader : (l.headerRows : ℚ) ≤ 3 := by exact_mod_cast hheader
  have hlow : 0 ≤ u * l.headerRows := mul_nonneg hpos.le (Nat.cast_nonneg _)
  have hhigh : u * l.headerRows ≤ u * 3 := mul_le_mul_of_nonneg_left hheader hpos.le
  rw [Int.cast_natCast, abs_of_nonneg hlow] at hheaderNear
  have hheaderNear := abs_le.mp hheaderNear
  rw [abs_of_nonneg (by linarith : 0 ≤ header + u)] at hnear
  have hnear := abs_le.mp hnear
  exact abs_le.mpr ⟨by linarith, by linarith⟩

theorem pairs_near (hu : value? l.rowHeight = some u) (hpos : 0 < u) (hn : n ≤ 2 ^ 45)
    (h : value? (2 * l.rowHeight * ofInt n) = some v) : |v - 2 * (u * n)| ≤ u / 2 ^ 5 := by
  obtain ⟨pair, hpair, hnear⟩ := mul_ofInt_near (n := n)
    (by rw [Int.natAbs_natCast]; exact hn.trans_lt (by decide)) h
  obtain ⟨u', hu', hpairNear⟩ := two_mul_near hpair
  cases hu.symm.trans hu'
  have hn : (n : ℚ) ≤ 2 ^ 45 := by exact_mod_cast hn
  have hrows : (0 : ℚ) ≤ n := Nat.cast_nonneg n
  have hlow : 0 ≤ u * n := mul_nonneg hpos.le hrows
  have hhigh : u * n ≤ u * 2 ^ 45 := mul_le_mul_of_nonneg_left hn hpos.le
  rw [abs_of_pos (by linarith : 0 < 2 * u)] at hpairNear
  -- the error of a pair counts once for each pair
  have hpairs : |pair * n - 2 * (u * n)| ≤ u / 2 ^ 7 := by
    rw [show pair * n - 2 * (u * n) = (pair - 2 * u) * n by ring, abs_mul, abs_of_nonneg hrows]
    calc |pair - 2 * u| * n ≤ 2 * u / 2 ^ 53 * 2 ^ 45 :=
          mul_le_mul hpairNear hn hrows (by positivity)
      _ = u / 2 ^ 7 := by ring
  have hpairs := abs_le.mp hpairs
  have hlarge : |pair * n| ≤ u * 2 ^ 47 := abs_le.mpr ⟨by linarith, by linarith⟩
  rw [Int.cast_natCast] at hnear
  have hnear := abs_le.mp (hnear.trans (div_le_div_of_nonneg_right hlarge (by positivity)))
  exact abs_le.mpr ⟨by linarith, by linarith⟩

/-- Where a row begins, for a header of three rows at most. -/
theorem rowY_near (hheader : l.headerRows ≤ 3) (hheight : 0 < l.rowHeight) (hn : n ≤ 2 ^ 45)
    (h : value? (l.rowY n) = some v) :
    ∃ u, value? l.rowHeight = some u ∧ 0 < u ∧ |v - u * l.heightsAbove n| ≤ u / 8 := by
  obtain ⟨top, pairs, htop, hpairs, hnear⟩ := add_near h
  obtain ⟨_, u, _, hu, _⟩ := add_near htop
  have hpos : 0 < u := (lt_iff value?_zero hu).mp hheight
  have hexact : u * l.heightsAbove n = u * l.headerRows + u + 2 * (u * n) := by
    unfold heightsAbove
    ring
  obtain ⟨hlow, hhigh⟩ := mul_heightsAbove_bounds hheader hpos hn
  have htop := abs_le.mp (top_near hheader hu hpos htop)
  have hpairs := abs_le.mp (pairs_near hu hpos hn hpairs)
  have hlarge : |top + pairs| ≤ u * 2 ^ 48 := abs_le.mpr ⟨by linarith, by linarith⟩
  have hnear := abs_le.mp (hnear.trans (div_le_div_of_nonneg_right hlarge (by positivity)))
  exact ⟨u, hu, hpos, abs_le.mpr ⟨by linarith, by linarith⟩⟩

section

variable {rows : ℕ} (hl : l.Spacious rows) (hheader : l.headerRows ≤ 3) (hm : m < rows)
  (hn : n < rows)
include hl hheader hm hn

theorem rowY_lt_rowY (hfinite : isFinite (l.rowY m) = true) (hfinite' : isFinite (l.rowY n) = true)
    (hlt : m < n) : l.rowY m < l.rowY n := by
  obtain ⟨v, hv⟩ := exists_value? hfinite
  obtain ⟨v', hv'⟩ := exists_value? hfinite'
  obtain ⟨u, hu, hpos, hnear⟩ := rowY_near hheader hl.row (hm.le.trans hl.count) hv
  obtain ⟨u', hu', _, hnear'⟩ := rowY_near hheader hl.row (hn.le.trans hl.count) hv'
  cases hu.symm.trans hu'
  have hstep := mul_le_mul_of_nonneg_left (l.heightsAbove_add_le hlt) hpos.le
  have hnear := abs_le.mp hnear
  have hnear' := abs_le.mp hnear'
  rw [lt_iff hv hv']
  linarith

/-- The body of a row is above the middle of every later one. -/
theorem bottom_lt_middle (hfinite : isFinite (l.rowY m + l.rowHeight) = true)
    (hfinite' : isFinite (l.rowY n + l.rowHeight / 2) = true) (hlt : m < n) :
    l.rowY m + l.rowHeight < l.rowY n + l.rowHeight / 2 := by
  obtain ⟨v, hv⟩ := exists_value? hfinite
  obtain ⟨v', hv'⟩ := exists_value? hfinite'
  obtain ⟨y, u, hy, hu, hsum⟩ := add_near hv
  obtain ⟨y', half, hy', hhalf, hsum'⟩ := add_near hv'
  obtain ⟨u', hu', hpos, hnear⟩ := rowY_near hheader hl.row (hm.le.trans hl.count) hy
  cases hu.symm.trans hu'
  obtain ⟨u', hu', _, hnear'⟩ := rowY_near hheader hl.row (hn.le.trans hl.count) hy'
  cases hu.symm.trans hu'
  have hhalf := half_nonneg hu hpos.le hhalf
  have hstep := mul_le_mul_of_nonneg_left (l.heightsAbove_add_le hlt) hpos.le
  obtain ⟨hlow, hhigh⟩ := mul_heightsAbove_bounds hheader hpos (hm.le.trans hl.count)
  obtain ⟨hlow', hhigh'⟩ := mul_heightsAbove_bounds hheader hpos (hn.le.trans hl.count)
  have hnear := abs_le.mp hnear
  have hnear' := abs_le.mp hnear'
  rw [abs_of_nonneg (by linarith : 0 ≤ y + u)] at hsum
  rw [abs_of_nonneg (by linarith : 0 ≤ y' + half)] at hsum'
  have hsum := abs_le.mp hsum
  have hsum' := abs_le.mp hsum'
  rw [lt_iff hv hv']
  linarith

end

end GanttChart.Layout
