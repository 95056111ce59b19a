/-! Days. A day is a number counted from 1970-01-01 inside the range of days this library can
write down, the years -262143 to 262142. The range is part of the type: stepping off either end
gives no day. -/

namespace GanttChart

/-- The number of -262143-01-01. -/
def firstDayNumber : Int := -96465292

/-- The number of 262142-12-31. -/
def lastDayNumber : Int := 95026236

structure Day where
  number : Int
  first_le : firstDayNumber ≤ number
  le_last : number ≤ lastDayNumber
  deriving DecidableEq

namespace Day

@[ext] theorem ext {a b : Day} (h : a.number = b.number) : a = b := by
  cases a; cases b; simp_all

instance : LE Day := ⟨fun a b => a.number ≤ b.number⟩
instance : LT Day := ⟨fun a b => a.number < b.number⟩

theorem le_def {a b : Day} : a ≤ b ↔ a.number ≤ b.number := Iff.rfl
theorem lt_def {a b : Day} : a < b ↔ a.number < b.number := Iff.rfl

instance (a b : Day) : Decidable (a ≤ b) := inferInstanceAs (Decidable (a.number ≤ b.number))
instance (a b : Day) : Decidable (a < b) := inferInstanceAs (Decidable (a.number < b.number))

instance : Ord Day := ⟨fun a b => compare a.number b.number⟩

instance : Std.TransOrd Day where
  eq_swap := fun {_ _} => @Std.OrientedCmp.eq_swap Int compare _ _ _
  isLE_trans h k := @Std.TransCmp.isLE_trans Int compare _ _ _ _ h k

instance : Std.LawfulEqOrd Day where
  eq_of_compare h := ext (@Std.LawfulEqCmp.eq_of_compare Int compare _ _ _ h)
  compare_self := fun {_} => @Std.ReflCmp.compare_self Int compare _ _

/-- The day with the given number, when there is one. -/
def ofNumber? (n : Int) : Option Day :=
  if h : firstDayNumber ≤ n ∧ n ≤ lastDayNumber then some ⟨n, h.1, h.2⟩ else none

/-- The day `n` days later, or earlier for a negative `n`. -/
def plus? (d : Day) (n : Int) : Option Day := ofNumber? (d.number + n)

/-- How many days `b` comes after `a`. -/
def distance (a b : Day) : Int := b.number - a.number

@[simp] theorem ofNumber?_number (d : Day) : ofNumber? d.number = some d := by
  simp [ofNumber?, d.first_le, d.le_last]

theorem ofNumber?_eq_some {n : Int} {d : Day} : ofNumber? n = some d ↔ d.number = n := by
  constructor
  · intro h
    simp only [ofNumber?] at h
    split at h
    · cases h; rfl
    · cases h
  · rintro rfl; simp

theorem ofNumber?_eq_none {n : Int} :
    ofNumber? n = none ↔ n < firstDayNumber ∨ lastDayNumber < n := by
  simp only [ofNumber?]
  split <;> simp <;> omega

theorem plus?_eq_some {d e : Day} {n : Int} : d.plus? n = some e ↔ e.number = d.number + n :=
  ofNumber?_eq_some

/-- The days from `first` to `last`, both included, in order. A day is listed only while a day
follows it in the range, so the very last day of the range is never listed. -/
def span (first last : Day) : List Day :=
  (List.range (min (last.number + 1) lastDayNumber - first.number).toNat).filterMap fun i : Nat =>
    first.plus? i

theorem mem_span {d first last : Day} :
    d ∈ span first last ↔ first ≤ d ∧ d ≤ last ∧ d.number < lastDayNumber := by
  simp only [span, List.mem_filterMap, List.mem_range, plus?_eq_some, le_def]
  constructor
  · rintro ⟨i, hi, hd⟩; omega
  · rintro ⟨h1, h2, h3⟩
    exact ⟨(d.number - first.number).toNat, by omega, by omega⟩

end Day

inductive Heading where
  | forward
  | backward
  deriving DecidableEq

namespace Day

/-- The neighbouring day in the given direction. -/
def step? (d : Day) : Heading → Option Day
  | .forward => d.plus? 1
  | .backward => d.plus? (-1)

/-- How many days lie beyond `d` in the given direction. -/
def room (d : Day) : Heading → Nat
  | .forward => (lastDayNumber - d.number).toNat
  | .backward => (d.number - firstDayNumber).toNat

theorem room_step? {d e : Day} {way : Heading} (h : d.step? way = some e) :
    e.room way < d.room way := by
  have hd := d.first_le
  have hl := d.le_last
  have he := e.first_le
  have hel := e.le_last
  cases way <;> simp only [step?, plus?_eq_some] at h <;> simp only [room] <;> omega

end Day

end GanttChart
