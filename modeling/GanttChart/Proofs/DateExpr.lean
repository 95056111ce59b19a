import GanttChart.DateExpr
import GanttChart.Proofs.Day.Text

/-! # Date expressions

A text is read as a literal date exactly when it is a date. Everything else that can be read refers
to a bound of the project or of an item, and a bound of an item is read from nothing but its name
with the suffix for that bound. -/

namespace GanttChart

namespace DateExpr

variable {s : String} {d : Day} {expr : DateExpr}

/-- No date ends like a reference. -/
theorem before?_eq_none_of_read? {tail : List Char} {last : Char} (h : Day.read? s = some d)
    (hlast : tail.getLast? = some last) (hdigit : last.isDigit = false) :
    Text.before? tail (Text.trim s.toList) = none := by
  rw [Option.eq_none_iff_forall_ne_some]
  intro front hfront
  have hne : tail ≠ [] := List.ne_nil_of_mem (List.mem_of_getLast? hlast)
  obtain ⟨c, hc, hdate⟩ := Day.getLast?_of_read? h
  rw [Text.before?_eq_some_iff.mp hfront, List.getLast?_append_of_ne_nil _ hne, hlast] at hc
  rw [Option.some.inj hc, hdate] at hdigit
  cases hdigit

theorem read?_trim (s : String) : Day.read? (String.ofList (Text.trim s.toList)) = Day.read? s := by
  rw [Day.read?, Day.read?, String.toList_ofList, Text.trim_trim]

theorem read?_of_read? (h : Day.read? s = some d) : read? s = some (literal d) := by
  have hstart : Text.before? startSuffix (Text.trim s.toList) = none :=
    before?_eq_none_of_read? h rfl rfl
  have hend : Text.before? endSuffix (Text.trim s.toList) = none :=
    before?_eq_none_of_read? h rfl rfl
  simp only [read?, hstart, hend, read?_trim, h, Option.map_some]

/-- An expression that names no date but a bound. -/
def IsReference : DateExpr → Prop
  | literal _ => False
  | _ => True

/-- What can be read is no date exactly when it is a reference. -/
theorem isReference_iff (h : read? s = some expr) : expr.IsReference ↔ Day.read? s = none := by
  constructor
  · intro href
    rw [Option.eq_none_iff_forall_ne_some]
    intro d hd
    cases h.symm.trans (read?_of_read? hd)
    exact href
  · intro hnone
    cases expr with
    | literal d =>
      simp only [read?, read?_trim, hnone, Option.map_none] at h
      split at h
      · split at h <;> cases h
      · split at h
        · split at h <;> cases h
        · cases h
    | _ => trivial

end DateExpr

/-! ## References to items -/

/-- One of the two days of an item to which an expression may refer. -/
inductive Bound where
  | start
  | finish
  deriving DecidableEq

namespace Bound

variable {b : Bound} {name s : String} {front : List Char}

/-- How a reference ends. -/
def suffix : Bound → List Char
  | start => DateExpr.startSuffix
  | finish => DateExpr.endSuffix

def of : Bound → String → DateExpr
  | start => .startOf
  | finish => .endOf

/-- The text that refers to an item. -/
def reference (b : Bound) (name : String) : String := name ++ String.ofList b.suffix

@[simp] theorem toList_reference (b : Bound) (name : String) :
    (b.reference name).toList = name.toList ++ b.suffix := by
  simp [reference]

theorem suffix_ne (front front' : List Char) :
    front ++ DateExpr.startSuffix ≠ front' ++ DateExpr.endSuffix := by
  intro h
  have hlast := congrArg List.getLast? h
  rw [List.getLast?_append_of_ne_nil _ (by decide), List.getLast?_append_of_ne_nil _ (by decide)]
    at hlast
  exact absurd hlast (by decide)

theorem trim_append_suffix (b : Bound) (h : ∀ c ∈ front, Text.isBlank c = false) :
    Text.trim (front ++ b.suffix) = front ++ b.suffix := by
  apply Text.trim_of_ends
  · intro c hc
    cases front with
    | nil => cases b <;> cases hc <;> decide
    | cons c' front =>
      cases hc
      exact h c List.mem_cons_self
  · intro c hc
    cases b with
    | start =>
      rw [List.getLast?_append_of_ne_nil _ (by decide)] at hc
      cases hc
      decide
    | finish =>
      rw [List.getLast?_append_of_ne_nil _ (by decide)] at hc
      cases hc
      decide

end Bound

namespace DateExpr

variable {name s : String} {front : List Char}

theorem isAcceptable_of_trim (b : Bound) (h : Text.trim s.toList = front ++ b.suffix) :
    isAcceptable s = true := by
  have hbefore : Text.before? b.suffix (Text.trim s.toList) = some front :=
    Text.before?_eq_some_iff.mpr h
  cases b with
  | start => simp [isAcceptable, show Text.before? startSuffix _ = some front from hbefore]
  | finish => simp [isAcceptable, show Text.before? endSuffix _ = some front from hbefore]

theorem read?_of_trim (b : Bound) (hname : name ≠ projectName)
    (h : Text.trim s.toList = name.toList ++ b.suffix) : read? s = some (b.of name) := by
  have hbefore : Text.before? b.suffix (Text.trim s.toList) = some name.toList :=
    Text.before?_eq_some_iff.mpr h
  cases b with
  | start =>
    have hstart : Text.before? startSuffix (Text.trim s.toList) = some name.toList := hbefore
    simp [read?, hstart, hname, Bound.of]
  | finish =>
    have hstart : Text.before? startSuffix (Text.trim s.toList) = none := by
      rw [Option.eq_none_iff_forall_ne_some]
      intro front hfront
      exact Bound.suffix_ne _ _ ((Text.before?_eq_some_iff.mp hfront).symm.trans h)
    have hfinish : Text.before? endSuffix (Text.trim s.toList) = some name.toList := hbefore
    simp [read?, hstart, hfinish, hname, Bound.of]

theorem read?_reference (b : Bound) (hname : name ≠ projectName)
    (h : ∀ c ∈ name.toList, Text.isBlank c = false) :
    read? (b.reference name) = some (b.of name) :=
  read?_of_trim b hname (by rw [Bound.toList_reference, Bound.trim_append_suffix b h])

theorem trim_of_read? {b : Bound} (h : read? s = some (b.of name)) :
    Text.trim s.toList = name.toList ++ b.suffix := by
  rw [read?] at h
  cases hstart : Text.before? startSuffix (Text.trim s.toList) with
  | some front =>
    simp only [hstart, Option.some.injEq] at h
    split at h
    · cases b <;> cases h
    · cases b <;> cases h
      simpa [Bound.suffix] using Text.before?_eq_some_iff.mp hstart
  | none =>
    cases hfinish : Text.before? endSuffix (Text.trim s.toList) with
    | some front =>
      simp only [hstart, hfinish, Option.some.injEq] at h
      split at h
      · cases b <;> cases h
      · cases b <;> cases h
        simpa [Bound.suffix] using Text.before?_eq_some_iff.mp hfinish
    | none =>
      simp only [hstart, hfinish, Option.map_eq_some_iff] at h
      obtain ⟨d, _, hd⟩ := h
      cases b <;> cases hd

end DateExpr

end GanttChart
