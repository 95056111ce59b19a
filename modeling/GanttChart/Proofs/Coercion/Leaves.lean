import GanttChart.Coercion
import GanttChart.Proofs.Day.Weekday
import GanttChart.Proofs.Outcome

/-! # What coercing does to a value

Coercing goes through a value and rewrites nothing but leaves, each by the rule for the keys on the
way to it. So it keeps the shape of the value and every leaf without a rule, and since no rule
changes what it has made, coercing once more changes nothing. -/

namespace GanttChart

open Outcome

namespace Value

mutual

/-- The nesting of a value: its lists and objects with null for every leaf. -/
def shape : Value → Value
  | object fields => object (shapeFields fields)
  | list items => list (shapeItems items)
  | _ => null

def shapeFields : List (String × Value) → List (String × Value)
  | [] => []
  | (key, v) :: rest => (key, v.shape) :: shapeFields rest

def shapeItems : List Value → List Value
  | [] => []
  | v :: rest => v.shape :: shapeItems rest

end

mutual

/-- The leaves below some keys, each with all keys on the way to it; any place in a list has the
same key. -/
def leaves (keys : List String) : Value → List (List String × Value)
  | object fields => leavesOfFields keys fields
  | list items => leavesOfItems (keys ++ [Coercion.itemKey]) items
  | v => [(keys, v)]

def leavesOfFields (keys : List String) : List (String × Value) → List (List String × Value)
  | [] => []
  | (key, v) :: rest => v.leaves (keys ++ [key]) ++ leavesOfFields keys rest

def leavesOfItems (keys : List String) : List Value → List (List String × Value)
  | [] => []
  | v :: rest => v.leaves keys ++ leavesOfItems keys rest

end

def IsLeaf : Value → Prop
  | object _ => False
  | list _ => False
  | _ => True

theorem IsLeaf.shape {v : Value} (h : v.IsLeaf) : v.shape = null := by
  cases v with
  | object _ => cases h
  | list _ => cases h
  | _ => rfl

theorem IsLeaf.leaves {v : Value} (h : v.IsLeaf) (keys : List String) :
    v.leaves keys = [(keys, v)] := by
  cases v with
  | object _ => cases h
  | list _ => cases h
  | _ => rfl

end Value

namespace Coercion

variable {config : ChartConfig} {hours : Float} {path : Option String} {keys : List String}
  {key : String} {rule : Rule} {v w : Value}

/-! ## Paths -/

/-- Keys joined by points. -/
def dotted (keys : List String) : String := ".".intercalate keys

/-- The path of what lies behind some keys. -/
def pathOf : List String → Option String
  | [] => none
  | keys => some (dotted keys)

theorem getD_pathOf (keys : List String) : (pathOf keys).getD "" = dotted keys := by
  cases keys <;> rfl

theorem dotted_concat (k : String) (keys : List String) (key : String) :
    dotted (k :: keys ++ [key]) = dotted (k :: keys) ++ "." ++ key := by
  induction keys generalizing k with
  | nil => simp [dotted, String.intercalate_cons_cons]
  | cons k' rest ih =>
    have hrest := ih k'
    simp only [dotted, List.cons_append, String.intercalate_cons_cons] at hrest ⊢
    rw [hrest]
    simp only [String.append_assoc]

theorem extend_pathOf (keys : List String) (key : String) :
    extend (pathOf keys) key = pathOf (keys ++ [key]) := by
  cases keys with
  | nil => simp [pathOf, extend, dotted]
  | cons k rest => exact congrArg some (dotted_concat k rest key).symm

/-! ## One leaf -/

/-- A number as coercing makes them. -/
def IsFiniteReal (v : Value) : Prop := ∃ x, v = .num (.real x) ∧ Number.isFinite x = true

theorem IsFiniteReal.isLeaf (h : IsFiniteReal v) : v.IsLeaf := by
  obtain ⟨x, rfl, _⟩ := h
  trivial

theorem isFiniteReal_of_finiteNumber? {read : String → Option Float}
    (h : finiteNumber? read v = some w) : IsFiniteReal w := by
  simp only [finiteNumber?] at h
  split at h
  · obtain ⟨hx, hw⟩ := Option.ite_none_right_eq_some.mp h
    exact ⟨_, (Option.some.inj hw).symm, hx⟩
  · cases h

theorem finiteNumber?_of_isFiniteReal {read : String → Option Float} (h : IsFiniteReal v) :
    finiteNumber? read v = some v := by
  obtain ⟨x, rfl, hx⟩ := h
  simp [finiteNumber?, Num.toFloat, hx]

/-- The full name of a weekday is again a text that begins with it. -/
theorem closedDay_closedDay (v : Value) : closedDay (closedDay v) = closedDay v := by
  cases v with
  | str s =>
    cases hs : Weekday.ofText? s with
    | none => simp [closedDay, hs]
    | some day => simp [closedDay, hs, Weekday.ofText?_name]
  | _ => rfl

theorem isLeaf_closedDay (h : v.IsLeaf) : (closedDay v).IsLeaf := by
  cases v with
  | str s => simp only [closedDay]; split <;> trivial
  | _ => exact h

/-- What a rule has made: the full name of a weekday, where there is one, or a finite number. -/
theorem apply_eq_ok (h : rule.apply hours v = .ok w) :
    (rule = .closedDay ∧ w = closedDay v) ∨ (rule ≠ .closedDay ∧ IsFiniteReal w) := by
  cases rule with
  | closedDay => exact .inl ⟨rfl, (Except.ok.inj h).symm⟩
  | period =>
    simp only [Rule.apply] at h
    split at h
    · cases h
      exact .inr ⟨by decide, isFiniteReal_of_finiteNumber? (by assumption)⟩
    · cases h
  | progress =>
    simp only [Rule.apply] at h
    split at h
    · cases h
      exact .inr ⟨by decide, isFiniteReal_of_finiteNumber? (by assumption)⟩
    · cases h

theorem apply_of_apply (h : rule.apply hours v = .ok w) : rule.apply hours w = .ok w := by
  rcases apply_eq_ok h with ⟨rfl, rfl⟩ | ⟨hrule, hreal⟩
  · exact congrArg Except.ok (closedDay_closedDay v)
  · cases rule with
    | closedDay => exact absurd rfl hrule
    | period => simp only [Rule.apply, finiteNumber?_of_isFiniteReal hreal]
    | progress => simp only [Rule.apply, finiteNumber?_of_isFiniteReal hreal]

/-- What becomes of a leaf: by its path it is kept, or is made the full name of a weekday or a finite
number. -/
structure LeafCoerced (before after : List String × Value) : Prop where
  keys : after.1 = before.1
  kept (h : rule? (dotted before.1) = none) : after.2 = before.2
  closed (h : rule? (dotted before.1) = some .closedDay) : after.2 = closedDay before.2
  period (h : rule? (dotted before.1) = some .period) : IsFiniteReal after.2
  progress (h : rule? (dotted before.1) = some .progress) : IsFiniteReal after.2

theorem leafCoerced_of_coerceLeaf (h : coerceLeaf hours (pathOf keys) v = .ok w) :
    LeafCoerced (keys, v) (keys, w) := by
  rw [coerceLeaf, getD_pathOf] at h
  have hmade {rule : Rule} (hrule : rule? (dotted keys) = some rule) :
      (rule = .closedDay ∧ w = closedDay v) ∨ (rule ≠ .closedDay ∧ IsFiniteReal w) := by
    rw [hrule] at h
    exact apply_eq_ok h
  constructor
  case keys => rfl
  case kept =>
    intro hrule
    rw [hrule] at h
    exact (Except.ok.inj h).symm
  case closed =>
    intro hrule
    exact (hmade hrule).elim And.right fun hnot => absurd rfl hnot.1
  case period =>
    intro hrule
    exact (hmade hrule).elim (fun hclosed => nomatch hclosed.1) And.right
  case progress =>
    intro hrule
    exact (hmade hrule).elim (fun hclosed => nomatch hclosed.1) And.right

theorem isLeaf_of_coerceLeaf (hv : v.IsLeaf) (h : coerceLeaf hours path v = .ok w) : w.IsLeaf := by
  unfold coerceLeaf at h
  split at h
  · rcases apply_eq_ok h with ⟨_, rfl⟩ | ⟨_, hreal⟩
    · exact isLeaf_closedDay hv
    · exact hreal.isLeaf
  · cases h
    exact hv

theorem coerceLeaf_of_coerceLeaf (h : coerceLeaf hours path v = .ok w) :
    coerceLeaf hours path w = .ok w := by
  unfold coerceLeaf at h ⊢
  cases hrule : rule? (path.getD "") with
  | none => rfl
  | some rule =>
    rw [hrule] at h
    exact apply_of_apply h

theorem coerceAt_of_isLeaf (h : v.IsLeaf) : coerceAt hours path v = coerceLeaf hours path v := by
  cases v with
  | object _ => cases h
  | list _ => cases h
  | _ => rfl

/-! ## Whole values -/

/-- A value that has become another one below some keys: of the same shape, leaf by leaf coerced, and
coerced for good. -/
structure Becomes (hours : Float) (keys : List String) (v w : Value) : Prop where
  shape : w.shape = v.shape
  leaves : List.Forall₂ LeafCoerced (v.leaves keys) (w.leaves keys)
  again : coerceAt hours (pathOf keys) w = .ok w

theorem becomes_of_isLeaf (hv : v.IsLeaf) (h : coerceLeaf hours (pathOf keys) v = .ok w) :
    Becomes hours keys v w := by
  have hw := isLeaf_of_coerceLeaf hv h
  refine ⟨by rw [hw.shape, hv.shape], ?_, ?_⟩
  · rw [hv.leaves, hw.leaves]
    exact .cons (leafCoerced_of_coerceLeaf h) .nil
  · rw [coerceAt_of_isLeaf hw]
    exact coerceLeaf_of_coerceLeaf h

mutual

theorem becomes_of_coerceAt : ∀ {keys : List String} {v w : Value},
    coerceAt hours (pathOf keys) v = .ok w → Becomes hours keys v w
  | keys, .object fields, w, h => by
    rw [coerceAt] at h
    obtain ⟨gs, hgs, rfl⟩ := map_eq_ok.mp h
    obtain ⟨hshape, hleaves, hagain⟩ := becomes_of_coerceFields hgs
    exact ⟨congrArg Value.object hshape, hleaves, by rw [coerceAt, hagain]; rfl⟩
  | keys, .list items, w, h => by
    rw [coerceAt, extend_pathOf] at h
    obtain ⟨ws, hws, rfl⟩ := map_eq_ok.mp h
    obtain ⟨hshape, hleaves, hagain⟩ := becomes_of_coerceItems hws
    exact ⟨congrArg Value.list hshape, hleaves, by rw [coerceAt, extend_pathOf, hagain]; rfl⟩
  | _, .null, _, h => becomes_of_isLeaf trivial h
  | _, .bool _, _, h => becomes_of_isLeaf trivial h
  | _, .num _, _, h => becomes_of_isLeaf trivial h
  | _, .str _, _, h => becomes_of_isLeaf trivial h

theorem becomes_of_coerceFields : ∀ {keys : List String} {fs gs : List (String × Value)},
    coerceFields hours (pathOf keys) fs = .ok gs →
      Value.shapeFields gs = Value.shapeFields fs ∧
      List.Forall₂ LeafCoerced (Value.leavesOfFields keys fs) (Value.leavesOfFields keys gs) ∧
      coerceFields hours (pathOf keys) gs = .ok gs
  | _, [], _, h => by
    cases h
    exact ⟨rfl, .nil, rfl⟩
  | keys, (key, v) :: rest, _, h => by
    rw [coerceFields, extend_pathOf] at h
    obtain ⟨w, hw, h⟩ := bind_eq_ok.mp h
    obtain ⟨ws, hws, h⟩ := bind_eq_ok.mp h
    cases h
    obtain ⟨hshape, hleaves, hagain⟩ := becomes_of_coerceAt hw
    obtain ⟨hshapes, hrest, hagains⟩ := becomes_of_coerceFields hws
    refine ⟨?_, List.rel_append hleaves hrest, ?_⟩
    · rw [Value.shapeFields, Value.shapeFields, hshape, hshapes]
    · rw [coerceFields, extend_pathOf, hagain, hagains]
      rfl

theorem becomes_of_coerceItems : ∀ {keys : List String} {items ws : List Value},
    coerceItems hours (pathOf keys) items = .ok ws →
      Value.shapeItems ws = Value.shapeItems items ∧
      List.Forall₂ LeafCoerced (Value.leavesOfItems keys items) (Value.leavesOfItems keys ws) ∧
      coerceItems hours (pathOf keys) ws = .ok ws
  | _, [], _, h => by
    cases h
    exact ⟨rfl, .nil, rfl⟩
  | keys, v :: rest, _, h => by
    rw [coerceItems] at h
    obtain ⟨w, hw, h⟩ := bind_eq_ok.mp h
    obtain ⟨ws, hws, h⟩ := bind_eq_ok.mp h
    cases h
    obtain ⟨hshape, hleaves, hagain⟩ := becomes_of_coerceAt hw
    obtain ⟨hshapes, hrest, hagains⟩ := becomes_of_coerceItems hws
    refine ⟨?_, List.rel_append hleaves hrest, ?_⟩
    · rw [Value.shapeItems, Value.shapeItems, hshape, hshapes]
    · rw [coerceItems, hagain, hagains]
      rfl

end

/-- Coercing keeps the shape of a value and all leaves whose path has no rule, makes finite numbers
of the leaves at the paths of periods and progresses, and changes nothing a second time. -/
theorem coerce_keeps_shape (h : coerce config v = .ok w) :
    w.shape = v.shape ∧ List.Forall₂ LeafCoerced (v.leaves []) (w.leaves []) ∧
      coerce config w = .ok w := by
  have hbecomes : Becomes config.hoursPerDay [] v w := becomes_of_coerceAt h
  exact ⟨hbecomes.shape, hbecomes.leaves, hbecomes.again⟩

/-- A value with loose leaves, with one that names no weekday, and with a key that no record has. -/
def ragged : Value :=
  .object
    [("project", .object [("closed", .list [.str "Sun", .str "2020/4/6"])]),
      ("task", .list
        [.object [("name", .str "paint"), ("note", .list [.null, .object []]),
          ("plan", .object [("period", .str "16 hours")])]])]

theorem ragged_keeps_shape : ∃ w, coerce .standard ragged = .ok w ∧ w.shape = ragged.shape ∧
    List.Forall₂ LeafCoerced (ragged.leaves []) (w.leaves []) ∧ coerce .standard w = .ok w := by
  have hok : (coerce .standard ragged).isOk = true := by decide +kernel
  obtain ⟨w, hw⟩ := exists_of_isOk hok
  exact ⟨w, hw, coerce_keeps_shape hw⟩

end Coercion

end GanttChart
