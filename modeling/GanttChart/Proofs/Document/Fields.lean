import GanttChart.Coercion
import GanttChart.Document.Decoding
import GanttChart.Document.Encoding
import GanttChart.Proofs.Outcome

/-! # Fields that are written, coerced and read

Coercing an object coerces the value of each field at the path of the field, so what is read from a
field depends only on what was written there. -/

namespace GanttChart

open Coercion Outcome

namespace Value

variable {key k : String} {v : Value} {fs gs : List (String × Value)}

@[simp] theorem field?_nil : (object []).field? key = none := rfl

@[simp] theorem field?_cons :
    (object ((k, v) :: fs)).field? key = if k = key then some v else (object fs).field? key := by
  by_cases h : k = key <;> simp [field?, h]

@[simp] theorem field?_append :
    (object (fs ++ gs)).field? key = ((object fs).field? key).or ((object gs).field? key) := by
  simp [field?, Option.map_or]

@[simp] theorem field?_optionalField {v : Option Value} :
    (object (optionalField k v)).field? key = if k = key then v else none := by
  cases v <;> simp [optionalField]

theorem field?_insertField : (object (insertField k v fs)).field? key =
    if k = key then some v else (object fs).field? key := by
  induction fs with
  | nil => simp [insertField]
  | cons f rest ih =>
    obtain ⟨k', w⟩ := f
    unfold insertField
    split
    · rename_i h
      by_cases hk : k = key <;> simp [hk, ← h]
    · split
      · simp
      · rename_i h _
        rw [field?_cons, field?_cons, ih]
        by_cases hk : k' = key
        · simp [hk, hk ▸ h]
        · simp [hk]

/-- Of several fields with one key the last one counts. -/
@[simp] theorem field?_ofFields : (ofFields fs).field? key = (object fs.reverse).field? key := by
  have hput (held : List (String × Value)) :
      (object (fs.foldl (fun held f => insertField f.1 f.2 held) held)).field? key =
        ((object fs.reverse).field? key).or ((object held).field? key) := by
    induction fs generalizing held with
    | nil => rfl
    | cons f rest ih =>
      rw [List.foldl_cons, ih, field?_insertField, List.reverse_cons, field?_append,
        Option.or_assoc]
      obtain ⟨k, v⟩ := f
      by_cases h : k = key <;> simp [h]
  simpa [ofFields] using hput []

@[simp] theorem reverse_optionalField {v : Option Value} :
    (optionalField k v).reverse = optionalField k v := by
  cases v <;> rfl

end Value

namespace Coercion

variable {hours : Float} {path : Option String} {fs gs gs' : List (String × Value)}
  {items ws : List Value}

theorem coerceAt_object {w : Value} (h : coerceAt hours path (.object fs) = .ok w) :
    ∃ gs, w = .object gs ∧ coerceFields hours path fs = .ok gs := by
  rw [coerceAt] at h
  cases hf : coerceFields hours path fs with
  | error e => rw [hf] at h; cases h
  | ok gs => rw [hf] at h; cases h; exact ⟨gs, rfl, rfl⟩

theorem coerceAt_list {w : Value} (h : coerceAt hours path (.list items) = .ok w) :
    ∃ ws, w = .list ws ∧ coerceItems hours (extend path itemKey) items = .ok ws := by
  rw [coerceAt] at h
  cases hi : coerceItems hours (extend path itemKey) items with
  | error e => rw [hi] at h; cases h
  | ok ws => rw [hi] at h; cases h; exact ⟨ws, rfl, rfl⟩

/-- A field is there after coercing exactly when it was there before, and then its value has been
coerced at the path of the field. -/
def FieldsCoerced (hours : Float) (path : Option String) (v : Value)
    (gs : List (String × Value)) : Prop :=
  ∀ key, Option.Rel (fun v w => coerceAt hours (extend path key) v = .ok w) (v.field? key)
    ((Value.object gs).field? key)

/-- A field that is the same in two objects is the same after coercing them. -/
theorem FieldsCoerced.field?_congr {v v' : Value} {key : String}
    (hg : FieldsCoerced hours path v gs) (hg' : FieldsCoerced hours path v' gs')
    (h : v.field? key = v'.field? key) :
    (Value.object gs).field? key = (Value.object gs').field? key := by
  have hrel := hg key
  have hrel' := hg' key
  rw [← h] at hrel'
  generalize v.field? key = before at hrel hrel'
  generalize (Value.object gs).field? key = found at hrel
  generalize (Value.object gs').field? key = found' at hrel'
  cases hrel with
  | none =>
    cases hrel'
    rfl
  | some hw =>
    cases hrel' with
    | some hw' => rw [Except.ok.inj (hw.symm.trans hw')]

theorem fieldsCoerced_of_coerceFields (h : coerceFields hours path fs = .ok gs) :
    FieldsCoerced hours path (.object fs) gs := by
  intro key
  induction fs generalizing gs with
  | nil =>
    cases h
    exact .none
  | cons f rest ih =>
    obtain ⟨k, v⟩ := f
    rw [coerceFields] at h
    obtain ⟨w, hw, h⟩ := bind_eq_ok.mp h
    obtain ⟨ws, hws, h⟩ := bind_eq_ok.mp h
    cases h
    rw [Value.field?_cons, Value.field?_cons]
    split
    · rename_i hk
      exact .some (hk ▸ hw)
    · exact ih hws

theorem coerceAt_ofFields {w : Value} (h : coerceAt hours path (.ofFields fs) = .ok w) :
    ∃ gs, w = .object gs ∧ FieldsCoerced hours path (.ofFields fs) gs := by
  obtain ⟨gs, rfl, hg⟩ := coerceAt_object h
  exact ⟨gs, rfl, fieldsCoerced_of_coerceFields hg⟩

theorem forall₂_of_coerceItems (h : coerceItems hours path items = .ok ws) :
    List.Forall₂ (fun v w => coerceAt hours path v = .ok w) items ws := by
  induction items generalizing ws with
  | nil =>
    cases h
    exact .nil
  | cons v rest ih =>
    rw [coerceItems] at h
    obtain ⟨w, hw, h⟩ := bind_eq_ok.mp h
    obtain ⟨ws, hws, h⟩ := bind_eq_ok.mp h
    cases h
    exact .cons hw (ih hws)

end Coercion

/-- Whatever `write` writes at a path is read, after coercing, as something in the relation to
it. -/
def Carried {α β : Type} (hours : Float) (path : Option String) (write : α → Value)
    (read : Value → Except ShapeError β) (Rel : α → β → Prop) : Prop :=
  ∀ a w, coerceAt hours path (write a) = .ok w → w ≠ .null ∧ ∃ b, read w = .ok b ∧ Rel a b

namespace Carried

variable {α β : Type} {hours : Float} {path : Option String} {write : α → Value}
  {read : Value → Except ShapeError β} {Rel : α → β → Prop}

theorem text (h : rule? (path.getD "") = none) : Carried hours path .str readText Eq := by
  intro s w hw
  rw [coerceAt, coerceLeaf, h] at hw
  cases hw
  exact ⟨by simp, s, rfl, rfl⟩

theorem list (h : Carried hours (extend path itemKey) write read Rel) :
    Carried hours path (fun as : List α => .list (as.map write)) (readList read)
      (List.Forall₂ Rel) := by
  intro as w hw
  obtain ⟨ws, rfl, hitems⟩ := coerceAt_list hw
  refine ⟨by simp, ?_⟩
  have hws := List.forall₂_map_left_iff.mp (forall₂_of_coerceItems hitems)
  clear hw hitems
  suffices ∃ bs, List.Forall₂ (fun w b => read w = .ok b) ws bs ∧ List.Forall₂ Rel as bs by
    obtain ⟨bs, hread, hrel⟩ := this
    exact ⟨bs, mapM_eq_ok_iff.mpr hread, hrel⟩
  induction hws with
  | nil => exact ⟨[], .nil, .nil⟩
  | cons hw _ ih =>
    obtain ⟨_, b, hb, hr⟩ := h _ _ hw
    obtain ⟨bs, hread, hrel⟩ := ih
    exact ⟨b :: bs, .cons hb hread, .cons hr hrel⟩

end Carried

namespace Fields

variable {α β : Type} {hours : Float} {path : Option String} {write : α → Value}
  {read : Value → Except ShapeError β} {Rel : α → β → Prop} {v : Value}
  {gs : List (String × Value)}

theorem value?_named (key : String) (place : Nat) :
    (named gs).value? key place = (Value.object gs).field? key := rfl

/-- No fault is found among fields that have none, in whatever order they are met. -/
theorem check_named {faults : List (String × Option ShapeError)} (h : ∀ f ∈ faults, f.2 = none) :
    (named gs).check faults = .ok () := by
  have hnone : (named gs).firstFault? faults = none := by
    refine List.findSome?_eq_none_iff.mpr fun g _ => ?_
    cases hf : faults.find? (fun e => e.1 == g.1) with
    | none => rfl
    | some f => exact h f (List.mem_of_find?_eq_some hf)
  simp [check, hnone]

/-- A field that may be left out is read as what was written, if anything was. -/
theorem optional_of_carried (key : String) (hc : Carried hours (extend path key) write read Rel)
    (hg : FieldsCoerced hours path v gs) {o : Option α} (ho : v.field? key = o.map write)
    (place : Nat) : ∃ o', (named gs).optional key place read = .ok o' ∧ Option.Rel Rel o o' := by
  have hrel := hg key
  rw [ho] at hrel
  unfold optional
  rw [value?_named]
  generalize (Value.object gs).field? key = found at hrel
  cases o with
  | none =>
    cases hrel
    exact ⟨none, rfl, .none⟩
  | some a =>
    cases hrel with
    | @some _ w hw =>
      obtain ⟨hnull, b, hb, hr⟩ := hc a w hw
      refine ⟨some b, ?_, .some hr⟩
      cases w with
      | null => exact absurd rfl hnull
      | _ => simp only [hb]; rfl

theorem given_of_carried (key : String) (hc : Carried hours (extend path key) write read Rel)
    (hg : FieldsCoerced hours path v gs) {a : α} (ha : v.field? key = some (write a))
    (place : Nat) : ∃ b, (named gs).given key place read = .ok (some b) ∧ Rel a b := by
  have hrel := hg key
  rw [ha] at hrel
  unfold given
  rw [value?_named]
  generalize (Value.object gs).field? key = found at hrel
  cases hrel with
  | some hw =>
    obtain ⟨_, b, hb, hr⟩ := hc a _ hw
    exact ⟨b, by simp only [hb]; rfl, hr⟩

theorem eq_of_rel_eq {o o' : Option α} (h : Option.Rel Eq o o') : o = o' := by
  cases h with
  | none => rfl
  | some h => rw [h]

theorem optional_text (key : String) (hr : rule? ((extend path key).getD "") = none)
    (hg : FieldsCoerced hours path v gs) {o : Option String} (ho : v.field? key = o.map .str)
    (place : Nat) : (named gs).optional key place readText = .ok o := by
  obtain ⟨o', ho', hrel⟩ := optional_of_carried key (.text hr) hg ho place
  rw [ho', eq_of_rel_eq hrel]

theorem given_text (key : String) (hr : rule? ((extend path key).getD "") = none)
    (hg : FieldsCoerced hours path v gs) {s : String} (hs : v.field? key = some (.str s))
    (place : Nat) : (named gs).given key place readText = .ok (some s) := by
  obtain ⟨s', hs', rfl⟩ := given_of_carried key (.text hr) hg hs place
  exact hs'

end Fields

end GanttChart
