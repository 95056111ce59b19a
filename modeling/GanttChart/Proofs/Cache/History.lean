import GanttChart.Proofs.Outcome
import GanttChart.ResponseCache
import Mathlib.Data.List.Induction
import Mathlib.Data.Set.Card

/-! # What a cache holds after a history

Operations come one after the other, each at a time of its own, and the times need not increase.
Every operation sweeps the whole cache, so that a value is lost at the first operation of whatever
key that does not come before its expiry, and stays lost if times go back after that. An insertion
that panics, as the clock cannot show the expiry of its value, sweeps like the others but stores
nothing, so that the latest insertion of a key is the latest one that stored a value. -/

namespace GanttChart.ResponseCache

/-- An operation on a cache and its time. -/
inductive Operation (α : Type) where
  | insert (key : String) (value : α) (time : Nat)
  | get (key : String) (time : Nat)

variable {α : Type} {c : ResponseCache α} {ttl horizon now t : Nat} {ops : List (Operation α)}
  {o : Operation α} {key : String} {value : α} {e : Kept α}

namespace Operation

def time : Operation α → Nat
  | insert _ _ time => time
  | get _ time => time

/-- The key that the operation stores a value for; none for an insertion that panics. -/
def stored? (ttl horizon : Nat) : Operation α → Option String
  | insert key _ time => if time + ttl ≤ horizon then some key else none
  | get _ _ => none

end Operation

def apply (c : ResponseCache α) : Operation α → ResponseCache α
  | .insert key value time => c.insert key value time
  | .get key time => (c.get key time).2

/-- A cache that was empty, after a history of operations. -/
def after (ttl horizon : Nat) (ops : List (Operation α)) : ResponseCache α :=
  ops.foldl apply (.emptyUntil horizon ttl)

/-- The latest insertion of a key stored a value at a time, and every operation since then came
before the value had expired. -/
def Lasts (ttl horizon : Nat) (ops : List (Operation α)) (key : String) (value : α) (t : Nat) :
    Prop :=
  t + ttl ≤ horizon ∧ ∃ earlier later, ops = earlier ++ .insert key value t :: later ∧
    ∀ o ∈ later, o.stored? ttl horizon ≠ some key ∧ o.time < t + ttl

/-! ## One operation -/

theorem lasts_concat : Lasts ttl horizon (ops ++ [o]) key value t ↔
    (o = .insert key value t ∧ t + ttl ≤ horizon) ∨
      (Lasts ttl horizon ops key value t ∧ o.stored? ttl horizon ≠ some key ∧
        o.time < t + ttl) := by
  simp only [Lasts, Outcome.exists_moment_concat, List.forall_mem_append, List.forall_mem_singleton,
    List.not_mem_nil, false_implies, implies_true, and_true, ← and_assoc, exists_and_right,
    and_or_left]
  rw [and_comm]

@[simp] theorem ttl_apply (c : ResponseCache α) (o : Operation α) : (c.apply o).ttl = c.ttl := by
  cases o <;> rfl

@[simp] theorem horizon_apply (c : ResponseCache α) (o : Operation α) :
    (c.apply o).horizon = c.horizon := by
  cases o <;> rfl

/-- An operation puts in what it stores and keeps what it neither replaces nor finds expired. -/
theorem mem_apply : e ∈ (c.apply o).entries ↔
    (∃ t, o = .insert e.key e.value t ∧ t + c.ttl ≤ c.horizon ∧ e.expiry = t + c.ttl) ∨
      (e ∈ c.entries ∧ o.stored? c.ttl c.horizon ≠ some e.key ∧ o.time < e.expiry) := by
  cases o with
  | insert key value time =>
    cases hexpiry : c.expiry? time with
    | some t =>
      obtain ⟨rfl, hshown⟩ := expiry?_eq_some.mp hexpiry
      obtain ⟨key', value', expiry⟩ := e
      simp only [apply, entries_insert_of_expiry hexpiry, List.mem_cons, List.mem_filter, mem_sweep,
        Operation.stored?, if_pos hshown, Operation.time, Kept.mk.injEq, Operation.insert.injEq,
        bne_iff_ne, ne_eq, Option.some.injEq]
      grind
    | none =>
      have hlate := Nat.not_le.mpr (expiry?_eq_none.mp hexpiry)
      simp only [apply, entries_insert_of_panic hexpiry, mem_sweep, Operation.stored?, if_neg hlate,
        Operation.time, Operation.insert.injEq]
      grind
  | get key time =>
    simp [apply, get, mem_sweep, Operation.stored?, Operation.time]

theorem nodup_keys_apply (h : (c.entries.map Kept.key).Nodup) (o : Operation α) :
    ((c.apply o).entries.map Kept.key).Nodup := by
  have hkept (p : Kept α → Bool) (l : List (Kept α)) (hl : (l.map Kept.key).Nodup) :
      ((l.filter p).map Kept.key).Nodup :=
    hl.sublist (List.filter_sublist.map _)
  cases o with
  | insert key value time =>
    cases hexpiry : c.expiry? time with
    | none =>
      rw [apply, entries_insert_of_panic hexpiry]
      exact hkept _ _ h
    | some expiry =>
      rw [apply, entries_insert_of_expiry hexpiry, List.map_cons, List.nodup_cons]
      refine ⟨fun hmem => ?_, hkept _ _ (hkept _ _ h)⟩
      obtain ⟨e, he, hkey⟩ := List.mem_map.mp hmem
      simpa [hkey] using (List.mem_filter.mp he).2
  | get key time => exact hkept _ _ h

/-- Where keys are not repeated, looking a key up finds its only entry. -/
theorem held?_eq_some_iff (h : (c.entries.map Kept.key).Nodup) :
    c.held? key = some value ↔ ∃ e ∈ c.entries, e.key = key ∧ e.value = value := by
  unfold held?
  rw [Option.map_eq_some_iff]
  constructor
  · rintro ⟨e, he, hvalue⟩
    exact ⟨e, List.mem_of_find?_eq_some he, by simpa using List.find?_some he, hvalue⟩
  · rintro ⟨e, he, rfl, rfl⟩
    cases hfind : c.entries.find? fun e' => e'.key == e.key with
    | none => simpa using List.find?_eq_none.mp hfind e he
    | some e' =>
      have hkey : e'.key = e.key := by simpa using List.find?_some hfind
      obtain rfl := List.inj_on_of_nodup_map h (List.mem_of_find?_eq_some hfind) he hkey
      exact ⟨e', rfl, rfl⟩

/-! ## A whole history -/

theorem after_concat : after ttl horizon (ops ++ [o]) = (after ttl horizon ops).apply o := by
  simp [after, List.foldl_append]

@[simp] theorem ttl_after (ops : List (Operation α)) : (after ttl horizon ops).ttl = ttl := by
  induction ops using List.reverseRecOn with
  | nil => rfl
  | append_singleton ops o ih => rw [after_concat, ttl_apply, ih]

@[simp] theorem horizon_after (ops : List (Operation α)) :
    (after ttl horizon ops).horizon = horizon := by
  induction ops using List.reverseRecOn with
  | nil => rfl
  | append_singleton ops o ih => rw [after_concat, horizon_apply, ih]

theorem nodup_keys_after (ttl horizon : Nat) (ops : List (Operation α)) :
    ((after ttl horizon ops).entries.map Kept.key).Nodup := by
  induction ops using List.reverseRecOn with
  | nil => exact List.nodup_nil
  | append_singleton ops o ih =>
    rw [after_concat]
    exact nodup_keys_apply ih o

theorem mem_after : e ∈ (after ttl horizon ops).entries ↔
    ∃ t, Lasts ttl horizon ops e.key e.value t ∧ e.expiry = t + ttl := by
  induction ops using List.reverseRecOn with
  | nil => simp [after, emptyUntil, Lasts]
  | append_singleton ops o ih =>
    rw [after_concat, mem_apply, ttl_after, horizon_after, ih]
    simp only [lasts_concat, or_and_right, exists_or, and_assoc]
    refine or_congr_right ?_
    constructor
    · intro h
      obtain ⟨⟨t, hlasts, hexpiry⟩, hkey, hlt⟩ := h
      exact ⟨t, hlasts, hkey, hexpiry ▸ hlt, hexpiry⟩
    · intro h
      obtain ⟨t, hlasts, hkey, hlt, hexpiry⟩ := h
      exact ⟨⟨t, hlasts, hexpiry⟩, hkey, hexpiry ▸ hlt⟩

theorem held?_after : (after ttl horizon ops).held? key = some value ↔
    ∃ t, Lasts ttl horizon ops key value t := by
  rw [held?_eq_some_iff (nodup_keys_after ttl horizon ops)]
  constructor
  · intro h
    obtain ⟨e, he, rfl, rfl⟩ := h
    obtain ⟨t, hlasts, _⟩ := mem_after.mp he
    exact ⟨t, hlasts⟩
  · intro h
    obtain ⟨t, hlasts⟩ := h
    exact ⟨⟨key, value, t + ttl⟩, mem_after.mpr ⟨t, hlasts, rfl⟩, rfl, rfl⟩

/-- A lookup at the end of a history is an operation of the history itself. -/
theorem get_after (now : Nat) : ((after ttl horizon ops).get key now).1 = some value ↔
    ∃ t, Lasts ttl horizon (ops ++ [.get key now]) key value t := by
  rw [← held?_after, after_concat]
  rfl

theorem mem_keys_after : key ∈ (after ttl horizon ops).entries.map Kept.key ↔
    ∃ value t, Lasts ttl horizon ops key value t := by
  rw [List.mem_map]
  constructor
  · intro h
    obtain ⟨e, he, rfl⟩ := h
    obtain ⟨t, hlasts, _⟩ := mem_after.mp he
    exact ⟨e.value, t, hlasts⟩
  · intro h
    obtain ⟨value, t, hlasts⟩ := h
    exact ⟨⟨key, value, t + ttl⟩, mem_after.mpr ⟨t, hlasts, rfl⟩, rfl⟩

/-- A lookup of another key sweeps a value away, and going back in time does not bring it back. -/
example : ((after 10 100 [.insert "a" 1 0, .get "b" 10]).get "a" 5).1 = none := by decide

/-- An insertion that panics leaves the earlier value. -/
example : ((after 10 100 [.insert "a" 1 85, .insert "a" 2 91]).get "a" 92).1 = some 1 := by decide

end GanttChart.ResponseCache
