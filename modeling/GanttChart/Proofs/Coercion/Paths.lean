import GanttChart.Proofs.Document.Fields
import GanttChart.Proofs.Text.Cutting

/-! # Where coercing does something

A rule is about one path, so coercing does something to a value only when the path of a rule is at
the path of the value or goes on from it. Below other paths everything is kept, and below a path from
which only the rule for closed days is reached nothing can fail. -/

namespace GanttChart.Coercion

open Outcome

variable {hours : Float} {p key : String} {r : Rule} {v w : Value}

/-- The rules at a path and at the paths that go on from it. -/
def rulesFrom (p : String) : List Rule :=
  (rules.filter fun e => e.1 == p || (p ++ ".").toList.isPrefixOf e.1.toList).map (·.2)

theorem mem_rulesFrom : r ∈ rulesFrom p ↔
    ∃ e ∈ rules, (e.1 = p ∨ p.toList ++ ['.'] <+: e.1.toList) ∧ e.2 = r := by
  simp [rulesFrom, List.isPrefixOf_iff_prefix, and_assoc]

theorem mem_rulesFrom_of_rule? (h : rule? p = some r) : r ∈ rulesFrom p := by
  obtain ⟨e, he, rfl⟩ := Option.map_eq_some_iff.mp h
  have hp : e.1 = p := by simpa using List.find?_some he
  exact mem_rulesFrom.mpr ⟨e, List.mem_of_find?_eq_some he, .inl hp, rfl⟩

theorem mem_rulesFrom_of_extend (h : r ∈ rulesFrom (p ++ "." ++ key)) : r ∈ rulesFrom p := by
  obtain ⟨e, he, hpath, rfl⟩ := mem_rulesFrom.mp h
  refine mem_rulesFrom.mpr ⟨e, he, .inr ?_, rfl⟩
  rcases hpath with hp | hp
  · exact ⟨key.toList, by simp [hp]⟩
  · refine List.IsPrefix.trans ⟨key.toList ++ ['.'], ?_⟩ hp
    simp

/-- From a path only the rule for closed days is reached, if any. -/
def Clear (p : String) : Prop := ∀ r ∈ rulesFrom p, r = .closedDay

instance : Decidable (Clear p) := inferInstanceAs (Decidable (∀ r ∈ rulesFrom p, r = .closedDay))

theorem clear_of_rulesFrom (h : rulesFrom p = []) : Clear p := by simp [Clear, h]

theorem Clear.extend (h : Clear p) (key : String) : Clear (p ++ "." ++ key) :=
  fun r hr => h r (mem_rulesFrom_of_extend hr)

theorem rulesFrom_extend (h : rulesFrom p = []) (key : String) :
    rulesFrom (p ++ "." ++ key) = [] := by
  refine List.eq_nil_iff_forall_not_mem.mpr fun r hr => ?_
  have hr := mem_rulesFrom_of_extend hr
  rw [h] at hr
  cases hr

theorem coerceLeaf_of_rule? (h : rule? p = none) (v : Value) :
    coerceLeaf hours (some p) v = .ok v := by
  rw [coerceLeaf, Option.getD_some, h]

theorem coerceLeaf_of_clear (h : Clear p) (v : Value) :
    ∃ w, coerceLeaf hours (some p) v = .ok w ∧ (rulesFrom p = [] → w = v) := by
  unfold coerceLeaf
  cases hr : rule? ((some p).getD "") with
  | none => exact ⟨v, rfl, fun _ => rfl⟩
  | some r =>
    have hmem : r ∈ rulesFrom p := mem_rulesFrom_of_rule? hr
    obtain rfl := h r hmem
    refine ⟨closedDay v, rfl, fun hnone => ?_⟩
    rw [hnone] at hmem
    cases hmem

mutual

/-- Below a clear path coercing succeeds, and it keeps everything where no rule is reached. -/
theorem coerceAt_of_clear : ∀ {p : String}, Clear p → ∀ v : Value,
    ∃ w, coerceAt hours (some p) v = .ok w ∧ (rulesFrom p = [] → w = v)
  | p, h, .object fs => by
    obtain ⟨gs, hgs, hkept⟩ := coerceFields_of_clear h fs
    exact ⟨.object gs, map_eq_ok.mpr ⟨gs, hgs, rfl⟩, fun hnone => by rw [hkept hnone]⟩
  | p, h, .list items => by
    obtain ⟨ws, hws, hkept⟩ := coerceItems_of_clear (h.extend itemKey) items
    exact ⟨.list ws, map_eq_ok.mpr ⟨ws, hws, rfl⟩,
      fun hnone => by rw [hkept (rulesFrom_extend hnone itemKey)]⟩
  | _, h, .null => coerceLeaf_of_clear h .null
  | _, h, .bool b => coerceLeaf_of_clear h (.bool b)
  | _, h, .num n => coerceLeaf_of_clear h (.num n)
  | _, h, .str s => coerceLeaf_of_clear h (.str s)

theorem coerceFields_of_clear : ∀ {p : String}, Clear p → ∀ fs : List (String × Value),
    ∃ gs, coerceFields hours (some p) fs = .ok gs ∧ (rulesFrom p = [] → gs = fs)
  | _, _, [] => ⟨[], rfl, fun _ => rfl⟩
  | p, h, (key, v) :: rest => by
    obtain ⟨w, hw, hkept⟩ := coerceAt_of_clear (h.extend key) v
    obtain ⟨ws, hws, hkepts⟩ := coerceFields_of_clear h rest
    refine ⟨(key, w) :: ws, ?_, fun hnone => ?_⟩
    · exact bind_eq_ok.mpr ⟨w, hw, bind_eq_ok.mpr ⟨ws, hws, rfl⟩⟩
    · rw [hkept (rulesFrom_extend hnone key), hkepts hnone]

theorem coerceItems_of_clear : ∀ {p : String}, Clear p → ∀ items : List Value,
    ∃ ws, coerceItems hours (some p) items = .ok ws ∧ (rulesFrom p = [] → ws = items)
  | _, _, [] => ⟨[], rfl, fun _ => rfl⟩
  | p, h, v :: rest => by
    obtain ⟨w, hw, hkept⟩ := coerceAt_of_clear h v
    obtain ⟨ws, hws, hkepts⟩ := coerceItems_of_clear h rest
    refine ⟨w :: ws, ?_, fun hnone => ?_⟩
    · exact bind_eq_ok.mpr ⟨w, hw, bind_eq_ok.mpr ⟨ws, hws, rfl⟩⟩
    · rw [hkept hnone, hkepts hnone]

end

theorem coerceAt_of_rulesFrom (h : rulesFrom p = []) (v : Value) :
    coerceAt hours (some p) v = .ok v := by
  obtain ⟨w, hw, hkept⟩ := coerceAt_of_clear (clear_of_rulesFrom h) v
  rw [hw, hkept h]

theorem coerceAt_list_of_rulesFrom (h : rulesFrom (p ++ "." ++ itemKey) = [])
    (items : List Value) : coerceAt hours (some p) (.list items) = .ok (.list items) := by
  obtain ⟨ws, hws, hkept⟩ := coerceItems_of_clear (clear_of_rulesFrom h) items
  rw [hkept h] at hws
  exact map_eq_ok.mpr ⟨items, hws, rfl⟩

/-! ## Keys that rules go on with -/

/-- What the paths of rules go on with after a text. -/
def tails (stem : String) : List (List Char) :=
  rules.filterMap fun e => Text.after? stem.toList e.1.toList

theorem exists_tail (stem key : String) (h : rulesFrom (stem ++ key) ≠ []) :
    ∃ tail ∈ tails stem, tail = key.toList ∨ key.toList ++ ['.'] <+: tail := by
  obtain ⟨r, hr⟩ := List.exists_mem_of_ne_nil _ h
  obtain ⟨e, he, hpath, _⟩ := mem_rulesFrom.mp hr
  rcases hpath with hp | hp
  · have htail : Text.after? stem.toList e.1.toList = some key.toList :=
      Text.after?_eq_some_iff.mpr (by rw [hp, String.toList_append])
    exact ⟨_, List.mem_filterMap.mpr ⟨e, he, htail⟩, .inl rfl⟩
  · obtain ⟨rest, hrest⟩ := hp
    have htail : Text.after? stem.toList e.1.toList = some (key.toList ++ ['.'] ++ rest) :=
      Text.after?_eq_some_iff.mpr (by rw [← hrest]; simp)
    exact ⟨_, List.mem_filterMap.mpr ⟨e, he, htail⟩, .inr ⟨rest, rfl⟩⟩

/-- Where no path goes on for more than one key, every other key leads to no rule. -/
theorem rulesFrom_of_last {stem : String} (hlast : ∀ tail ∈ tails stem, '.' ∉ tail)
    (hkey : key.toList ∉ tails stem) : rulesFrom (stem ++ key) = [] := by
  by_contra h
  obtain ⟨tail, hmem, rfl | ⟨rest, rfl⟩⟩ := exists_tail stem key h
  · exact hkey hmem
  · exact hlast _ hmem (by simp)

/-- A key without a point leads to rules only when the path of a rule goes on with that very key. -/
theorem rulesFrom_of_undotted {stem : String} {keys : List String}
    (hkeys : (tails stem).map (List.takeWhile (· ≠ '.')) = keys.map String.toList)
    (hdot : '.' ∉ key.toList) (hkey : key ∉ keys) : rulesFrom (stem ++ key) = [] := by
  have hall : ∀ c ∈ key.toList, decide (c ≠ '.') = true := by
    intro c hc
    exact decide_eq_true fun h => hdot (h ▸ hc)
  have hnext {tail : List Char} (hmem : tail ∈ tails stem)
      (htake : tail.takeWhile (· ≠ '.') = key.toList) : False := by
    have hfirst : key.toList ∈ keys.map String.toList := by
      rw [← hkeys, ← htake]
      exact List.mem_map_of_mem hmem
    obtain ⟨k, hk, heq⟩ := List.mem_map.mp hfirst
    exact hkey (String.toList_inj.mp heq ▸ hk)
  by_contra h
  obtain ⟨tail, hmem, rfl | ⟨rest, rfl⟩⟩ := exists_tail stem key h
  · exact hnext hmem (List.takeWhile_eq_self_iff.mpr hall)
  · refine hnext hmem ?_
    rw [List.append_assoc, List.takeWhile_append_of_pos hall]
    simp

/-! ## The first fault -/

/-- What coercing finds fault with at a field of an object. -/
def fieldError? (hours : Float) (path : Option String) (v : Value) (key : String) :
    Option ScheduleError :=
  (v.field? key).bind fun w => error? (coerceAt hours (extend path key) w)

theorem error?_coerceFields (path : Option String) (fs : List (String × Value)) :
    error? (coerceFields hours path fs) =
      fs.findSome? fun f => error? (coerceAt hours (extend path f.1) f.2) := by
  induction fs with
  | nil => rfl
  | cons f rest ih =>
    obtain ⟨key, v⟩ := f
    rw [coerceFields, error?_bind_bind, ih, List.findSome?_cons]
    cases error? (coerceAt hours (extend path key) v) <;> rfl

theorem field?_of_lt {fs : List (String × Value)} (h : ∀ f ∈ fs, key < f.1) :
    (Value.object fs).field? key = none := by
  have hnone : fs.find? (fun f => f.1 == key) = none :=
    List.find?_eq_none.mpr fun f hf => by simpa using (String.ne_of_lt (h f hf)).symm
  rw [Value.field?, hnone]
  rfl

theorem findSome?_congr {α β : Type} {f g : α → Option β} {l : List α} (h : ∀ a ∈ l, f a = g a) :
    l.findSome? f = l.findSome? g := by
  induction l with
  | nil => rfl
  | cons a rest ih =>
    rw [List.findSome?_cons, List.findSome?_cons, h a List.mem_cons_self,
      ih fun b hb => h b (List.mem_cons_of_mem a hb)]

section Sorted

variable {ε : Type} {g : String → Value → Option ε} {rest fs : List (String × Value)}
  {before after keys : List String}

/-- Of sorted keys those before the first key of the fields find nothing, and those after it find
what they find behind the first field. -/
theorem findSome?_keys (hkeys : (before ++ key :: after).Pairwise (· < ·))
    (hfirst : ∀ f ∈ rest, key < f.1) :
    (before ++ key :: after).findSome?
        (fun k => ((Value.object ((key, v) :: rest)).field? k).bind (g k)) =
      (g key v).or (after.findSome? fun k => ((Value.object rest).field? k).bind (g k)) := by
  obtain ⟨_, hafter, hlt⟩ := List.pairwise_append.mp hkeys
  have hbefore : ∀ k ∈ before, k < key := fun k hk => hlt k hk key List.mem_cons_self
  have hnone : before.findSome?
      (fun k => ((Value.object ((key, v) :: rest)).field? k).bind (g k)) = none := by
    refine List.findSome?_eq_none_iff.mpr fun k hk => ?_
    have hall : ∀ f ∈ (key, v) :: rest, k < f.1 := by
      intro f hf
      rcases List.mem_cons.mp hf with rfl | hf
      · exact hbefore k hk
      · exact String.lt_trans (hbefore k hk) (hfirst f hf)
    rw [field?_of_lt hall]
    rfl
  have hsome : after.findSome?
        (fun k => ((Value.object ((key, v) :: rest)).field? k).bind (g k)) =
      after.findSome? fun k => ((Value.object rest).field? k).bind (g k) := by
    refine findSome?_congr fun k hk => ?_
    rw [Value.field?_cons, if_neg (String.ne_of_lt ((List.pairwise_cons.mp hafter).1 k hk))]
  rw [List.findSome?_append, hnone, Option.none_or, List.findSome?_cons, hsome, Value.field?_cons,
    if_pos rfl, Option.bind_some]
  cases g key v <;> rfl

/-- Of sorted fields those with some keys are met in the order of the keys. -/
theorem findSome?_of_sorted (hkeys : keys.Pairwise (· < ·))
    (hfs : fs.Pairwise fun f f' => f.1 < f'.1) (hother : ∀ f ∈ fs, f.1 ∉ keys → g f.1 f.2 = none) :
    fs.findSome? (fun f => g f.1 f.2) =
      keys.findSome? fun key => ((Value.object fs).field? key).bind (g key) := by
  induction fs generalizing keys with
  | nil => exact (List.findSome?_eq_none_iff.mpr fun _ _ => rfl).symm
  | cons f rest ih =>
    obtain ⟨k, v⟩ := f
    obtain ⟨hfirst, hrest⟩ := List.pairwise_cons.mp hfs
    by_cases hk : k ∈ keys
    · obtain ⟨before, after, rfl⟩ := List.append_of_mem hk
      obtain ⟨_, hafter, hlt⟩ := List.pairwise_append.mp hkeys
      have hother : ∀ f ∈ rest, f.1 ∉ after → g f.1 f.2 = none := by
        intro f hf hnot
        refine hother f (List.mem_cons_of_mem _ hf) fun hmem => ?_
        rcases List.mem_append.mp hmem with hmem | hmem
        · exact String.lt_asymm (hlt f.1 hmem k List.mem_cons_self) (hfirst f hf)
        · rcases List.mem_cons.mp hmem with heq | hmem
          · exact String.ne_of_lt (hfirst f hf) heq.symm
          · exact hnot hmem
      rw [findSome?_keys hkeys hfirst, List.findSome?_cons,
        ih (List.pairwise_cons.mp hafter).2 hrest hother]
      cases g k v <;> rfl
    · have hv : g k v = none := hother (k, v) List.mem_cons_self hk
      rw [List.findSome?_cons, hv, ih hkeys hrest fun f hf => hother f (List.mem_cons_of_mem _ hf)]
      refine findSome?_congr fun key hkey => ?_
      have hne : k ≠ key := fun h => hk (h ▸ hkey)
      rw [Value.field?_cons, if_neg hne]

end Sorted

/-- Coercing an object finds fault with the first of the given fields that has a fault, when other
fields have none. -/
theorem error?_coerceFields_of_keys {path : Option String} {keys : List String}
    {fs : List (String × Value)} (hkeys : keys.Pairwise (· < ·))
    (hfs : fs.Pairwise fun f f' => f.1 < f'.1)
    (hother : ∀ f ∈ fs, f.1 ∉ keys → ∃ w, coerceAt hours (extend path f.1) f.2 = .ok w) :
    error? (coerceFields hours path fs) =
      keys.findSome? (fieldError? hours path (.object fs)) := by
  rw [error?_coerceFields]
  refine findSome?_of_sorted (g := fun key w => error? (coerceAt hours (extend path key) w)) hkeys
    hfs fun f hf hnot => error?_eq_none.mpr (hother f hf hnot)

theorem error?_coerceFields_of_pair {path : Option String} (key key' : String)
    {fs : List (String × Value)} (hkeys : key < key') (hfs : fs.Pairwise fun f f' => f.1 < f'.1)
    (hother : ∀ f ∈ fs, f.1 ∉ [key, key'] → ∃ w, coerceAt hours (extend path f.1) f.2 = .ok w) :
    error? (coerceFields hours path fs) = (fieldError? hours path (.object fs) key).or
      (fieldError? hours path (.object fs) key') := by
  have hsorted : [key, key'].Pairwise (· < ·) := by simpa using hkeys
  rw [error?_coerceFields_of_keys hsorted hfs hother, List.findSome?_cons,
    List.findSome?_singleton]
  cases fieldError? hours path (.object fs) key <;> rfl

end GanttChart.Coercion
