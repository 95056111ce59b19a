import GanttChart.Proofs.Coercion.Paths
import GanttChart.Proofs.Document.Decoded

/-! # What coercing means for a document

Values are coerced before they are read as a document. What that brings about is said here of the
documents themselves: a document settles when each of its textual scalars stands for a finite number,
and the first one that does not is its fault. Reading what has been coerced is settling what has been
read, for values in which the two go by the same fields. -/

namespace GanttChart

open Coercion Outcome Fields

/-! ## Settling -/

/-- The number that a scalar is or that its text stands for. -/
def Scalar.settle (read : String → Option Float) (fault : String → ScheduleError) :
    Scalar → Except ScheduleError Scalar
  | number x => .ok (number x)
  | text s =>
    match read s with
    | some x => if Number.isFinite x then .ok (number x) else .error (fault s)
    | none => .error (fault s)

def PlanRange.settle (hours : Float) (r : PlanRange) : Except ScheduleError PlanRange := do
  let period ← r.period.mapM (Scalar.settle (readPeriod? hours) .unsupportedPeriod)
  return { r with period }

def PlanSpec.settle (hours : Float) : PlanSpec → Except ScheduleError PlanSpec
  | point day => .ok (point day)
  | range r => (r.settle hours).map range

def ActualRange.settle (hours : Float) (r : ActualRange) : Except ScheduleError ActualRange := do
  let period ← r.period.mapM (Scalar.settle (readPeriod? hours) .unsupportedPeriod)
  let progress ← r.progress.mapM (Scalar.settle readProgress? .unsupportedProgress)
  return { r with period, progress }

def ActualSpec.settle (hours : Float) : ActualSpec → Except ScheduleError ActualSpec
  | point day => .ok (point day)
  | range r => (r.settle hours).map range

/-- Blocks settle in the order of their keys. -/
def TaskRecord.settle (hours : Float) (t : TaskRecord) : Except ScheduleError TaskRecord := do
  let actual ← t.actual.mapM (ActualSpec.settle hours)
  let plan ← t.plan.mapM (PlanSpec.settle hours)
  return { t with plan, actual }

def MilestoneRecord.settle (hours : Float) (m : MilestoneRecord) :
    Except ScheduleError MilestoneRecord := do
  let actual ← m.actual.mapM (ActualSpec.settle hours)
  let plan ← m.plan.mapM (PlanSpec.settle hours)
  return { m with plan, actual }

def Document.settle (hours : Float) (d : Document) : Except ScheduleError Document := do
  let milestones ← d.milestones.mapM (MilestoneRecord.settle hours)
  let tasks ← d.tasks.mapM (TaskRecord.settle hours)
  return { d with tasks, milestones }

/-! ## Numbers settle as they are -/

def Scalar.IsNumber : Scalar → Prop
  | number _ => True
  | text _ => False

section Numbers

variable (hours : Float)

theorem Scalar.mapM_settle {read : String → Option Float} {fault : String → ScheduleError}
    {o : Option Scalar} (h : ∀ s ∈ o.toList, s.IsNumber) : o.mapM (settle read fault) = .ok o := by
  refine option_mapM_eq_self fun s hs => ?_
  cases s with
  | number x => rfl
  | text s => exact (h _ (Option.mem_toList.mpr hs)).elim

theorem PlanSpec.settle_of_isNumber {p : PlanSpec} (h : ∀ s ∈ p.scalars, s.IsNumber) :
    p.settle hours = .ok p := by
  cases p with
  | point day => rfl
  | range r =>
    rw [settle, PlanRange.settle, Scalar.mapM_settle h]
    rfl

theorem ActualSpec.settle_of_isNumber {a : ActualSpec} (h : ∀ s ∈ a.scalars, s.IsNumber) :
    a.settle hours = .ok a := by
  cases a with
  | point day => rfl
  | range r =>
    rw [settle, ActualRange.settle, Scalar.mapM_settle fun s hs => h s (List.mem_append_left _ hs),
      Scalar.mapM_settle fun s hs => h s (List.mem_append_right _ hs)]
    rfl

theorem mapM_settle_of_blocks {plan : Option PlanSpec} {actual : Option ActualSpec}
    (h : ∀ s ∈ plan.toList.flatMap PlanSpec.scalars ++ actual.toList.flatMap ActualSpec.scalars,
      s.IsNumber) :
    plan.mapM (PlanSpec.settle hours) = .ok plan ∧
      actual.mapM (ActualSpec.settle hours) = .ok actual := by
  constructor
  · refine option_mapM_eq_self fun p hp => PlanSpec.settle_of_isNumber hours fun s hs => ?_
    exact h s (List.mem_append_left _ (List.mem_flatMap.mpr ⟨p, Option.mem_toList.mpr hp, hs⟩))
  · refine option_mapM_eq_self fun a ha => ActualSpec.settle_of_isNumber hours fun s hs => ?_
    exact h s (List.mem_append_right _ (List.mem_flatMap.mpr ⟨a, Option.mem_toList.mpr ha, hs⟩))

theorem TaskRecord.settle_of_isNumber {t : TaskRecord} (h : ∀ s ∈ t.scalars, s.IsNumber) :
    t.settle hours = .ok t := by
  obtain ⟨hplan, hactual⟩ := mapM_settle_of_blocks hours h
  rw [settle, hplan, hactual]
  rfl

theorem MilestoneRecord.settle_of_isNumber {m : MilestoneRecord}
    (h : ∀ s ∈ m.scalars, s.IsNumber) : m.settle hours = .ok m := by
  obtain ⟨hplan, hactual⟩ := mapM_settle_of_blocks hours h
  rw [settle, hplan, hactual]
  rfl

theorem Document.settle_of_isNumber {d : Document} (h : ∀ s ∈ d.scalars, s.IsNumber) :
    d.settle hours = .ok d := by
  have htasks : d.tasks.mapM (TaskRecord.settle hours) = .ok d.tasks := by
    refine mapM_eq_self fun t ht => TaskRecord.settle_of_isNumber hours fun s hs => ?_
    exact h s (List.mem_append_left _ (List.mem_flatMap.mpr ⟨t, ht, hs⟩))
  have hmilestones : d.milestones.mapM (MilestoneRecord.settle hours) = .ok d.milestones := by
    refine mapM_eq_self fun m hm => MilestoneRecord.settle_of_isNumber hours fun s hs => ?_
    exact h s (List.mem_append_right _ (List.mem_flatMap.mpr ⟨m, hm, hs⟩))
  rw [settle, htasks, hmilestones]
  rfl

end Numbers

/-! ## Values that settle -/

/-- Coercing a value and reading what comes of it gives the result, or fails as the result does. -/
structure Settles {α : Type} (hours : Float) (path : Option String) (v : Value)
    (read : Value → Except ShapeError α) (result : Except ScheduleError α) : Prop where
  error : error? (coerceAt hours path v) = error? result
  read_eq : ∀ w a, coerceAt hours path v = .ok w → result = .ok a → read w = .ok a

section Values

variable {α : Type} {hours : Float} {path : Option String} {p key : String} {v : Value}
  {fs gs : List (String × Value)} {read : Value → Except ShapeError α}
  {result : Except ScheduleError α} {settle : α → Except ScheduleError α} {a : α}

theorem Settles.of_ok {w : Value} (hw : coerceAt hours path v = .ok w) (hread : read w = .ok a) :
    Settles hours path v read (.ok a) := by
  refine ⟨by rw [hw]; rfl, fun w' b hw' hb => ?_⟩
  cases hw.symm.trans hw'
  cases hb
  exact hread

theorem Settles.of_error {e : ScheduleError} (h : coerceAt hours path v = .error e) :
    Settles hours path v read (.error e) := by
  refine ⟨by rw [h]; rfl, fun w a hw _ => ?_⟩
  cases h.symm.trans hw

theorem Settles.of_object (herror : error? (coerceFields hours path fs) = error? result)
    (hread : ∀ gs a, FieldsCoerced hours path (.object fs) gs → result = .ok a →
      read (.object gs) = .ok a) : Settles hours path (.object fs) read result := by
  refine ⟨by rw [coerceAt, error?_map, herror], fun w a hw ha => ?_⟩
  obtain ⟨gs, rfl, hgs⟩ := coerceAt_object hw
  exact hread gs a (fieldsCoerced_of_coerceFields hgs) ha

theorem settles_items {items : List Value} {as : List α}
    (h : List.Forall₂ (fun v a => Settles hours path v read (settle a)) items as) :
    error? (coerceItems hours path items) = error? (as.mapM settle) ∧
      ∀ ws bs, coerceItems hours path items = .ok ws → as.mapM settle = .ok bs →
        List.Forall₂ (fun w b => read w = .ok b) ws bs := by
  induction h with
  | nil =>
    refine ⟨rfl, fun ws bs hws hbs => ?_⟩
    cases hws
    cases hbs
    exact .nil
  | cons h _ ih =>
    obtain ⟨herror, hread⟩ := ih
    rw [coerceItems, List.mapM_cons]
    refine ⟨by rw [error?_bind_bind, error?_bind_bind, h.error, herror], fun ws bs hws hbs => ?_⟩
    obtain ⟨w, hw, hws⟩ := bind_eq_ok.mp hws
    obtain ⟨ws, hitems, hws⟩ := bind_eq_ok.mp hws
    cases hws
    obtain ⟨b, hb, hbs⟩ := bind_eq_ok.mp hbs
    obtain ⟨bs, hresults, hbs⟩ := bind_eq_ok.mp hbs
    cases hbs
    exact .cons (h.read_eq w b hw hb) (hread ws bs hitems hresults)

/-- A list settles item by item. -/
theorem Settles.list {items : List Value} {as : List α}
    (h : List.Forall₂ (fun v a => Settles hours (extend path itemKey) v read (settle a)) items as) :
    Settles hours path (.list items) (readList read) (as.mapM settle) := by
  obtain ⟨herror, hread⟩ := settles_items h
  refine ⟨by rw [coerceAt, error?_map, herror], fun w bs hw hbs => ?_⟩
  obtain ⟨ws, rfl, hws⟩ := coerceAt_list hw
  exact mapM_eq_ok_iff.mpr (hread ws bs hws hbs)

/-! ## Fields that settle -/

theorem field?_coerced {o : Option Value} (hg : FieldsCoerced hours path (.object fs) gs)
    (ho : (Value.object gs).field? key = o) :
    (o = none ∧ (Value.object fs).field? key = none) ∨
      ∃ v w, o = some w ∧ (Value.object fs).field? key = some v ∧
        coerceAt hours (extend path key) v = .ok w := by
  have hrel := hg key
  rw [ho] at hrel
  generalize (Value.object fs).field? key = before at hrel
  cases hrel with
  | none => exact .inl ⟨rfl, rfl⟩
  | some hw => exact .inr ⟨_, _, rfl, rfl, hw⟩

/-- A field that leads to no rule is the same after coercing. -/
theorem value?_of_rulesFrom (hpath : extend path key = some p) (h : rulesFrom p = [])
    (hg : FieldsCoerced hours path (.object fs) gs) (place : Nat) :
    (named gs).value? key place = (named fs).value? key place := by
  rw [value?_named, value?_named]
  rcases field?_coerced hg rfl with ⟨hgs, hfs⟩ | ⟨v, w, hgs, hfs, hw⟩
  · rw [hgs, hfs]
  · rw [hpath, coerceAt_of_rulesFrom h] at hw
    rw [hgs, hfs, Except.ok.inj hw]

theorem optional_of_rulesFrom {β : Type} {read : Value → Except ShapeError β} {o : Option β}
    {place : Nat} (hg : FieldsCoerced hours path (.object fs) gs) (hpath : extend path key = some p)
    (h : rulesFrom p = []) (ho : (named fs).optional key place read = .ok o) :
    (named gs).optional key place read = .ok o := by
  rw [← ho, Fields.optional, Fields.optional, value?_of_rulesFrom hpath h hg]

theorem given_of_rulesFrom {β : Type} {read : Value → Except ShapeError β} {place : Nat}
    (hg : FieldsCoerced hours path (.object fs) gs) (hpath : extend path key = some p)
    (h : rulesFrom p = []) :
    (named gs).given key place read = (named fs).given key place read := by
  rw [Fields.given, Fields.given, value?_of_rulesFrom hpath h hg]

/-- What coercing and reading an optional field gives. -/
structure FieldSettles {α : Type} (hours : Float) (path : Option String)
    (fs : List (String × Value)) (key : String) (read : Value → Except ShapeError α)
    (result : Except ScheduleError (Option α)) : Prop where
  error : fieldError? hours path (.object fs) key = error? result
  read_eq : ∀ gs o place, FieldsCoerced hours path (.object fs) gs → result = .ok o →
    (named gs).optional key place read = .ok o

theorem FieldSettles.of_absent (hv : (Value.object fs).field? key = none) :
    FieldSettles hours path fs key read (.ok none) := by
  refine ⟨by rw [fieldError?, hv]; rfl, fun gs o place hg ho => ?_⟩
  cases ho
  unfold Fields.optional
  rw [value?_named]
  rcases field?_coerced hg rfl with ⟨hnone, _⟩ | ⟨_, _, _, hsome, _⟩
  · rw [hnone]
  · cases hv.symm.trans hsome

theorem FieldSettles.of_null (hv : (Value.object fs).field? key = some .null)
    (hnull : coerceAt hours (extend path key) .null = .ok .null) :
    FieldSettles hours path fs key read (.ok none) := by
  refine ⟨by rw [fieldError?, hv, Option.bind_some, hnull]; rfl, fun gs o place hg ho => ?_⟩
  cases ho
  unfold Fields.optional
  rw [value?_named]
  rcases field?_coerced hg rfl with ⟨hnone, _⟩ | ⟨v, w, hgs, hsome, hw⟩
  · rw [hnone]
  · cases hv.symm.trans hsome
    cases hnull.symm.trans hw
    rw [hgs]

theorem FieldSettles.of_settles (hv : (Value.object fs).field? key = some v)
    (hreads : ∀ a, read .null ≠ .ok a)
    (h : Settles hours (extend path key) v read result) :
    FieldSettles hours path fs key read (result.map some) := by
  refine ⟨by rw [fieldError?, hv, Option.bind_some, h.error, error?_map],
    fun gs o place hg ho => ?_⟩
  obtain ⟨a, ha, rfl⟩ := map_eq_ok.mp ho
  unfold Fields.optional
  rw [value?_named]
  rcases field?_coerced hg rfl with ⟨_, hnone⟩ | ⟨v, w, hgs, hsome, hw⟩
  · cases hv.symm.trans hnone
  · cases hv.symm.trans hsome
    have hread := h.read_eq w a hw ha
    rw [hgs]
    cases w with
    | null => exact absurd hread (hreads a)
    | _ => simp only [hread, Except.map]

/-- A field that may be left out settles when its value does; null has to stay null. -/
theorem FieldSettles.of_optional {o : Option α} {place : Nat}
    (ho : (named fs).optional key place read = .ok o) (hreads : ∀ a, read .null ≠ .ok a)
    (hnull : (Value.object fs).field? key = some .null →
      coerceAt hours (extend path key) .null = .ok .null)
    (h : ∀ v a, (Value.object fs).field? key = some v → o = some a → read v = .ok a →
      Settles hours (extend path key) v read (settle a)) :
    FieldSettles hours path fs key read (o.mapM settle) := by
  unfold Fields.optional at ho
  rw [value?_named] at ho
  split at ho
  · rename_i hv
    cases ho
    exact .of_absent hv
  · rename_i hv
    cases ho
    exact .of_null hv (hnull hv)
  · rename_i v _ hv
    obtain ⟨a, ha, ho⟩ := map_eq_ok.mp ho
    subst ho
    rw [mapM_some]
    exact .of_settles hv hreads (h v a hv rfl ha)

end Values

/-! ## Blocks -/

/-- A path below which rules are about these keys and nothing else: neither about other keys nor about
what is behind these. -/
structure BlockPath (p : String) (keys : List String) : Prop where
  self : rule? p = none
  others : ∀ key, key ∉ keys → rulesFrom (p ++ "." ++ key) = []

theorem blockPath {p : String} {keys : List String} (hself : rule? p = none)
    (htails : tails (p ++ ".") = keys.map String.toList) (hlast : ∀ key ∈ keys, '.' ∉ key.toList) :
    BlockPath p keys := by
  refine ⟨hself, fun key hkey => rulesFrom_of_last ?_ ?_⟩
  · intro tail htail
    rw [htails] at htail
    obtain ⟨k, hk, rfl⟩ := List.mem_map.mp htail
    exact hlast k hk
  · intro hmem
    rw [htails] at hmem
    obtain ⟨k, hk, heq⟩ := List.mem_map.mp hmem
    exact hkey (String.toList_inj.mp heq ▸ hk)

/-- A block in which reading and coercing see the same scalars: null stands for none of them, and
there are no texts among those of a list, in which nothing is at the path of a scalar. -/
structure RegularBlock (keys : List String) (scalars : List Scalar) (v : Value) : Prop where
  no_null : ∀ key ∈ keys, v.field? key ≠ some .null
  unlisted : ∀ items, v = .list items → ∀ s ∈ scalars, s.IsNumber

section Blocks

variable {hours : Float} {p key : String} {v : Value} {fs gs : List (String × Value)}

theorem wellFormed_of_field? {w : Value} (hfs : (Value.object fs).isWellFormed = true)
    (hw : (Value.object fs).field? key = some w) : w.isWellFormed = true := by
  have hvalue : (named fs).value? key 0 = some w := hw
  have hfields : Fields.ofValue key (.object fs) = .ok (named fs) := rfl
  exact wellFormed_of_mem_values hfs hfields w (mem_values hvalue)

/-- A rule that makes finite numbers of numbers and of the texts that it reads. -/
def MakesNumbers (hours : Float) (rule : Rule) (read : String → Option Float)
    (fault : String → ScheduleError) : Prop :=
  ∀ v, rule.apply hours v =
    match finiteNumber? read v with
    | some w => .ok w
    | none => .error (fault (describe v))

theorem makesNumbers_period (hours : Float) :
    MakesNumbers hours .period (readPeriod? hours) .unsupportedPeriod := fun _ => rfl

theorem makesNumbers_progress (hours : Float) :
    MakesNumbers hours .progress readProgress? .unsupportedProgress := fun _ => rfl

variable {rule : Rule} {read : String → Option Float} {fault : String → ScheduleError}

theorem Scalar.settles_number {n : Num} (hrule : rule? p = some rule)
    (hmakes : MakesNumbers hours rule read fault) (hn : Number.isFinite n.toFloat = true) :
    Settles hours (some p) (.num n) ofValue ((number n.toFloat).settle read fault) := by
  have hw : coerceAt hours (some p) (.num n) = .ok (.num (.real n.toFloat)) := by
    rw [coerceAt, coerceLeaf, Option.getD_some, hrule]
    simp only [hmakes (.num n), finiteNumber?, hn, if_true]
  exact .of_ok hw rfl

theorem Scalar.settles_text {s : String} (hrule : rule? p = some rule)
    (hmakes : MakesNumbers hours rule read fault) :
    Settles hours (some p) (.str s) ofValue ((text s).settle read fault) := by
  have hw : coerceAt hours (some p) (.str s) = rule.apply hours (.str s) := by
    rw [coerceAt, coerceLeaf, Option.getD_some, hrule]
  rw [hmakes (.str s), finiteNumber?] at hw
  rw [settle]
  cases hread : read s with
  | none =>
    simp only [hread] at hw
    exact .of_error hw
  | some x =>
    cases hx : Number.isFinite x with
    | true =>
      simp only [hread, hx, if_true] at hw
      simp only [hx, if_true]
      exact .of_ok hw rfl
    | false =>
      simp only [hread, hx, Bool.false_eq_true, if_false] at hw
      simp only [hx, Bool.false_eq_true, if_false]
      exact .of_error hw

theorem Scalar.settles {s : Scalar} (hrule : rule? p = some rule)
    (hmakes : MakesNumbers hours rule read fault) (hv : v.isWellFormed = true)
    (h : ofValue v = .ok s) : Settles hours (some p) v ofValue (s.settle read fault) := by
  cases v with
  | num n =>
    cases h
    exact settles_number hrule hmakes hv
  | str text =>
    cases h
    exact settles_text hrule hmakes
  | _ => cases h

theorem Scalar.fieldSettles {o : Option Scalar} {place : Nat}
    (hrule : rule? (p ++ "." ++ key) = some rule) (hmakes : MakesNumbers hours rule read fault)
    (hfs : (Value.object fs).isWellFormed = true)
    (hnull : (Value.object fs).field? key ≠ some .null)
    (ho : (named fs).optional key place ofValue = .ok o) :
    FieldSettles hours (some p) fs key ofValue (o.mapM (settle read fault)) := by
  refine .of_optional ho (fun _ h => nomatch h) (fun h => absurd h hnull) fun w s hw _ hread => ?_
  exact settles hrule hmakes (wellFormed_of_field? hfs hw) hread

theorem PlanSpec.settles {a : PlanSpec} (hp : BlockPath p ["period"])
    (hperiod : rule? (p ++ "." ++ "period") = some .period) (hv : v.isWellFormed = true)
    (hread : ofValue v = .ok a) (hregular : RegularBlock ["period"] a.scalars v) :
    Settles hours (some p) v ofValue (a.settle hours) := by
  rcases ofValue_eq_ok_iff.mp hread with ⟨day, rfl, rfl⟩ | ⟨fields, r, hfields, hr, rfl⟩
  · exact .of_ok (coerceLeaf_of_rule? hp.self (.str day)) hread
  rcases Fields.ofValue_eq_ok hfields with ⟨fs, rfl, rfl⟩ | ⟨items, rfl, rfl⟩
  · have hfield := Scalar.fieldSettles hperiod (makesNumbers_period hours) hv
      (hregular.no_null _ (by simp)) hr.period
    refine .of_object ?_ fun gs b hg hb => ?_
    · rw [error?_coerceFields_of_keys (List.pairwise_singleton _ "period")
        (Value.haveWellFormed_iff.mp hv).1, List.findSome?_singleton, hfield.error, settle,
        error?_map, PlanRange.settle, error?_bind_pure]
      exact fun f _ hf => ⟨f.2, coerceAt_of_rulesFrom (hp.others f.1 hf) f.2⟩
    · obtain ⟨r', hr', rfl⟩ := map_eq_ok.mp hb
      obtain ⟨period, hperiod, hr'⟩ := bind_eq_ok.mp hr'
      cases hr'
      refine ofValue_eq_ok_iff.mpr (.inr ⟨named gs, _, rfl, ⟨trivial, ?_, ?_, ?_⟩, rfl⟩)
      · exact optional_of_rulesFrom hg rfl (hp.others "start" (by decide)) hr.start
      · exact optional_of_rulesFrom hg rfl (hp.others "end" (by decide)) hr.finish
      · exact hfield.read_eq gs period 2 hg hperiod
  · rw [settle_of_isNumber hours (hregular.unlisted items rfl)]
    exact .of_ok (coerceAt_list_of_rulesFrom (hp.others itemKey (by decide)) items) hread

theorem ActualSpec.settles {a : ActualSpec} (hp : BlockPath p ["period", "progress"])
    (hperiod : rule? (p ++ "." ++ "period") = some .period)
    (hprogress : rule? (p ++ "." ++ "progress") = some .progress) (hv : v.isWellFormed = true)
    (hread : ofValue v = .ok a) (hregular : RegularBlock ["period", "progress"] a.scalars v) :
    Settles hours (some p) v ofValue (a.settle hours) := by
  rcases ofValue_eq_ok_iff.mp hread with ⟨day, rfl, rfl⟩ | ⟨fields, r, hfields, hr, rfl⟩
  · exact .of_ok (coerceLeaf_of_rule? hp.self (.str day)) hread
  rcases Fields.ofValue_eq_ok hfields with ⟨fs, rfl, rfl⟩ | ⟨items, rfl, rfl⟩
  · have hfield := Scalar.fieldSettles hperiod (makesNumbers_period hours) hv
      (hregular.no_null _ (by simp)) hr.period
    have hfield' := Scalar.fieldSettles hprogress (makesNumbers_progress hours) hv
      (hregular.no_null _ (by simp)) hr.progress
    refine .of_object ?_ fun gs b hg hb => ?_
    · rw [error?_coerceFields_of_pair "period" "progress" (by decide)
        (Value.haveWellFormed_iff.mp hv).1, hfield.error, hfield'.error, settle, error?_map,
        ActualRange.settle, error?_bind_bind]
      exact fun f _ hf => ⟨f.2, coerceAt_of_rulesFrom (hp.others f.1 hf) f.2⟩
    · obtain ⟨r', hr', rfl⟩ := map_eq_ok.mp hb
      obtain ⟨period, hperiod, hr'⟩ := bind_eq_ok.mp hr'
      obtain ⟨progress, hprogress, hr'⟩ := bind_eq_ok.mp hr'
      cases hr'
      refine ofValue_eq_ok_iff.mpr (.inr ⟨named gs, _, rfl, ⟨trivial, ?_, ?_, ?_, ?_, ?_⟩, rfl⟩)
      · exact optional_of_rulesFrom hg rfl (hp.others "start" (by decide)) hr.start
      · exact optional_of_rulesFrom hg rfl (hp.others "end" (by decide)) hr.finish
      · exact optional_of_rulesFrom hg rfl (hp.others "completed" (by decide)) hr.completed
      · exact hfield.read_eq gs period 3 hg hperiod
      · exact hfield'.read_eq gs progress 4 hg hprogress
  · rw [settle_of_isNumber hours (hregular.unlisted items rfl)]
    exact .of_ok (coerceAt_list_of_rulesFrom (hp.others itemKey (by decide)) items) hread

end Blocks

/-! ## Items -/

/-- A path of items: of the fields there rules are about nothing but scalars in the blocks. -/
structure ItemPath (p : String) : Prop where
  plan : BlockPath (p ++ "." ++ "plan") ["period"]
  plan_period : rule? (p ++ "." ++ "plan" ++ "." ++ "period") = some .period
  actual : BlockPath (p ++ "." ++ "actual") ["period", "progress"]
  actual_period : rule? (p ++ "." ++ "actual" ++ "." ++ "period") = some .period
  actual_progress : rule? (p ++ "." ++ "actual" ++ "." ++ "progress") = some .progress
  blocks : (tails (p ++ ".")).map (List.takeWhile (· ≠ '.')) =
    ["plan", "actual", "actual"].map String.toList
  others : ∀ key ∈ [itemKey, "name", "text", "assignee"], rulesFrom (p ++ "." ++ key) = []

theorem itemPath_task : ItemPath "task.elem" where
  plan := blockPath rfl rfl (by decide)
  plan_period := rfl
  actual := blockPath rfl rfl (by decide)
  actual_period := rfl
  actual_progress := rfl
  blocks := rfl
  others := by decide

theorem itemPath_milestone : ItemPath "milestone.elem" where
  plan := blockPath rfl rfl (by decide)
  plan_period := rfl
  actual := blockPath rfl rfl (by decide)
  actual_period := rfl
  actual_progress := rfl
  blocks := rfl
  others := by decide

/-- A key without a point leads to no rule unless it is that of a block. -/
theorem ItemPath.clear_of_undotted {p key : String} (hp : ItemPath p) (hdot : '.' ∉ key.toList)
    (hkey : key ∉ ["actual", "plan"]) : Clear (p ++ "." ++ key) := by
  refine clear_of_rulesFrom (rulesFrom_of_undotted hp.blocks hdot fun hmem => hkey ?_)
  revert hmem
  simp only [List.mem_cons, List.not_mem_nil, or_false]
  tauto

/-- An item in which reading and coercing see the same blocks: no other key goes on to the path of a
scalar, and as a list it has no textual scalars. -/
structure RegularItem (p : String) (plan : Option PlanSpec) (actual : Option ActualSpec)
    (v : Value) : Prop where
  clear : ∀ fs, v = .object fs → ∀ f ∈ fs, f.1 ∉ ["actual", "plan"] → Clear (p ++ "." ++ f.1)
  unlisted : ∀ items, v = .list items →
    ∀ s ∈ plan.toList.flatMap PlanSpec.scalars ++ actual.toList.flatMap ActualSpec.scalars,
      s.IsNumber
  plan : ∀ w a, v.field? "plan" = some w → plan = some a → RegularBlock ["period"] a.scalars w
  actual : ∀ w a, v.field? "actual" = some w → actual = some a →
    RegularBlock ["period", "progress"] a.scalars w

section Items

variable {hours : Float} {p : String} {v : Value} {fs gs : List (String × Value)}
  {plan : Option PlanSpec} {actual : Option ActualSpec} {place : Nat}

theorem PlanSpec.fieldSettles (hours : Float) (hp : ItemPath p)
    (hfs : (Value.object fs).isWellFormed = true)
    (ho : (named fs).optional "plan" place ofValue = .ok plan)
    (hregular : RegularItem p plan actual (.object fs)) :
    FieldSettles hours (some p) fs "plan" ofValue (plan.mapM (settle hours)) := by
  refine .of_optional ho (fun _ h => nomatch h) (fun _ => ?_) fun w a hw ha hread => ?_
  · exact coerceLeaf_of_rule? hp.plan.self .null
  · exact settles hp.plan hp.plan_period (wellFormed_of_field? hfs hw) hread
      (hregular.plan w a hw ha)

theorem ActualSpec.fieldSettles (hours : Float) (hp : ItemPath p)
    (hfs : (Value.object fs).isWellFormed = true)
    (ho : (named fs).optional "actual" place ofValue = .ok actual)
    (hregular : RegularItem p plan actual (.object fs)) :
    FieldSettles hours (some p) fs "actual" ofValue (actual.mapM (settle hours)) := by
  refine .of_optional ho (fun _ h => nomatch h) (fun _ => ?_) fun w a hw ha hread => ?_
  · exact coerceLeaf_of_rule? hp.actual.self .null
  · exact settles hp.actual hp.actual_period hp.actual_progress (wellFormed_of_field? hfs hw) hread
      (hregular.actual w a hw ha)

/-- What coercing finds fault with in the object of an item are its blocks, in the order of their
keys. -/
theorem error?_item {actualResult : Except ScheduleError (Option ActualSpec)}
    {planResult : Except ScheduleError (Option PlanSpec)}
    (hfs : (Value.object fs).isWellFormed = true)
    (hregular : RegularItem p plan actual (.object fs))
    (hactual : FieldSettles hours (some p) fs "actual" ActualSpec.ofValue actualResult)
    (hplan : FieldSettles hours (some p) fs "plan" PlanSpec.ofValue planResult) :
    error? (coerceFields hours (some p) fs) = (error? actualResult).or (error? planResult) := by
  rw [error?_coerceFields_of_pair "actual" "plan" (by decide) (Value.haveWellFormed_iff.mp hfs).1,
    hactual.error, hplan.error]
  intro f hf hnot
  obtain ⟨w, hw, _⟩ := coerceAt_of_clear (hregular.clear fs rfl f hf hnot) f.2
  exact ⟨w, hw⟩

theorem TaskRecord.settles {t : TaskRecord} (hv : v.isWellFormed = true) (hread : ofValue v = .ok t)
    (hregular : RegularItem "task.elem" t.plan t.actual v) :
    Settles hours (some "task.elem") v ofValue (t.settle hours) := by
  obtain ⟨fields, hfields, ht⟩ := ofValue_eq_ok_iff.mp hread
  rcases Fields.ofValue_eq_ok hfields with ⟨fs, rfl, rfl⟩ | ⟨items, rfl, rfl⟩
  · have hplan := PlanSpec.fieldSettles hours itemPath_task hv ht.plan hregular
    have hactual := ActualSpec.fieldSettles hours itemPath_task hv ht.actual hregular
    refine .of_object ?_ fun gs t' hg ht' => ?_
    · rw [error?_item hv hregular hactual hplan, settle, error?_bind_bind]
    · obtain ⟨actual, hactual', ht'⟩ := bind_eq_ok.mp ht'
      obtain ⟨plan, hplan', ht'⟩ := bind_eq_ok.mp ht'
      cases ht'
      refine ofValue_eq_ok_iff.mpr ⟨Fields.named gs, rfl, trivial, ?_, ?_, ?_, ?_, ?_⟩
      · rw [given_of_rulesFrom hg rfl (itemPath_task.others "name" (by simp)), ht.name]
      · exact optional_of_rulesFrom hg rfl (itemPath_task.others "text" (by simp)) ht.text
      · exact hplan.read_eq gs plan 2 hg hplan'
      · exact hactual.read_eq gs actual 3 hg hactual'
      · exact optional_of_rulesFrom hg rfl (itemPath_task.others "assignee" (by simp)) ht.assignee
  · rw [settle_of_isNumber hours (hregular.unlisted items rfl)]
    have hitem := itemPath_task.others itemKey (by simp)
    exact .of_ok (coerceAt_list_of_rulesFrom hitem items) hread

theorem MilestoneRecord.settles {m : MilestoneRecord} (hv : v.isWellFormed = true)
    (hread : ofValue v = .ok m) (hregular : RegularItem "milestone.elem" m.plan m.actual v) :
    Settles hours (some "milestone.elem") v ofValue (m.settle hours) := by
  obtain ⟨fields, hfields, hm⟩ := ofValue_eq_ok_iff.mp hread
  rcases Fields.ofValue_eq_ok hfields with ⟨fs, rfl, rfl⟩ | ⟨items, rfl, rfl⟩
  · have hplan := PlanSpec.fieldSettles hours itemPath_milestone hv hm.plan hregular
    have hactual := ActualSpec.fieldSettles hours itemPath_milestone hv hm.actual hregular
    refine .of_object ?_ fun gs m' hg hm' => ?_
    · rw [error?_item hv hregular hactual hplan, settle, error?_bind_bind]
    · obtain ⟨actual, hactual', hm'⟩ := bind_eq_ok.mp hm'
      obtain ⟨plan, hplan', hm'⟩ := bind_eq_ok.mp hm'
      cases hm'
      refine ofValue_eq_ok_iff.mpr ⟨Fields.named gs, rfl, trivial, ?_, ?_, ?_, ?_⟩
      · rw [given_of_rulesFrom hg rfl (itemPath_milestone.others "name" (by simp)), hm.name]
      · exact optional_of_rulesFrom hg rfl (itemPath_milestone.others "text" (by simp)) hm.text
      · exact hplan.read_eq gs plan 2 hg hplan'
      · exact hactual.read_eq gs actual 3 hg hactual'
  · rw [settle_of_isNumber hours (hregular.unlisted items rfl)]
    have hitem := itemPath_milestone.others itemKey (by simp)
    exact .of_ok (coerceAt_list_of_rulesFrom hitem items) hread

end Items

end GanttChart
