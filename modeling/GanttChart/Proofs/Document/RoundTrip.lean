import GanttChart.Proofs.Document.Decoded
import GanttChart.Source

/-! # Documents that are written and read back

What is written for a document is read as that document, unless one of its numbers is not finite and
so has no text. Numbers that have been read are finite, so whatever has been read once is written and
read back for good. -/

namespace GanttChart

open Outcome Fields

/-- What `write` writes is read back, and it is not the null that stands for an absent part. -/
structure ReadsBack {α : Type} (write : α → Value) (read : Value → Except ShapeError α) (a : α) :
    Prop where
  ne_null : write a ≠ .null
  read_write : read (write a) = .ok a

/-- A number is finite; a text may say anything. -/
def Scalar.IsFinite : Scalar → Prop
  | number x => Number.isFinite x = true
  | text _ => True

theorem Scalar.readsBack {s : Scalar} (h : s.IsFinite) : ReadsBack toValue ofValue s := by
  cases s with
  | text s => exact ⟨by simp [toValue], rfl⟩
  | number x =>
    have hx : toValue (number x) = .num (.real x) := if_pos h
    exact ⟨by simp [hx], by rw [hx]; rfl⟩

theorem readsBack_text (s : String) : ReadsBack .str readText s := ⟨by simp, rfl⟩

theorem ReadsBack.list {α : Type} {write : α → Value} {read : Value → Except ShapeError α}
    {as : List α} (h : ∀ a ∈ as, ReadsBack write read a) :
    ReadsBack (fun as : List α => .list (as.map write)) (readList read) as := by
  refine ⟨by simp, mapM_eq_ok_iff.mpr ?_⟩
  rw [List.forall₂_map_left_iff, List.forall₂_same]
  exact fun a ha => (h a ha).read_write

theorem readsBack_strings (names : List String) :
    ReadsBack Value.strings (readList readText) names :=
  .list fun s _ => readsBack_text s

theorem Scale.readsBack (s : Scale) : ReadsBack (fun s : Scale => .str s.name) ofValue s :=
  ⟨by simp, by cases s <;> rfl⟩

/-! ## Fields -/

namespace Fields

variable {α : Type} {write : α → Value} {read : Value → Except ShapeError α}
  {fs : List (String × Value)}

/-- The fields that a record is written with, as a record is read from them. -/
def ofWritten (fs : List (String × Value)) : Fields :=
  named (fs.foldl (fun held f => Value.insertField f.1 f.2 held) [])

theorem ofValue_ofFields (type : String) : ofValue type (.ofFields fs) = .ok (ofWritten fs) := rfl

theorem fits_ofWritten (size : Nat) : (ofWritten fs).Fits size := trivial

theorem value?_ofWritten (key : String) (place : Nat) :
    (ofWritten fs).value? key place = (Value.object fs.reverse).field? key :=
  Value.field?_ofFields

theorem optional_written {o : Option α} (key : String)
    (hv : (Value.object fs.reverse).field? key = o.map write)
    (h : ∀ a ∈ o, ReadsBack write read a) (place : Nat) :
    (ofWritten fs).optional key place read = .ok o := by
  unfold optional
  rw [value?_ofWritten, hv]
  cases o with
  | none => rfl
  | some a =>
    obtain ⟨hnull, hread⟩ := h a rfl
    cases hw : write a with
    | null => exact absurd hw hnull
    | _ => simp only [Option.map_some, hread, Except.map]

theorem given_written {a : α} (key : String)
    (hv : (Value.object fs.reverse).field? key = some (write a)) (h : ReadsBack write read a)
    (place : Nat) : (ofWritten fs).given key place read = .ok (some a) := by
  unfold given
  rw [value?_ofWritten, hv]
  simp only [h.read_write, Except.map]

theorem optional_text_written {o : Option String} (key : String)
    (hv : (Value.object fs.reverse).field? key = o.map .str) (place : Nat) :
    (ofWritten fs).optional key place readText = .ok o :=
  optional_written key hv (fun s _ => readsBack_text s) place

end Fields

/-! ## Records that are written -/

theorem PlanRange.readFrom_toValue {r : PlanRange} (h : ∀ s ∈ r.period, s.IsFinite) :
    ∃ fields, Fields.ofValue "PlanRange" r.toValue = .ok fields ∧ r.ReadFrom fields := by
  refine ⟨_, ofValue_ofFields _, fits_ofWritten 3, ?_, ?_, ?_⟩
  · exact optional_text_written "start" (by simp) 0
  · exact optional_text_written "end" (by simp) 1
  · exact optional_written "period" (by simp) (fun s hs => Scalar.readsBack (h s hs)) 2

theorem PlanSpec.readsBack {p : PlanSpec} (h : ∀ s ∈ p.scalars, s.IsFinite) :
    ReadsBack toValue ofValue p := by
  cases p with
  | point day => exact ⟨by simp [toValue], rfl⟩
  | range r =>
    obtain ⟨fields, hfields, hr⟩ :=
      PlanRange.readFrom_toValue fun s hs => h s (Option.mem_toList.mpr hs)
    refine ⟨?_, ofValue_eq_ok_iff.mpr (.inr ⟨fields, r, hfields, hr, rfl⟩)⟩
    simp [toValue, PlanRange.toValue, Value.ofFields]

theorem ActualRange.readFrom_toValue {r : ActualRange} (hperiod : ∀ s ∈ r.period, s.IsFinite)
    (hprogress : ∀ s ∈ r.progress, s.IsFinite) :
    ∃ fields, Fields.ofValue "ActualRange" r.toValue = .ok fields ∧ r.ReadFrom fields := by
  refine ⟨_, ofValue_ofFields _, fits_ofWritten 5, ?_, ?_, ?_, ?_, ?_⟩
  · exact optional_text_written "start" (by simp) 0
  · exact optional_text_written "end" (by simp) 1
  · exact optional_text_written "completed" (by simp) 2
  · exact optional_written "period" (by simp) (fun s hs => Scalar.readsBack (hperiod s hs)) 3
  · exact optional_written "progress" (by simp) (fun s hs => Scalar.readsBack (hprogress s hs)) 4

theorem ActualSpec.readsBack {a : ActualSpec} (h : ∀ s ∈ a.scalars, s.IsFinite) :
    ReadsBack toValue ofValue a := by
  cases a with
  | point day => exact ⟨by simp [toValue], rfl⟩
  | range r =>
    obtain ⟨fields, hfields, hr⟩ := ActualRange.readFrom_toValue
      (fun s hs => h s (List.mem_append_left _ (Option.mem_toList.mpr hs)))
      (fun s hs => h s (List.mem_append_right _ (Option.mem_toList.mpr hs)))
    refine ⟨?_, ofValue_eq_ok_iff.mpr (.inr ⟨fields, r, hfields, hr, rfl⟩)⟩
    simp [toValue, ActualRange.toValue, Value.ofFields]

/-- The blocks of an item are read back when all their scalars are. -/
theorem readsBack_blocks {plan : Option PlanSpec} {actual : Option ActualSpec}
    (h : ∀ s ∈ plan.toList.flatMap PlanSpec.scalars ++ actual.toList.flatMap ActualSpec.scalars,
      s.IsFinite) :
    (∀ p ∈ plan, ReadsBack PlanSpec.toValue PlanSpec.ofValue p) ∧
      ∀ a ∈ actual, ReadsBack ActualSpec.toValue ActualSpec.ofValue a := by
  constructor
  · intro p hp
    refine PlanSpec.readsBack fun s hs => h s (List.mem_append_left _ ?_)
    exact List.mem_flatMap.mpr ⟨p, Option.mem_toList.mpr hp, hs⟩
  · intro a ha
    refine ActualSpec.readsBack fun s hs => h s (List.mem_append_right _ ?_)
    exact List.mem_flatMap.mpr ⟨a, Option.mem_toList.mpr ha, hs⟩

theorem TaskRecord.readsBack {t : TaskRecord} (h : ∀ s ∈ t.scalars, s.IsFinite) :
    ReadsBack toValue ofValue t := by
  obtain ⟨hplan, hactual⟩ := readsBack_blocks h
  refine ⟨by simp [toValue, Value.ofFields], ofValue_eq_ok_iff.mpr
    ⟨_, ofValue_ofFields _, fits_ofWritten 5, ?_, ?_, ?_, ?_, ?_⟩⟩
  · exact given_written "name" (by simp) (readsBack_text t.name) 0
  · exact optional_text_written "text" (by simp) 1
  · exact optional_written "plan" (by simp) hplan 2
  · exact optional_written "actual" (by simp) hactual 3
  · exact optional_text_written "assignee" (by simp) 4

theorem MilestoneRecord.readsBack {m : MilestoneRecord} (h : ∀ s ∈ m.scalars, s.IsFinite) :
    ReadsBack toValue ofValue m := by
  obtain ⟨hplan, hactual⟩ := readsBack_blocks h
  refine ⟨by simp [toValue, Value.ofFields], ofValue_eq_ok_iff.mpr
    ⟨_, ofValue_ofFields _, fits_ofWritten 4, ?_, ?_, ?_, ?_⟩⟩
  · exact given_written "name" (by simp) (readsBack_text m.name) 0
  · exact optional_text_written "text" (by simp) 1
  · exact optional_written "plan" (by simp) hplan 2
  · exact optional_written "actual" (by simp) hactual 3

theorem GroupRecord.readsBack (g : GroupRecord) : ReadsBack toValue ofValue g := by
  refine ⟨by simp [toValue, Value.ofFields], ofValue_eq_ok_iff.mpr
    ⟨_, ofValue_ofFields _, fits_ofWritten 2, ?_, map_eq_ok.mpr ⟨some g.member, ?_, rfl⟩⟩⟩
  · exact given_written "text" (by simp) (readsBack_text g.text) 0
  · exact given_written "member" (by simp) (readsBack_strings g.member) 1

theorem ProjectSection.readsBack (p : ProjectSection) : ReadsBack toValue ofValue p := by
  refine ⟨by simp [toValue, Value.ofFields], ofValue_eq_ok_iff.mpr
    ⟨_, ofValue_ofFields _, fits_ofWritten 5, ?_, ?_, ?_,
      map_eq_ok.mpr ⟨some p.closed, ?_, rfl⟩, ?_⟩⟩
  · exact optional_text_written "start" (by simp) 0
  · exact optional_text_written "end" (by simp) 1
  · exact optional_text_written "today" (by simp) 2
  · exact given_written "closed" (by simp) (readsBack_strings p.closed) 3
  · exact optional_written "scale" (by simp) (fun s _ => Scale.readsBack s) 4

theorem ColorStyle.readsBack (c : ColorStyle) : ReadsBack toValue ofValue c := by
  refine ⟨by simp [toValue, Value.ofFields], ofValue_eq_ok_iff.mpr
    ⟨_, ofValue_ofFields _, fits_ofWritten 3, ?_, ?_, ?_⟩⟩
  · exact optional_text_written "task" (by simp) 0
  · exact optional_text_written "milestone" (by simp) 1
  · exact optional_text_written "path" (by simp) 2

theorem ColorStyle.readsBack_section (c : ColorStyle) :
    ReadsBack (fun c : ColorStyle => .ofFields [("color", c.toValue)]) ofSection c := by
  refine ⟨by simp [Value.ofFields], ofSection_eq_ok_iff.mpr
    ⟨_, ofValue_ofFields _, fits_ofWritten 1, map_eq_ok.mpr ⟨some c, ?_, rfl⟩⟩⟩
  exact given_written "color" (by simp) c.readsBack 0

theorem Document.readsBack {d : Document} (h : ∀ s ∈ d.scalars, s.IsFinite) :
    ReadsBack toValue ofValue d := by
  have htasks : ∀ t ∈ d.tasks, ReadsBack TaskRecord.toValue TaskRecord.ofValue t := by
    intro t ht
    refine TaskRecord.readsBack fun s hs => h s (List.mem_append_left _ ?_)
    exact List.mem_flatMap.mpr ⟨t, ht, hs⟩
  have hmilestones :
      ∀ m ∈ d.milestones, ReadsBack MilestoneRecord.toValue MilestoneRecord.ofValue m := by
    intro m hm
    refine MilestoneRecord.readsBack fun s hs => h s (List.mem_append_right _ ?_)
    exact List.mem_flatMap.mpr ⟨m, hm, hs⟩
  refine ⟨by simp [toValue, Value.ofFields], ofValue_eq_ok_iff.mpr
    ⟨_, ofValue_ofFields _, fits_ofWritten 5, map_eq_ok.mpr ⟨some d.project, ?_, rfl⟩,
      map_eq_ok.mpr ⟨some d.colors, ?_, rfl⟩, map_eq_ok.mpr ⟨some d.tasks, ?_, rfl⟩,
      map_eq_ok.mpr ⟨some d.milestones, ?_, rfl⟩, map_eq_ok.mpr ⟨some d.groups, ?_, rfl⟩⟩⟩
  · exact given_written "project" (by simp) d.project.readsBack 0
  · exact given_written "style" (by simp) d.colors.readsBack_section 1
  · exact given_written "task" (by simp) (.list htasks) 2
  · exact given_written "milestone" (by simp) (.list hmilestones) 3
  · exact given_written "group" (by simp) (.list fun g _ => g.readsBack) 4

/-! ## Records that are read -/

section Read

variable {v : Value} {fields : Fields}

theorem Scalar.isFinite_of_ofValue {s : Scalar} (hv : v.isWellFormed = true)
    (h : ofValue v = .ok s) : s.IsFinite := by
  cases v with
  | num n =>
    cases h
    exact hv
  | str s =>
    cases h
    trivial
  | _ => cases h

theorem Scalar.isFinite_of_optional {o : Option Scalar} {key : String} {place : Nat}
    (hv : ∀ w ∈ fields.values, w.isWellFormed = true)
    (h : fields.optional key place ofValue = .ok o) : ∀ s ∈ o, s.IsFinite := by
  intro s hs
  cases hs
  obtain ⟨w, hw, _, hread⟩ := optional_eq_some h
  exact isFinite_of_ofValue (hv w (mem_values hw)) hread

theorem PlanSpec.isFinite_of_ofValue {p : PlanSpec} (hv : v.isWellFormed = true)
    (h : ofValue v = .ok p) : ∀ s ∈ p.scalars, s.IsFinite := by
  intro s hs
  rcases ofValue_eq_ok_iff.mp h with ⟨day, _, rfl⟩ | ⟨fields, r, hfields, hr, rfl⟩
  · cases hs
  · have hvalues := wellFormed_of_mem_values hv hfields
    exact Scalar.isFinite_of_optional hvalues hr.period s (Option.mem_toList.mp hs)

theorem ActualSpec.isFinite_of_ofValue {a : ActualSpec} (hv : v.isWellFormed = true)
    (h : ofValue v = .ok a) : ∀ s ∈ a.scalars, s.IsFinite := by
  intro s hs
  rcases ofValue_eq_ok_iff.mp h with ⟨day, _, rfl⟩ | ⟨fields, r, hfields, hr, rfl⟩
  · cases hs
  · have hvalues := wellFormed_of_mem_values hv hfields
    rcases List.mem_append.mp hs with hs | hs
    · exact Scalar.isFinite_of_optional hvalues hr.period s (Option.mem_toList.mp hs)
    · exact Scalar.isFinite_of_optional hvalues hr.progress s (Option.mem_toList.mp hs)

theorem isFinite_of_blocks {plan : Option PlanSpec} {actual : Option ActualSpec}
    {p q : Nat} (hv : ∀ w ∈ fields.values, w.isWellFormed = true)
    (hplan : fields.optional "plan" p PlanSpec.ofValue = .ok plan)
    (hactual : fields.optional "actual" q ActualSpec.ofValue = .ok actual) :
    ∀ s ∈ plan.toList.flatMap PlanSpec.scalars ++ actual.toList.flatMap ActualSpec.scalars,
      s.IsFinite := by
  intro s hs
  rcases List.mem_append.mp hs with hs | hs
  · obtain ⟨p, hp, hs⟩ := List.mem_flatMap.mp hs
    rw [Option.mem_toList.mp hp] at hplan
    obtain ⟨w, hw, _, hread⟩ := optional_eq_some hplan
    exact PlanSpec.isFinite_of_ofValue (hv w (mem_values hw)) hread s hs
  · obtain ⟨a, ha, hs⟩ := List.mem_flatMap.mp hs
    rw [Option.mem_toList.mp ha] at hactual
    obtain ⟨w, hw, _, hread⟩ := optional_eq_some hactual
    exact ActualSpec.isFinite_of_ofValue (hv w (mem_values hw)) hread s hs

theorem TaskRecord.isFinite_of_ofValue {t : TaskRecord} (hv : v.isWellFormed = true)
    (h : ofValue v = .ok t) : ∀ s ∈ t.scalars, s.IsFinite := by
  obtain ⟨fields, hfields, ht⟩ := ofValue_eq_ok_iff.mp h
  exact isFinite_of_blocks (wellFormed_of_mem_values hv hfields) ht.plan ht.actual

theorem MilestoneRecord.isFinite_of_ofValue {m : MilestoneRecord} (hv : v.isWellFormed = true)
    (h : ofValue v = .ok m) : ∀ s ∈ m.scalars, s.IsFinite := by
  obtain ⟨fields, hfields, hm⟩ := ofValue_eq_ok_iff.mp h
  exact isFinite_of_blocks (wellFormed_of_mem_values hv hfields) hm.plan hm.actual

/-- Whatever a list field has been read as comes from a value in a list that is a value of the
record. -/
theorem exists_of_mem_given {α : Type} {read : Value → Except ShapeError α} {key : String}
    {place : Nat} {as : List α} {a : α} (hv : ∀ w ∈ fields.values, w.isWellFormed = true)
    (h : (fields.given key place (readList read)).map (·.getD []) = .ok as) (ha : a ∈ as) :
    ∃ w, w.isWellFormed = true ∧ read w = .ok a := by
  obtain ⟨o, ho, rfl⟩ := map_eq_ok.mp h
  rcases given_eq_ok_iff.mp ho with ⟨_, rfl⟩ | ⟨w, as, hw, hread, rfl⟩
  · cases ha
  · obtain ⟨items, rfl, hitems⟩ := readList_eq_ok hread
    obtain ⟨w, hmem, hread⟩ := exists_of_forall₂ hitems.flip a ha
    exact ⟨w, Value.areWellFormed_iff.mp (hv _ (mem_values hw)) w hmem, hread⟩

theorem Document.isFinite_of_ofValue {d : Document} (hv : v.isWellFormed = true)
    (h : ofValue v = .ok d) : ∀ s ∈ d.scalars, s.IsFinite := by
  obtain ⟨fields, hfields, hd⟩ := ofValue_eq_ok_iff.mp h
  have hvalues := wellFormed_of_mem_values hv hfields
  intro s hs
  rcases List.mem_append.mp hs with hs | hs
  · obtain ⟨t, ht, hs⟩ := List.mem_flatMap.mp hs
    obtain ⟨w, hw, hread⟩ := exists_of_mem_given hvalues hd.tasks ht
    exact TaskRecord.isFinite_of_ofValue hw hread s hs
  · obtain ⟨m, hm, hs⟩ := List.mem_flatMap.mp hs
    obtain ⟨w, hw, hread⟩ := exists_of_mem_given hvalues hd.milestones hm
    exact MilestoneRecord.isFinite_of_ofValue hw hread s hs

end Read

/-- A document without infinite numbers is read back from what is written for it, and a document that
has been read from a value is such a document. -/
theorem Document.read_toValue :
    (∀ d : Document, (∀ s ∈ d.scalars, s.IsFinite) → read d.toValue = .ok d) ∧
      ∀ (v : Value) (d : Document), v.isWellFormed = true → read v = .ok d →
        read d.toValue = .ok d := by
  have hback : ∀ d : Document, (∀ s ∈ d.scalars, s.IsFinite) → read d.toValue = .ok d := by
    intro d h
    rw [read, (readsBack h).read_write]
    rfl
  refine ⟨hback, fun v d hv h => hback d ?_⟩
  cases hd : ofValue v with
  | error e =>
    rw [read, hd] at h
    cases h
  | ok d' =>
    rw [read, hd] at h
    cases h
    exact isFinite_of_ofValue hv hd

/-- A document with a block of each kind, an empty one and scalars of both kinds. -/
def Document.varied : Document :=
  { Document.empty with
    tasks :=
      [{ TaskRecord.named "paint" with
          plan := some (.range ⟨some "2020/4/2", none, some (.number (Number.ofInt 3))⟩)
          actual := some (.range { ActualRange.empty with progress := some (.text "20%") }) }]
    milestones :=
      [{ MilestoneRecord.named "fair" with
          plan := some (.point "2020/4/9"), actual := some (.range .empty) }] }

/-- A value of records that are lists, with a key that no record has. -/
def Value.listed : Value :=
  .object
    [("note", .object []),
      ("task",
        .list [.list [.str "paint", .null, .list [.str "2020/4/2", .null, .num (.whole 3)]]])]

theorem varied_reads_back : Document.read Document.varied.toValue = .ok Document.varied ∧
    ∃ d, Document.read Value.listed = .ok d ∧ Document.read d.toValue = .ok d := by
  obtain ⟨hback, hagain⟩ := Document.read_toValue
  have hok : (Document.read Value.listed).isOk = true := by decide +kernel
  obtain ⟨d, hd⟩ := exists_of_isOk hok
  refine ⟨hback .varied ?_, d, hd, hagain .listed d (by decide +kernel) hd⟩
  have hthree : Number.isFinite (Number.ofInt 3) = true := by decide +kernel
  intro s hs
  have hscalars : Document.varied.scalars = [.number (Number.ofInt 3), .text "20%"] := rfl
  rw [hscalars] at hs
  rcases List.mem_pair.mp hs with rfl | rfl
  · exact hthree
  · trivial

end GanttChart
