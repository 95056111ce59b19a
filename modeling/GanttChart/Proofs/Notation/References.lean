import GanttChart.Proofs.DateExpr
import GanttChart.Proofs.Notation.Plans

/-! # References in the notation

Every item that the notation declares can be referred to in the notation. A name may start with the
marker of an attribute, though. Behind the bracket that sets a start, such a name is taken as the
longer form of an attribute, where a further bracket stands in front of the marker. The longer form
itself and the bracket that sets an end take every name. -/

namespace GanttChart

namespace Notation

variable {item line name text : String} {l : Line} {e : Entry} {c : Char} {rest cs : List Char}
  {marker : Marker}

/-! ## Lines -/

namespace Line

/-- Items are declared by the forms for tasks and milestones. -/
theorem form_of_opened? (h : read? item = some l) (he : l.opened? = some e) :
    task? item.toList = some l ∨ milestone? item.toList = some l := by
  obtain ⟨form, hform, hl⟩ := List.exists_of_findSome?_eq_some h
  simp only [forms, List.mem_cons, List.not_mem_nil, or_false] at hform
  -- one case for each form; the lines of all others open nothing
  rcases hform with rfl | rfl | rfl | rfl | rfl | rfl | rfl | rfl | rfl | rfl
  · simp only [comment?] at hl
    split at hl
    · obtain ⟨_, _, rfl⟩ := Option.map_eq_some_iff.mp hl
      cases he
    · cases hl
  · simp only [period?, Option.bind_eq_bind, Option.bind_eq_some_iff] at hl
    obtain ⟨_, _, _, _, _, _, hl⟩ := hl
    cases hl
    cases he
  · obtain ⟨_, _, hl⟩ := List.exists_of_findSome?_eq_some hl
    obtain ⟨_, _, rfl⟩ := Option.map_eq_some_iff.mp hl
    cases he
  · obtain ⟨_, _, rfl⟩ := Option.map_eq_some_iff.mp hl
    cases he
  · obtain ⟨_, _, rfl⟩ := Option.map_eq_some_iff.mp hl
    cases he
  · obtain ⟨_, _, hl⟩ := List.exists_of_findSome?_eq_some hl
    simp only [Option.bind_eq_bind, Option.bind_eq_some_iff] at hl
    obtain ⟨_, _, _, _, hl⟩ := hl
    obtain ⟨_, _, rfl⟩ := Option.map_eq_some_iff.mp hl
    cases he
  · simp only [group?] at hl
    split at hl
    · obtain ⟨_, _, rfl⟩ := Option.map_eq_some_iff.mp hl
      cases he
    · obtain ⟨_, _, rfl⟩ := Option.map_eq_some_iff.mp hl
      cases he
    · cases hl
  · exact .inl hl
  · exact .inr hl
  · simp only [detail?] at hl
    split at hl
    · split at hl
      · cases hl
      · obtain ⟨_, _, rfl⟩ := Option.map_eq_some_iff.mp hl
        cases he
    · cases hl

/-- Names of items are not empty, and there are no blanks in them. -/
theorem name_of_opened? (h : read? item = some l) (he : l.opened? = some e) :
    e.name.toList ≠ [] ∧ ∀ c ∈ e.name.toList, Text.isBlank c = false := by
  rcases form_of_opened? h he with hl | hl
  · simp only [task?, Option.ite_none_left_eq_some, List.isEmpty_iff] at hl
    obtain ⟨hne, hl⟩ := hl
    obtain ⟨_, _, rfl⟩ := Option.map_eq_some_iff.mp hl
    cases he
    rw [Entry.name, TaskRecord.named, String.toList_ofList]
    refine ⟨hne, fun c hc => ?_⟩
    have hname := List.mem_takeWhile_imp hc
    simp only [isTaskName, Bool.and_eq_true, Bool.not_eq_true'] at hname
    exact hname.1.2
  · simp only [milestone?] at hl
    split at hl
    · simp only [Option.ite_none_left_eq_some, List.isEmpty_iff] at hl
      obtain ⟨hne, hl⟩ := hl
      obtain ⟨_, _, rfl⟩ := Option.map_eq_some_iff.mp hl
      cases he
      rw [Entry.name, MilestoneRecord.named, String.toList_ofList]
      refine ⟨hne, fun c hc => ?_⟩
      have hname := List.mem_takeWhile_imp hc
      simp only [isMilestoneName, Bool.and_eq_true, Bool.not_eq_true'] at hname
      exact hname.1
    · cases hl

theorem closed?_append_suffix (b : Bound) (cs : List Char) : closed? (cs ++ b.suffix) = none := by
  have hare : Text.before? " are closed".toList (cs ++ b.suffix) = none := by
    rw [Text.before?_append]
    cases b <;> rfl
  have his : Text.before? " is closed".toList (cs ++ b.suffix) = none := by
    rw [Text.before?_append]
    cases b <;> rfl
  simp only [closed?, List.findSome?_cons, hare, his, Option.bind_none, Option.map_none,
    List.findSome?_nil]

/-- Of an indented line, all forms but the one for closed days leave it to that for attributes. -/
theorem read?_indented (h : closed? (' ' :: ' ' :: cs) = none) :
    read? (String.ofList (' ' :: ' ' :: cs)) = detail? (' ' :: ' ' :: cs) := by
  rw [read?, String.toList_ofList]
  simp only [forms, List.findSome?_cons, h]
  cases detail? (' ' :: ' ' :: cs) <;> rfl

/-- An indented line that ends in a reference is an attribute line. -/
theorem read?_reference (b : Bound) (h : ∀ d ∈ c :: cs, Text.isBlank d = false) :
    read? (String.ofList (' ' :: ' ' :: c :: (cs ++ b.suffix))) =
      some (detail (String.ofList (c :: (cs ++ b.suffix)))) := by
  have hopen : '\n' ∉ c :: (cs ++ b.suffix) := by
    rw [← List.cons_append, List.mem_append, not_or]
    refine ⟨fun hmem => ?_, by cases b <;> decide⟩
    exact absurd (h _ hmem) (by decide)
  have hclosed : closed? (' ' :: ' ' :: c :: (cs ++ b.suffix)) = none :=
    closed?_append_suffix b (' ' :: ' ' :: c :: cs)
  rw [read?_indented hclosed]
  simp only [detail?, h c List.mem_cons_self, Bool.false_eq_true, if_false, open?,
    List.contains_iff_mem, hopen, Option.map_some]

end Line

/-! ## Attributes -/

namespace Attribute

variable {value : String} {b : Bound}

/-- What a marker takes is the rest of the text, trimmed. -/
theorem value_of_marked? (h : marked? (c :: cs) = some (marker, value)) :
    value = String.ofList (Text.trim cs) := by
  simp only [marked?] at h
  split at h
  · cases h
  · simp only [Option.ite_none_right_eq_some, Option.some.injEq, Prod.mk.injEq] at h
    exact h.2.2.symm

theorem marked?_reference (hc : Marker.ofChar? c = some marker) (hperiod : marker ≠ .period)
    (hname : ∀ c ∈ name.toList, Text.isBlank c = false) (b : Bound) :
    marked? (c :: (name.toList ++ b.suffix)) = some (marker, b.reference name) := by
  have htrim := Bound.trim_append_suffix b hname
  have hvalue : String.ofList (Text.trim (name.toList ++ b.suffix)) = b.reference name := by
    rw [htrim, ← Bound.toList_reference, String.ofList_toList]
  have haccepts : marker.accepts (b.reference name) = true := by
    have hacceptable : DateExpr.isAcceptable (b.reference name) = true :=
      DateExpr.isAcceptable_of_trim b (by rw [Bound.toList_reference, htrim])
    cases marker with
    | period => exact absurd rfl hperiod
    | _ => exact hacceptable
  simp only [marked?, hc, hvalue, haccepts, if_true]

/-- Of a plan still unsaid, an attribute leaves nothing but itself. -/
theorem onPlan_none_inj {marker' : Marker} {value' : String}
    (h : onPlan marker value none = onPlan marker' value' none) :
    marker = marker' ∧ value = value' := by
  cases marker <;> cases marker' <;> simp_all [onPlan, PlanSpec.openRange, PlanRange.empty]

end Attribute

/-! ## A task that waits -/

namespace Draft

/-- The plan of the task that waits outside the document. -/
def waitingPlan? (d : Draft) : Option PlanSpec :=
  match d.active with
  | some (.pendingTask t) => t.plan
  | _ => none

theorem waitingPlan?_settle {d : Draft} {t : TaskRecord} {value : String}
    (ha : d.active = some (.pendingTask t)) (ht : t.plan = none) :
    (d.applyAttribute (.plan marker value)).settle.waitingPlan? =
      some (Attribute.onPlan marker value none) := by
  have hpending : d.active = some (.pending (.task t)) := ha
  have hready : ¬ ((Entry.task t).apply (.plan marker value)).Ready := by
    rw [Entry.apply, Entry.ready_task_iff, TaskRecord.apply, ht]
    cases marker <;>
      simp [TaskRecord.isReady, Attribute.onPlan, PlanSpec.openRange, PlanRange.empty]
  rw [settle_applyAttribute_of_pending hpending, if_neg hready]
  simp [waitingPlan?, Draft.begin, Active.pending, Entry.apply, TaskRecord.apply, ht]

/-- What an attribute line says of the plan of a task that has just begun. -/
theorem waitingPlan?_feed {opening title : String} {b : Bound}
    (hopening : Line.read? opening = some (.task title text))
    (hline : line.toList = ' ' :: ' ' :: c :: (rest ++ b.suffix))
    (hfilled : ∀ d ∈ c :: rest, Text.isBlank d = false)
    (hread : Attribute.read? (c :: (rest ++ b.suffix)) =
      (Attribute.marked? cs).map fun s => .plan s.1 s.2) (d : Draft) :
    ((d.feed opening).feed line).waitingPlan? =
      (Attribute.marked? cs).map fun s => Attribute.onPlan s.1 s.2 none := by
  have hof : line = String.ofList (' ' :: ' ' :: c :: (rest ++ b.suffix)) := by
    rw [← hline, String.ofList_toList]
  rw [hof, feed, feed, hopening, Line.read?_reference b hfilled]
  simp only [takeLine, String.toList_ofList, hread]
  cases Attribute.marked? cs with
  | none => rfl
  | some s => exact waitingPlan?_settle rfl rfl

/-- A line sets a part of the plan of the task that waits, and nothing else of it, to a text that
is read as a date expression. -/
def Sets (d : Draft) (line : String) (marker : Marker) (expr : DateExpr) : Prop :=
  ∃ raw, (d.feed line).waitingPlan? = some (Attribute.onPlan marker raw none) ∧
    DateExpr.read? raw = some expr

section Reference

variable {opening title : String} {b : Bound}

/-- An attribute line that comes down to a marker and a reference sets what the marker is for. -/
theorem sets_of_read? {mark : Char} (hopening : Line.read? opening = some (.task title text))
    (hline : line.toList = ' ' :: ' ' :: c :: (rest ++ b.suffix))
    (hfilled : ∀ d ∈ c :: rest, Text.isBlank d = false)
    (hread : Attribute.read? (c :: (rest ++ b.suffix)) =
      (Attribute.marked? (mark :: (name.toList ++ b.suffix))).map fun s => .plan s.1 s.2)
    (hmark : Marker.ofChar? mark = some marker) (hperiod : marker ≠ .period)
    (hblank : ∀ c ∈ name.toList, Text.isBlank c = false) (hname : name ≠ DateExpr.projectName)
    (d : Draft) : (d.feed opening).Sets line marker (b.of name) := by
  refine ⟨b.reference name, ?_, DateExpr.read?_reference b hname hblank⟩
  rw [waitingPlan?_feed hopening hline hfilled hread,
    Attribute.marked?_reference hmark hperiod hblank]
  rfl

theorem sets_finish (hopening : Line.read? opening = some (.task title text))
    (hblank : ∀ c ∈ name.toList, Text.isBlank c = false) (hname : name ≠ DateExpr.projectName)
    (d : Draft) : (d.feed opening).Sets ("  <" ++ b.reference name) .finish (b.of name) := by
  have hline : ("  <" ++ b.reference name).toList =
      ' ' :: ' ' :: '<' :: (name.toList ++ b.suffix) := by simp
  have hfilled : ∀ c ∈ '<' :: name.toList, Text.isBlank c = false :=
    List.forall_mem_cons.mpr ⟨by decide, hblank⟩
  have hread : Attribute.read? ('<' :: (name.toList ++ b.suffix)) =
      (Attribute.marked? ('<' :: (name.toList ++ b.suffix))).map fun s => .plan s.1 s.2 := rfl
  exact sets_of_read? hopening hline hfilled hread rfl (by decide) hblank hname d

theorem sets_start (hopening : Line.read? opening = some (.task title text))
    (hblank : ∀ c ∈ name.toList, Text.isBlank c = false) (hname : name ≠ DateExpr.projectName)
    (d : Draft) : (d.feed opening).Sets ("  >>" ++ b.reference name) .start (b.of name) := by
  have hline : ("  >>" ++ b.reference name).toList =
      ' ' :: ' ' :: '>' :: ('>' :: name.toList ++ b.suffix) := by simp
  have hfilled : ∀ c ∈ '>' :: '>' :: name.toList, Text.isBlank c = false :=
    List.forall_mem_cons.mpr ⟨by decide, List.forall_mem_cons.mpr ⟨by decide, hblank⟩⟩
  have hread : Attribute.read? ('>' :: ('>' :: name.toList ++ b.suffix)) =
      (Attribute.marked? ('>' :: (name.toList ++ b.suffix))).map fun s => .plan s.1 s.2 := rfl
  exact sets_of_read? hopening hline hfilled hread rfl (by decide) hblank hname d

/-- Behind a single bracket, a marker at the front of a name is taken as a marker. -/
theorem sets_short_iff (hopening : Line.read? opening = some (.task title text))
    (hblank : ∀ c ∈ name.toList, Text.isBlank c = false) (hname : name ≠ DateExpr.projectName)
    (hne : name.toList ≠ []) (d : Draft) :
    (d.feed opening).Sets ("  >" ++ b.reference name) .start (b.of name) ↔
      ∀ c ∈ name.toList.head?, Marker.ofChar? c = none := by
  have hline : ("  >" ++ b.reference name).toList =
      ' ' :: ' ' :: '>' :: (name.toList ++ b.suffix) := by simp
  have hfilled : ∀ c ∈ '>' :: name.toList, Text.isBlank c = false :=
    List.forall_mem_cons.mpr ⟨by decide, hblank⟩
  cases hcs : name.toList with
  | nil => exact absurd hcs hne
  | cons c cs =>
    have hhead : (∀ c' ∈ (c :: cs).head?, Marker.ofChar? c' = none) ↔ Marker.ofChar? c = none := by
      simp
    rw [hhead]
    constructor
    · rintro ⟨raw, hplan, hraw⟩
      rw [Option.eq_none_iff_forall_ne_some]
      intro marker hc
      -- the marker is taken off the name, and what is left of the text is no reference to the item
      have hread : Attribute.read? ('>' :: (name.toList ++ b.suffix)) =
          (Attribute.marked? (name.toList ++ b.suffix)).map fun s => .plan s.1 s.2 := by
        rw [hcs]
        simp [Attribute.read?, hc]
      rw [waitingPlan?_feed hopening hline hfilled hread] at hplan
      obtain ⟨⟨m, value⟩, hmarked, honPlan⟩ := Option.map_eq_some_iff.mp hplan
      obtain ⟨_, rfl⟩ := Attribute.onPlan_none_inj honPlan
      rw [hcs] at hblank
      rw [hcs, List.cons_append] at hmarked
      have hcut := Bound.trim_append_suffix b fun c hc => hblank c (List.mem_cons_of_mem _ hc)
      have htrim := DateExpr.trim_of_read? hraw
      rw [Attribute.value_of_marked? hmarked, String.toList_ofList, Text.trim_trim, hcut, hcs]
        at htrim
      simpa using congrArg List.length htrim
    · intro hc
      have hread : Attribute.read? ('>' :: (name.toList ++ b.suffix)) =
          (Attribute.marked? ('>' :: (name.toList ++ b.suffix))).map fun s => .plan s.1 s.2 := by
        rw [hcs]
        simp [Attribute.read?, hc]
      exact sets_of_read? hopening hline hfilled hread rfl (by decide) hblank hname d

end Reference

/-- Behind a line for a task, the name of any item with the word for one of its days sets the end
and, in the longer form, the start of the plan. In the shorter form it sets the start exactly when
the name does not start with a marker. -/
theorem sets_reference {opening title : String} (hitem : Line.read? item = some l)
    (he : l.opened? = some e) (hname : e.name ≠ DateExpr.projectName)
    (hopening : Line.read? opening = some (.task title text)) (d : Draft) (b : Bound) :
    (d.feed opening).Sets ("  <" ++ b.reference e.name) .finish (b.of e.name) ∧
    (d.feed opening).Sets ("  >>" ++ b.reference e.name) .start (b.of e.name) ∧
    ((d.feed opening).Sets ("  >" ++ b.reference e.name) .start (b.of e.name) ↔
      ∀ c ∈ e.name.toList.head?, Marker.ofChar? c = none) := by
  obtain ⟨hne, hblank⟩ := Line.name_of_opened? hitem he
  exact ⟨sets_finish hopening hblank hname d, sets_start hopening hblank hname d,
    sets_short_iff hopening hblank hname hne d⟩

/-- A milestone whose name starts with a marker. -/
theorem sets_reference_bracketed :
    Line.read? "!>a" = some (.milestone ">a" "") ∧
    (Line.milestone ">a" "").opened? = some (.milestone (.named ">a")) ∧
    (Entry.milestone (.named ">a")).name ≠ DateExpr.projectName ∧
    Line.read? "build" = some (.task "build" "") ∧
    (empty.feed "build").Sets ("  <" ++ Bound.finish.reference ">a") .finish (.endOf ">a") ∧
    (empty.feed "build").Sets ("  >>" ++ Bound.finish.reference ">a") .start (.endOf ">a") ∧
    ((empty.feed "build").Sets ("  >" ++ Bound.finish.reference ">a") .start (.endOf ">a") ↔
      ∀ c ∈ ">a".toList.head?, Marker.ofChar? c = none) := by
  have hitem : Line.read? "!>a" = some (.milestone ">a" "") := by decide +kernel
  have hopened : (Line.milestone ">a" "").opened? = some (.milestone (.named ">a")) := rfl
  have hname : (Entry.milestone (.named ">a")).name ≠ DateExpr.projectName := by decide
  have hopening : Line.read? "build" = some (.task "build" "") := by decide +kernel
  exact ⟨hitem, hopened, hname, hopening,
    sets_reference hitem hopened hname hopening .empty .finish⟩

/-- The shorter form loses the bracket that a name starts with. -/
theorem exists_reference_cut : ¬ ∀ (item opening title text : String) (l : Line) (e : Entry),
    Line.read? item = some l → l.opened? = some e → e.name ≠ DateExpr.projectName →
    Line.read? opening = some (.task title text) → ∀ (d : Draft) (b : Bound),
      (d.feed opening).Sets ("  >" ++ b.reference e.name) .start (b.of e.name) ∧
      (d.feed opening).Sets ("  <" ++ b.reference e.name) .finish (b.of e.name) := by
  intro h
  have hitem : Line.read? ">a" = some (.task ">a" "") := by decide +kernel
  have hopening : Line.read? "build" = some (.task "build" "") := by decide +kernel
  obtain ⟨⟨raw, hplan, hraw⟩, _⟩ :=
    h ">a" "build" "build" "" (.task ">a" "") _ hitem rfl (by decide) hopening .empty .finish
  have hline : Line.read? ("  >" ++ Bound.finish.reference ">a") = some (.detail ">>a's end") := by
    decide +kernel
  have hread : Attribute.read? ">>a's end".toList = some (.plan .start "a's end") := by
    decide +kernel
  have hcut : ((empty.feed "build").feed ("  >" ++ Bound.finish.reference ">a")).waitingPlan? =
      some (Attribute.onPlan .start "a's end" none) := by
    rw [feed, feed, hopening, hline]
    simp only [takeLine, hread]
    exact waitingPlan?_settle rfl rfl
  obtain ⟨_, rfl⟩ := Attribute.onPlan_none_inj (Option.some.inj (hcut.symm.trans hplan))
  exact absurd hraw (by decide +kernel)

end Draft

end Notation

end GanttChart
