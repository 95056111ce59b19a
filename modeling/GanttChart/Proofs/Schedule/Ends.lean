import GanttChart.Proofs.Schedule.Overridden
import Mathlib

/-! # Another end for a plan with a period

A period wins over an end in that no day and no path is ever taken from that end. Its reference is
looked at all the same, which can close a loop. -/

namespace GanttChart

open Outcome Relation

/-- The task with another end of its plan, or with none. -/
def TaskRecord.withEnd (t : TaskRecord) (finish : Option String) : TaskRecord :=
  match t.plan with
  | some (.range r) => { t with plan := some (.range { r with finish := finish }) }
  | _ => t

/-- The document with another end of the plan of one task. -/
def Document.withEnd (d : Document) (i : Nat) (finish : Option String) : Document :=
  { d with tasks := d.tasks.modify i fun t => t.withEnd finish }

/-! ## Loops -/

section Loops

variable {α : Type} {R R' : α → α → Prop} {x a b : α}

/-- Where two relations agree but at one place, the way to that place is the same in both: it ends
before it goes on from there. -/
theorem reaches_of_elsewhere (h : ∀ a b, a ≠ x → R' a b → R a b) (hr : ReflTransGen R' a x) :
    ReflTransGen R a x := by
  induction hr using ReflTransGen.head_induction_on with
  | refl => exact .refl
  | @head a b hstep _ ih =>
    by_cases ha : a = x
    · rw [ha]
    · exact .head (h a b ha hstep) ih

theorem transGen_of_elsewhere (h : ∀ a b, a ≠ x → R' a b → R a b) (ht : TransGen R' a b) :
    TransGen R a b ∨ (ReflTransGen R' a x ∧ TransGen R' x b) := by
  induction ht with
  | @single b hstep =>
    by_cases ha : a = x
    · subst ha
      exact .inr ⟨.refl, .single hstep⟩
    · exact .inl (.single (h a b ha hstep))
  | @tail b c hab hstep ih =>
    rcases ih with hr | ⟨hto, hfrom⟩
    · by_cases hb : b = x
      · subst hb
        exact .inr ⟨hab.to_reflTransGen, .single hstep⟩
      · exact .inl (hr.tail (h b c hb hstep))
    · exact .inr ⟨hto, hfrom.tail hstep⟩

/-- A loop that only one of the relations has goes through that place. -/
theorem loop_of_elsewhere (h : ∀ a b, a ≠ x → R' a b → R a b) (ht : TransGen R' a a) :
    TransGen R a a ∨ ∃ b, R' x b ∧ ReflTransGen R b x := by
  rcases transGen_of_elsewhere h ht with hr | ⟨hto, hfrom⟩
  · exact .inl hr
  · obtain ⟨b, hb, hback⟩ := TransGen.head'_iff.mp (hfrom.trans_left hto)
    exact .inr ⟨b, hb, reaches_of_elsewhere h hback⟩

end Loops

namespace Document

variable {d : Document} {config : ChartConfig}

/-! ## Another end -/

theorem forall₂_modify {α : Type} {R : α → α → Prop} (hrefl : ∀ a, R a a) {f : α → α} :
    ∀ {l : List α} {i : Nat}, (∀ a, l[i]? = some a → R a (f a)) → List.Forall₂ R l (l.modify i f)
  | [], _, _ => by simp
  | a :: rest, 0, h => .cons (h a rfl) (List.forall₂_same.mpr fun b _ => hrefl b)
  | a :: rest, i + 1, h => .cons (hrefl a) (forall₂_modify hrefl fun b hb => h b hb)

variable {i : Nat} {t : TaskRecord} {r : PlanRange}

theorem withEnd_eq (hplan : t.plan = some (.range r)) (finish : Option String) :
    t.withEnd finish = { t with plan := some (.range { r with finish := finish }) } := by
  simp [TaskRecord.withEnd, hplan]

theorem sameButEnd_withEnd (ht : d.tasks[i]? = some t) (hplan : t.plan = some (.range r))
    (hperiod : r.period.isSome) (finish : Option String) :
    d.SameButEnd t.name (d.withEnd i finish) := by
  refine ⟨rfl, rfl, rfl, List.rel_append ?_ (List.forall₂_same.mpr fun e _ => .refl _ e)⟩
  rw [List.forall₂_map_left_iff, List.forall₂_map_right_iff]
  refine forall₂_modify (fun u => .refl _ _) fun u hu => ?_
  obtain rfl : t = u := Option.some.inj (ht.symm.trans hu)
  rw [withEnd_eq hplan]
  refine ⟨rfl, ?_, rfl, fun hne => absurd rfl hne⟩
  have hsame : r.SameButEnd { r with finish := finish } :=
    ⟨rfl, rfl, fun hnone => by rw [hnone] at hperiod; cases hperiod⟩
  simp only [Entry.range?, hplan]
  exact .some hsame

theorem tasks_withEnd (ht : d.tasks[i]? = some t) (finish : Option String) :
    (d.withEnd i finish).tasks[i]? = some (t.withEnd finish) := by
  simp [withEnd, ht]

/-- What a task refers to, where no name is repeated. -/
theorem refers_task_iff (hn : (d.entries.map Entry.name).Nodup) (ht : d.tasks[i]? = some t)
    (hplan : t.plan = some (.range r)) {name : String} :
    Entry.Refers d.entries t.name name ↔
      name ∈ r.references ∧ name ∈ d.entries.map Entry.name := by
  have hmem : .task t ∈ d.entries :=
    List.mem_append_left _ (List.mem_map_of_mem (List.mem_of_getElem? ht))
  have hrange : (Entry.task t).range? = some r := by simp [Entry.range?, hplan, PlanSpec.toRange]
  constructor
  · intro href
    obtain ⟨⟨e, he, hname, hrefs⟩, hnamed⟩ := Entry.refers_iff.mp href
    obtain rfl := Entry.eq_of_name_eq hn he hmem hname
    obtain ⟨r', hr', hrefs⟩ := Entry.mem_references.mp hrefs
    cases hrange.symm.trans hr'
    exact ⟨hrefs, hnamed⟩
  · rintro ⟨hrefs, hnamed⟩
    exact Entry.refers_of_reference hmem hrange hrefs hnamed

theorem refers_withEnd_iff (hn : (d.entries.map Entry.name).Nodup) (ht : d.tasks[i]? = some t)
    (hplan : t.plan = some (.range r)) (hperiod : r.period.isSome) {finish : Option String}
    {name : String} : Entry.Refers (d.withEnd i finish).entries t.name name ↔
      name ∈ { r with finish := finish }.references ∧ name ∈ d.entries.map Entry.name := by
  have hnames := Entry.map_name_eq (sameButEnd_withEnd ht hplan hperiod finish).entries
  have htask := tasks_withEnd ht finish
  rw [withEnd_eq hplan] at htask
  rw [hnames]
  exact refers_task_iff (hnames ▸ hn) htask rfl

/-- Another end closes a loop just where it refers to an item that waits for the task, or to the
task itself. -/
theorem loop_withEnd_iff (hn : (d.entries.map Entry.name).Nodup)
    (hacyclic : ∀ n, ¬ TransGen (Entry.Refers d.entries) n n) (ht : d.tasks[i]? = some t)
    (hplan : t.plan = some (.range r)) (hperiod : r.period.isSome) (finish : Option String) :
    (∃ n, TransGen (Entry.Refers (d.withEnd i finish).entries) n n) ↔
      ∃ name, DateExpr.itemOf? finish = some name ∧
        ReflTransGen (Entry.Refers d.entries) name t.name := by
  have h := (sameButEnd_withEnd ht hplan hperiod finish).entries
  constructor
  · rintro ⟨n, hloop⟩
    have hflip := Entry.flip_sameButEnd h
    rcases loop_of_elsewhere (fun a b => Entry.refers_elsewhere hflip) hloop with
      hold | ⟨name, href, hback⟩
    · exact absurd hold (hacyclic n)
    · obtain ⟨hrefs, hnamed⟩ := (refers_withEnd_iff hn ht hplan hperiod).mp href
      rcases PlanRange.mem_references_iff.mp hrefs with hstart | hfinish
      · -- the start refers to the item before as well
        have hold := (refers_task_iff hn ht hplan).mpr
          ⟨PlanRange.mem_references_iff.mpr (.inl hstart), hnamed⟩
        exact absurd (TransGen.head' hold hback) (hacyclic t.name)
      · exact ⟨name, hfinish, hback⟩
  · rintro ⟨name, hfinish, hback⟩
    have hnamed : name ∈ d.entries.map Entry.name := by
      rcases hback.cases_head with rfl | ⟨_, ⟨⟨e, he, rfl, _⟩, _⟩, _⟩
      · exact List.mem_map.mpr ⟨.task t,
          List.mem_append_left _ (List.mem_map_of_mem (List.mem_of_getElem? ht)), rfl⟩
      · exact List.mem_map_of_mem he
    have href := (refers_withEnd_iff hn ht hplan hperiod).mpr
      ⟨PlanRange.mem_references_iff.mpr (.inr hfinish), hnamed⟩
    exact ⟨t.name, TransGen.head' href
      (reaches_of_elsewhere (fun a b => Entry.refers_elsewhere h) hback)⟩

/-- The end of a plan with a period is no part of any schedule: where a document resolves, it
resolves to the same with another end, unless that end closes a loop. Ends that refer to the same
items, or to no items, make no difference at all. And where the same items are on loops, the
documents resolve to the same or both fail by the plan of an item, each by one that is at fault in
both. -/
theorem resolve_withEnd (ht : d.tasks[i]? = some t) (hplan : t.plan = some (.range r))
    (hperiod : r.period.isSome) (finish : Option String) :
    (∀ s, d.resolve config = .ok s → ((d.withEnd i finish).resolve config = .ok s ↔
      ∀ name, DateExpr.itemOf? finish = some name →
        ¬ ReflTransGen (Entry.Refers d.entries) name t.name)) ∧
    ((∀ name ∈ d.entries.map Entry.name,
        name ∈ { r with finish := finish }.references ↔ name ∈ r.references) →
      (d.withEnd i finish).resolve config = d.resolve config) ∧
    ((∀ n, TransGen (Entry.Refers (d.withEnd i finish).entries) n n ↔
        TransGen (Entry.Refers d.entries) n n) →
      (d.withEnd i finish).resolve config = d.resolve config ∨
      ∃ err err', d.resolve config = .error err ∧
        (d.withEnd i finish).resolve config = .error err' ∧
        d.PlanFault config err ∧ d.PlanFault config err') := by
  have h := sameButEnd_withEnd ht hplan hperiod finish
  refine ⟨fun s hs => ?_, fun hrefs => ?_, fun hloops => ?_⟩
  · obtain ⟨table, hr⟩ := resolve_eq_ok_iff.mp hs
    have hacyclic := hr.acyclic
    rw [DependencyGraph.not_isCyclic_iff, Entry.dependsOn_graph] at hacyclic
    have hiff := loop_withEnd_iff hr.nodup hacyclic ht hplan hperiod finish
    constructor
    · intro hs'
      obtain ⟨table', hr'⟩ := resolve_eq_ok_iff.mp hs'
      have hacyclic' := hr'.acyclic
      rw [DependencyGraph.not_isCyclic_iff, Entry.dependsOn_graph, ← not_exists, hiff] at hacyclic'
      exact fun name hname hback => hacyclic' ⟨name, hname, hback⟩
    · intro hno
      have hacyclic' : ∀ n, ¬ TransGen (Entry.Refers (d.withEnd i finish).entries) n n := by
        rw [← not_exists, hiff]
        exact fun ⟨name, hname, hback⟩ => hno name hname hback
      rcases h.resolve_cases config
        fun n => iff_of_false (hacyclic n) (hacyclic' n) with heq | ⟨_, err, _, hf, _⟩
      · rw [← heq, hs]
      · rw [hf.resolve_eq] at hs
        cases hs
  · refine (h.resolve_eq_of_refers fun hn => ?_).symm
    funext a b
    rw [eq_iff_iff]
    by_cases ha : a = t.name
    · subst ha
      rw [refers_task_iff hn ht hplan, refers_withEnd_iff hn ht hplan hperiod]
      exact and_congr_left fun hb => (hrefs b hb).symm
    · exact ⟨Entry.refers_elsewhere h.entries ha,
        Entry.refers_elsewhere (Entry.flip_sameButEnd h.entries) ha⟩
  · rcases h.resolve_cases config fun n => (hloops n).symm with
      heq | ⟨_, err, err', hf, hf'⟩
    · exact .inl heq.symm
    · exact .inr ⟨err, err', hf.resolve_eq, hf'.resolve_eq,
        (SameButEnd.refl t.name d).planFault hf, h.planFault hf'⟩

/-! ## A task of three days -/

/-- Three days from 2 April on, with another end besides. -/
def threeDays (finish : Option String) : PlanRange :=
  ⟨some "2020/4/2", finish, some (.number 3)⟩

/-- A task with that plan. -/
def build (finish : Option String) : TaskRecord :=
  { TaskRecord.named "build" with plan := some (.range (threeDays finish)) }

theorem plan_build (calendar : WorkCalendar) (gap : Int) :
    Entry.plan [.task (build none)] calendar gap .empty "build" =
      (PlanTable.empty.resolveRange calendar gap "build" (threeDays none)).map fun p =>
        ⟨PlanTable.empty.plans.insert "build" p⟩ := by
  have hnone : PlanTable.empty.isPlanned "build" = false := PlanTable.get?_eq_none_iff.mp (by simp)
  have hfind : [Entry.task (build none)].find? (fun e => e.name == "build") =
      some (.task (build none)) := rfl
  rw [Entry.plan, hnone, hfind]
  exact PlanTable.resolve_of_get?_eq_none (by simp) _

theorem exists_resolve_build : ∃ s, (april [build none] []).resolve .standard = .ok s := by
  have hrange : ((april [build none] []).project.calendar.bind fun c =>
      PlanTable.empty.resolveRange c ChartConfig.standard.dependencyGapDays "build"
        (threeDays none)).isOk = true := by decide +kernel
  have horder : (Entry.graph (april [build none] []).entries).resolutionOrder = ["build"] := by cbv
  have ha : (Entry.graph (april [build none] []).entries).isCyclic = false := by cbv
  obtain ⟨p, hp⟩ := exists_of_isOk hrange
  obtain ⟨calendar, hc, hp⟩ := bind_eq_ok.mp hp
  have hplans : Entry.plans (april [build none] []).entries calendar
      ChartConfig.standard.dependencyGapDays = .ok ⟨PlanTable.empty.plans.insert "build" p⟩ := by
    rw [Entry.plans, horder, List.foldlM_cons]
    show Entry.plan [.task (build none)] _ _ _ _ >>= _ = _
    rw [plan_build, hp]
    rfl
  have hitem : ∃ item, (Entry.task (build none)).resolve calendar
      ((april [build none] []).colors.palette .standard)
      ⟨PlanTable.empty.plans.insert "build" p⟩ = .ok item := by
    have hget : PlanTable.get? ⟨PlanTable.empty.plans.insert "build" p⟩ "build" = some p := by
      simp [PlanTable.get?_insert]
    rw [Entry.resolve, show (Entry.task (build none)).name = "build" from rfl, hget]
    exact ⟨_, rfl⟩
  obtain ⟨item, hitem⟩ := hitem
  exact ⟨⟨calendar, [item], _, _⟩, resolve_eq_ok_iff.mpr
    ⟨_, hc, by decide, ha, hplans, .cons hitem .nil, rfl, rfl⟩⟩

/-- A date as another end makes the same schedule, and the end of the task itself does not. -/
theorem build_with_ends : ∃ s, (april [build none] []).resolve .standard = .ok s ∧
    ((april [build none] []).withEnd 0 (some "2020/4/30")).resolve .standard = .ok s ∧
    ((april [build none] []).withEnd 0 (some "build's end")).resolve .standard ≠ .ok s := by
  obtain ⟨s, hs⟩ := exists_resolve_build
  have hdate : DateExpr.itemOf? (some "2020/4/30") = none := by decide +kernel
  have hself : DateExpr.itemOf? (some "build's end") = some "build" := by decide +kernel
  have hends (finish : Option String) :=
    (resolve_withEnd (d := april [build none] []) (i := 0) rfl rfl rfl finish).1 s hs
  refine ⟨s, hs, (hends _).mpr fun name hname => ?_, fun hs' => ?_⟩
  · rw [hdate] at hname
    cases hname
  · exact (hends _).mp hs' "build" hself .refl

/-- Setting the end of a plan with a start and a period can make a loop. -/
theorem exists_end_that_loops :
    (april [build none] []).tasks[0]? = some (build none) ∧
    (build none).plan = some (.range (threeDays none)) ∧
    (threeDays none).start.isSome ∧ (threeDays none).period.isSome ∧
    (∃ s, (april [build none] []).resolve .standard = .ok s) ∧
    ((april [build none] []).withEnd 0 (some "build's end")).resolve .standard =
      .error (.dependencyLoop ["build"]) := by
  refine ⟨rfl, rfl, rfl, rfl, exists_resolve_build, ?_⟩
  cbv

end Document

end GanttChart
