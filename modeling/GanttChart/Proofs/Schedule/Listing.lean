import GanttChart.Proofs.Schedule.Readiness
import GanttChart.Proofs.Schedule.Solved

/-! # The order of listing

The plans of a document are the one solution of its plan equations, and the equations do not depend
on the order in which the items are listed. So listing them in another order makes the same
schedule, up to the order of what it lists. -/

namespace GanttChart

/-! ## Lists without repetition -/

theorem nodup_eraseDups {α : Type} [BEq α] [LawfulBEq α] (l : List α) : l.eraseDups.Nodup := by
  induction hlen : l.length using Nat.strongRecOn generalizing l with
  | ind n ih =>
    cases l with
    | nil => exact List.nodup_nil
    | cons x rest =>
      have hshorter : (rest.filter fun y => !y == x).length < n := by
        rw [← hlen, List.length_cons]
        exact Nat.lt_succ_of_le (List.length_filter_le _ rest)
      rw [List.eraseDups_cons]
      refine List.nodup_cons.mpr ⟨fun hx => ?_, ih _ hshorter _ rfl⟩
      have hfiltered := (List.mem_filter.mp (List.mem_eraseDups.mp hx)).2
      simp at hfiltered

theorem perm_eraseDups {α : Type} [BEq α] [LawfulBEq α] {l l' : List α} (h : l.Perm l') :
    l.eraseDups.Perm l'.eraseDups := by
  refine (List.perm_ext_iff_of_nodup (nodup_eraseDups l) (nodup_eraseDups l')).mpr fun x => ?_
  rw [List.mem_eraseDups, List.mem_eraseDups, h.mem_iff]

/-! ## The same plans -/

variable {calendar : WorkCalendar} {gap : Int} {entries entries' : List Entry}
  {t t' : PlanTable} {a : Assignment}

theorem Assignment.Solves.perm (h : entries.Perm entries')
    (ha : a.Solves calendar gap entries) : a.Solves calendar gap entries' where
  named name := by rw [ha.named name, (h.map Entry.name).mem_iff]
  solved e he := ha.solved e (h.mem_iff.mpr he)

namespace PlanTable

/-- Tables with the same days, both made from the same items, have the same plans. -/
theorem get?_eq_of_sound (hn : (entries.map Entry.name).Nodup)
    (ht : t.Sound calendar gap entries) (ht' : t'.Sound calendar gap entries)
    (hd : t.days = t'.days) (name : String) : t.get? name = t'.get? name := by
  cases hp : t.get? name with
  | none =>
    rw [eq_comm, ← days_eq_none_iff, ← hd, days_eq_none_iff]
    exact hp
  | some p =>
    have hday : t'.days name = some p.days := hd ▸ days_of_get? hp
    obtain ⟨p', hp', hdays⟩ := days_eq_some_iff.mp hday
    obtain ⟨e, he, hname, r, hr, hm⟩ := ht name p hp
    obtain ⟨e', he', hname', r', hr', hm'⟩ := ht' name p' hp'
    have heq : e = e' := Entry.eq_of_name_eq hn he he' (hname.trans hname'.symm)
    rw [heq, hr'] at hr
    cases hr
    rw [hp', hm.eq_of_days hm' hdays.symm]

theorem Sound.perm (h : entries.Perm entries') (ht : t.Sound calendar gap entries) :
    t.Sound calendar gap entries' := by
  intro name p hp
  obtain ⟨e, he, hrest⟩ := ht name p hp
  exact ⟨e, h.mem_iff.mp he, hrest⟩

end PlanTable

theorem Entry.resolve_congr (h : ∀ name, t.get? name = t'.get? name) (e : Entry)
    (palette : Palette) : e.resolve calendar palette t = e.resolve calendar palette t' := by
  simp only [resolve, h]

/-! ## The same schedule -/

/-- Two schedules differ at most in the order of the items, of the paths, and of the members of the
group for items in no other group. -/
structure Schedule.Reordered (s s' : Schedule) : Prop where
  calendar : s.calendar = s'.calendar
  items : s.items.Perm s'.items
  find? : ∀ name, s.find? name = s'.find? name
  paths : s.paths.Perm s'.paths
  groups : ∃ members members' declared, s.groups = ⟨"", members⟩ :: declared ∧
    s'.groups = ⟨"", members'⟩ :: declared ∧ members.Perm members'

theorem Schedule.find?_eq_of_perm {s s' : Schedule} (h : s.items.Perm s'.items)
    (hn : (s.items.map ScheduleItem.name).Nodup) (name : String) :
    s.find? name = s'.find? name := by
  refine List.find?_eq_find?_of_perm h ?_
  rintro i ⟨hi, hname⟩ j ⟨hj, hname'⟩
  refine List.inj_on_of_nodup_map hn hi hj ?_
  rw [beq_iff_eq.mp hname, beq_iff_eq.mp hname']

namespace Document

/-- A document lists the same tasks and the same milestones as another one, in any order, and is
like it otherwise. -/
structure Relists (d d' : Document) : Prop where
  project : d.project = d'.project
  colors : d.colors = d'.colors
  tasks : d.tasks.Perm d'.tasks
  milestones : d.milestones.Perm d'.milestones
  groups : d.groups = d'.groups

variable {d d' : Document} {config : ChartConfig} {s : Schedule} {table : PlanTable}

theorem Relists.symm (h : d.Relists d') : d'.Relists d :=
  ⟨h.project.symm, h.colors.symm, h.tasks.symm, h.milestones.symm, h.groups.symm⟩

theorem Relists.perm_entries (h : d.Relists d') : d.entries.Perm d'.entries :=
  (h.tasks.map Entry.task).append (h.milestones.map Entry.milestone)

theorem scheduleGroups_of_perm {names names' : List String} (hg : d.groups = d'.groups)
    (h : names.Perm names') :
    ∃ members members' declared, d.scheduleGroups names = ⟨"", members⟩ :: declared ∧
      d'.scheduleGroups names' = ⟨"", members'⟩ :: declared ∧ members.Perm members' := by
  have hcontains : names'.contains = names.contains := funext fun _ => h.symm.contains_eq
  unfold scheduleGroups
  rw [hcontains, hg]
  exact ⟨_, _, _, rfl, rfl, h.filter _⟩

/-- Listing the items of a document that resolves in another order makes the same schedule. -/
theorem ResolvesTo.relisted (hr : d.ResolvesTo config s table) (h : d.Relists d') :
    ∃ s', d'.resolve config = .ok s' ∧ s.Reordered s' := by
  have hp := h.perm_entries
  have hn : (d'.entries.map Entry.name).Nodup := (hp.map Entry.name).nodup_iff.mp hr.nodup
  have hacyclic : (Entry.graph d'.entries).isCyclic = false := by
    rw [DependencyGraph.not_isCyclic_iff, Entry.dependsOn_graph,
      ← Entry.refers_congr fun _ => hp.mem_iff, ← Entry.dependsOn_graph,
      ← DependencyGraph.not_isCyclic_iff]
    exact hr.acyclic
  -- the days of the first schedule solve the plans in the other order
  have hsolves := hr.solves.perm hp
  obtain ⟨table', hplans⟩ := Entry.exists_plans_of_solves hacyclic hsolves
  have hsound := Entry.sound_of_foldlM hplans
  have hdays : table.days = table'.days :=
    Entry.eq_days_of_within hsolves (Entry.within_of_foldlM hsolves hplans) hsound
      (Entry.planned_of_plans hacyclic hplans)
  have hget := PlanTable.get?_eq_of_sound hn (hr.sound.perm hp) hsound hdays
  have hitems : List.Forall₂
      (fun e i => e.resolve s.calendar (d'.colors.palette config) table' = .ok i)
      d.entries s.items := by
    refine hr.items.imp fun e i hi => ?_
    rw [← Entry.resolve_congr hget, ← h.colors]
    exact hi
  -- so each item is shown as before, at its new place
  obtain ⟨items', hitems', hperm⟩ := List.perm_comp_forall₂ hp.symm hitems
  let paths' := (d'.entries.flatMap fun e =>
    table'.paths e.name (d'.colors.palette config).path).eraseDups
  refine ⟨⟨s.calendar, items', paths', d'.scheduleGroups (d'.entries.map Entry.name)⟩,
    resolve_eq_ok_iff.mpr ⟨table', ?_, hn, hacyclic, hplans, hitems', rfl, rfl⟩,
    rfl, hperm.symm, ?_, ?_, ?_⟩
  · rw [← h.project]
    exact hr.calendar
  · exact Schedule.find?_eq_of_perm hperm.symm (hr.names_items ▸ hr.nodup)
  · have hsame : (fun e : Entry => table.paths e.name (d.colors.palette config).path) =
        fun e => table'.paths e.name (d'.colors.palette config).path := by
      funext e
      rw [PlanTable.paths_congr hget, h.colors]
    rw [hr.paths, hsame]
    exact perm_eraseDups (hp.flatMap_right _)
  · rw [hr.groups]
    exact scheduleGroups_of_perm h.groups (hp.map Entry.name)

/-- Whether a document resolves does not depend on the order of its tasks or of its milestones, and
neither does the schedule but for the order of what it lists. -/
theorem resolve_of_relists (h : d.Relists d') :
    ((∃ s, d.resolve config = .ok s) ↔ ∃ s', d'.resolve config = .ok s') ∧
    ∀ s s', d.resolve config = .ok s → d'.resolve config = .ok s' → s.Reordered s' := by
  refine ⟨⟨?_, ?_⟩, ?_⟩
  · rintro ⟨s, hs⟩
    obtain ⟨table, hr⟩ := resolve_eq_ok_iff.mp hs
    obtain ⟨s', hs', _⟩ := hr.relisted h
    exact ⟨s', hs'⟩
  · rintro ⟨s', hs'⟩
    obtain ⟨table, hr⟩ := resolve_eq_ok_iff.mp hs'
    obtain ⟨s, hs, _⟩ := hr.relisted h.symm
    exact ⟨s, hs⟩
  · intro s s' hs hs'
    obtain ⟨table, hr⟩ := resolve_eq_ok_iff.mp hs
    obtain ⟨t, ht, hreordered⟩ := hr.relisted h
    rw [hs'] at ht
    cases ht
    exact hreordered

/-- Listing the items of the relay from first to last makes the same schedule. -/
theorem resolve_relay_reversed :
    ∃ s s', relay.resolve .standard = .ok s ∧
      resolve { relay with tasks := relay.tasks.reverse } .standard = .ok s' ∧
      s.Reordered s' := by
  have h : relay.Relists { relay with tasks := relay.tasks.reverse } :=
    ⟨rfl, rfl, relay.tasks.reverse_perm.symm, .refl _, rfl⟩
  obtain ⟨s, hs⟩ := exists_resolve_relay
  obtain ⟨hiff, hsame⟩ := resolve_of_relists h
  obtain ⟨s', hs'⟩ := hiff.mp ⟨s, hs⟩
  exact ⟨s, s', hs, hs', hsame s s' hs hs'⟩

end Document

end GanttChart
