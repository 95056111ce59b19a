import GanttChart.Proofs.Document.Entries
import GanttChart.Proofs.Notation.Groups
import GanttChart.Proofs.Notation.Resolving

/-! # The groups of a schedule

The groups of a schedule that a text in the notation describes are a partition of its items: each
item is in the group that was declared last when the item became ready, or in the first group when
there was none yet. -/

namespace GanttChart

open Notation

variable {config : ChartConfig} {text : String} {scale : Option Scale} {s : Schedule}

namespace Schedule

@[simp] theorem items_withScale (s : Schedule) (scale : Option Scale) :
    (s.withScale scale).items = s.items := by
  cases scale <;> rfl

@[simp] theorem paths_withScale (s : Schedule) (scale : Option Scale) :
    (s.withScale scale).paths = s.paths := by
  cases scale <;> rfl

@[simp] theorem groups_withScale (s : Schedule) (scale : Option Scale) :
    (s.withScale scale).groups = s.groups := by
  cases scale <;> rfl

/-- A schedule from the notation is that of the coerced document, at another scale perhaps. -/
theorem resolvesTo_of_ofText (h : ofText .plain text config scale = .ok s) :
    ∃ d t table, (document text).CoercedTo config d ∧ d.ResolvesTo config t table ∧
      t.withScale scale = s := by
  rcases ofText_plain text config scale with ⟨err, _, hof⟩ | ⟨d, hrel, hof⟩
  · rw [hof] at h
    cases h
  · rw [hof] at h
    cases hr : d.resolve config with
    | error err => rw [hr] at h; cases h
    | ok t =>
      rw [hr] at h
      obtain ⟨table, hresolves⟩ := Document.resolve_eq_ok_iff.mp hr
      exact ⟨d, t, table, hrel, hresolves, Except.ok.inj h⟩

end Schedule

namespace Document

variable {d : Document} {names : List String}

/-- The names of all members of the declared groups. -/
def members (d : Document) : List String := d.groups.flatMap GroupRecord.member

/-- Declared groups without strangers stay as they are. -/
theorem scheduleGroups_of_subset (h : ∀ name ∈ d.members, name ∈ names) :
    d.scheduleGroups names = ⟨"", names.filter fun name => !d.members.contains name⟩ ::
      d.groups.map fun g => ⟨g.text, g.member⟩ := by
  have hkept : ∀ g ∈ d.groups, g.member.filter names.contains = g.member := by
    intro g hg
    refine List.filter_eq_self.mpr fun name hname => ?_
    exact List.contains_iff_mem.mpr (h name (List.mem_flatMap.mpr ⟨g, hg, hname⟩))
  have hdeclared : (d.groups.map fun g => (⟨g.text, g.member.filter names.contains⟩ : Group)) =
      d.groups.map fun g => ⟨g.text, g.member⟩ :=
    List.map_congr_left fun g hg => by rw [hkept g hg]
  simp only [scheduleGroups, hdeclared, members, List.flatMap_map]

theorem perm_members (hn : names.Nodup) (hm : d.members.Nodup)
    (h : ∀ name ∈ d.members, name ∈ names) :
    ((d.scheduleGroups names).flatMap Group.member).Perm names := by
  rw [scheduleGroups_of_subset h, List.flatMap_cons, List.flatMap_map]
  change (names.filter (fun name => !d.members.contains name) ++ d.members).Perm names
  refine (List.perm_ext_iff_of_nodup ?_ hn).mpr fun name => ?_
  · refine (hn.filter _).append hm fun name hf hname => ?_
    simp [List.mem_filter, hname] at hf
  · by_cases hname : name ∈ d.members
    · simp [hname, h name hname]
    · simp [hname]

end Document

namespace Notation

/-- The lines of a text that some form takes. -/
def linesOf (text : String) : List Line := (Text.lines text).filterMap Line.read?

/-- The items of a document in the notation have become ready line by line, and so have the members
of its groups. -/
theorem exists_draft (text : String) : ∃ draft : Draft, document text = draft.document ∧
    draft.Grouped (linesOf text) ∧
    (draft.document.entries.map Entry.name).Perm (arrivals (linesOf text)) :=
  ⟨_, rfl, by
    rw [Draft.feedAll_eq_foldl]
    exact ⟨Draft.grouped_foldl _, (Draft.holds_foldl _).perm_arrivals⟩⟩

namespace Draft

variable {draft : Draft} {names : List String} {ls : List Line}

theorem Grouped.mem_scheduleGroups_iff (h : draft.Grouped ls) (hp : names.Perm (arrivals ls))
    (hn : names.Nodup) (k : Nat) (name : String) :
    (∃ g, (draft.document.scheduleGroups names)[k]? = some g ∧ name ∈ g.member) ↔
      Arrives ls k name := by
  have hplaced : ∀ name ∈ draft.document.members, name ∈ names := fun name hname =>
    hp.mem_iff.mpr (h.mem_arrivals hname)
  rw [Document.scheduleGroups_of_subset hplaced]
  cases k with
  | zero =>
    have hmembers : name ∈ draft.document.members ↔ ∃ i, Arrives ls (i + 1) name :=
      h.mem_members_iff
    simp only [List.getElem?_cons_zero, Option.some.injEq, exists_eq_left', List.mem_filter,
      Bool.not_eq_true', List.contains_eq_mem, decide_eq_false_iff_not, hp.mem_iff,
      mem_arrivals_iff, hmembers]
    constructor
    · rintro ⟨⟨k, hk⟩, hnone⟩
      cases k with
      | zero => exact hk
      | succ i => exact absurd ⟨i, hk⟩ hnone
    · intro h0
      refine ⟨⟨0, h0⟩, ?_⟩
      rintro ⟨i, hi⟩
      cases h0.unique (hp.nodup_iff.mp hn) hi
  | succ i =>
    rw [List.getElem?_cons_succ, List.getElem?_map, ← h.lists]
    simp [Lists]

end Draft

/-- The groups of a schedule share out its items: no item is in two of them or twice in one, and
none is in no group. After the first group without a title there is one for each group line, in
their order, and its members are the items that became ready when that line was the last group
line so far. -/
theorem groups_partition (h : Schedule.ofText .plain text config scale = .ok s) :
    (s.items.map ScheduleItem.name).Nodup ∧
    (s.groups.flatMap Group.member).Perm (s.items.map ScheduleItem.name) ∧
    s.groups.map Group.text = "" :: groupTitles (linesOf text) ∧
    ∀ k name, (∃ g, s.groups[k]? = some g ∧ name ∈ g.member) ↔ Arrives (linesOf text) k name := by
  obtain ⟨d, t, table, hrel, hresolves, rfl⟩ := Schedule.resolvesTo_of_ofText h
  obtain ⟨draft, hdraft, hgrouped, hperm⟩ := exists_draft text
  rw [hdraft] at hrel
  -- the resolved names are those of the draft, and the groups come from its groups
  have hnames := hrel.map_name_entries
  have hgroups := hresolves.groups
  rw [Document.scheduleGroups, hrel.groups, ← Document.scheduleGroups, hnames] at hgroups
  have hn := hresolves.nodup
  rw [hnames] at hn
  rw [Schedule.items_withScale, Schedule.groups_withScale, hresolves.names_items, hnames, hgroups]
  have hplaced : ∀ name ∈ draft.document.members, name ∈ draft.document.entries.map Entry.name :=
    fun name hname => hperm.mem_iff.mpr (hgrouped.mem_arrivals hname)
  refine ⟨hn, ?_, ?_, ?_⟩
  · exact Document.perm_members hn (hgrouped.nodup_members (hperm.nodup_iff.mp hn)) hplaced
  · rw [Document.scheduleGroups_of_subset hplaced, ← hgrouped.titles]
    simp
  · exact hgrouped.mem_scheduleGroups_iff hperm hn

/-- One item is ready before any group, and one begins before a group line and is ready after
it. -/
def shared : String :=
  "project lasts 2020/4/1 to 2020/4/30\ntoday is 2020/4/10\nprime\n  >2020/4/2\n  <2020/4/3\n" ++
    "paint\n-- walls --\n  >2020/4/6\n  <2020/4/7\n== doors ==\n!opening\n  !2020/4/8\n"

theorem exists_shared_partition : ∃ s, Schedule.ofText .plain shared .standard none = .ok s ∧
    (s.items.map ScheduleItem.name).Nodup ∧
    (s.groups.flatMap Group.member).Perm (s.items.map ScheduleItem.name) ∧
    s.groups.map Group.text = "" :: groupTitles (linesOf shared) ∧
    ∀ k name, (∃ g, s.groups[k]? = some g ∧ name ∈ g.member) ↔ Arrives (linesOf shared) k name := by
  have hok : (Schedule.ofText .plain shared .standard none).isOk = true := by cbv
  obtain ⟨s, hs⟩ := Outcome.exists_of_isOk hok
  exact ⟨s, hs, groups_partition hs⟩

end Notation

end GanttChart
