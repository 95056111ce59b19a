import GanttChart.Proofs.Notation.Reading
import GanttChart.Proofs.Outcome
import Mathlib.Data.List.Nodup

/-! # The groups that items join

The line that makes an item ready puts it into the group of the latest group line before it. So
the members of a declared group are the items that became ready while it was the latest one. -/

namespace GanttChart.Notation

variable {ls before : List Line} {l : Line} {name other : String} {k : Nat}

/-! ## When items become ready -/

/-- The titles of the groups that lines declare. -/
def groupTitles (ls : List Line) : List String := ls.filterMap Line.groupTitle?

theorem groupTitles_concat (ls : List Line) (l : Line) :
    groupTitles (ls ++ [l]) = groupTitles ls ++ l.groupTitle?.toList := by
  cases h : l.groupTitle? <;> simp [groupTitles, h]

/-- The name of the item that a line makes ready, after the lines before it. -/
def readied? (before : List Line) (l : Line) : Option String := do
  let b ← (blocks before).getLast?
  let a ← l.attribute?
  if ¬ b.Enters ∧ (b.extend [a]).Enters then some b.opened.name else none

/-- Some line makes the item ready, and that many groups are declared before it. -/
def Arrives (ls : List Line) (k : Nat) (name : String) : Prop :=
  ∃ before l after, ls = before ++ l :: after ∧ readied? before l = some name ∧
    (groupTitles before).length = k

/-- The names of the items that become ready, in the order of their blocks. -/
def arrivals (ls : List Line) : List String := (entered (blocks ls)).map Entry.name

theorem readied?_of_no_attribute (h : l.attribute? = none) : readied? before l = none := by
  cases hb : (blocks before).getLast? <;> simp [readied?, hb, h]

theorem Line.attribute?_of_opened? {e : Entry} (h : l.opened? = some e) : l.attribute? = none := by
  cases l <;> first | rfl | cases h

theorem Line.groupTitle?_of_attribute? {a : Attribute} (h : l.attribute? = some a) :
    l.groupTitle? = none := by
  cases l <;> first | rfl | cases h

theorem Line.groupTitle?_of_opened? {e : Entry} (h : l.opened? = some e) :
    l.groupTitle? = none := by
  cases l <;> first | rfl | cases h

namespace Block

@[simp] theorem opened_extend (b : Block) (as : List Attribute) : (b.extend as).opened = b.opened :=
  rfl

@[simp] theorem name_finished (b : Block) : b.finished.name = b.opened.name := by
  obtain ⟨e, as⟩ := b
  induction as using List.reverseRecOn with
  | nil => rfl
  | append_singleton as a ih =>
    rw [finished] at ih ⊢
    rw [List.foldl_concat, Entry.name_apply, ih]

end Block

theorem map_entered_concat {α : Type} (f : Entry → α) (bs : List Block) (b : Block) :
    (entered (bs ++ [b])).map f =
      (entered bs).map f ++ if b.Enters then [f b.finished] else [] := by
  simpa using filterMap_entered_concat (fun e => some (f e)) bs b

theorem arrivals_concat (ls : List Line) (l : Line) :
    arrivals (ls ++ [l]) = arrivals ls ++ (readied? ls l).toList := by
  unfold arrivals
  cases hi : l.opened? with
  | some e =>
    have hout : ¬ (Block.mk e []).Enters :=
      Block.enters_nil_iff.not.mpr (Line.not_ready_of_opened? hi)
    rw [blocks_append_item hi, map_entered_concat, if_neg hout,
      readied?_of_no_attribute (Line.attribute?_of_opened? hi), Option.toList_none]
  | none =>
    rcases blocks_append ls hi with ⟨hnil, hnil'⟩ | ⟨earlier, b, hb, hb'⟩
    · simp [readied?, hnil, hnil']
    rw [hb, hb', map_entered_concat, map_entered_concat]
    cases ha : l.attribute? with
    | none => simp [readied?_of_no_attribute ha]
    | some a =>
      by_cases hin : b.Enters
      · simp [readied?, hb, ha, hin, Block.enters_extend]
      · by_cases hin' : (b.extend [a]).Enters
        · simp [readied?, hb, ha, hin, hin']
        · simp [readied?, hb, ha, hin, hin']

theorem arrives_concat : Arrives (ls ++ [l]) k name ↔
    Arrives ls k name ∨ (readied? ls l = some name ∧ (groupTitles ls).length = k) := by
  -- the line of the moment comes first, so that the lines around it are the parts of a run
  have hmoment (ls : List Line) : Arrives ls k name ↔ ∃ l before after,
      ls = before ++ l :: after ∧ readied? before l = some name ∧
        (groupTitles before).length = k := exists_comm
  rw [hmoment, hmoment, or_comm]
  simp only [Outcome.exists_moment_concat, exists_or, exists_eq_left']

theorem mem_arrivals_iff : name ∈ arrivals ls ↔ ∃ k, Arrives ls k name := by
  induction ls using List.reverseRecOn with
  | nil => simp [arrivals, entered, blocks, Arrives]
  | append_singleton ls l ih =>
    simp only [arrivals_concat, List.mem_append, ih, Option.mem_toList, arrives_concat, exists_or,
      exists_and_left, exists_eq', and_true]

/-- Where every name arrives once, it arrives at one moment. -/
theorem Arrives.unique {j : Nat} (hn : (arrivals ls).Nodup) (hj : Arrives ls j name)
    (hk : Arrives ls k name) : j = k := by
  induction ls using List.reverseRecOn with
  | nil => simp [Arrives] at hj
  | append_singleton ls l ih =>
    rw [arrivals_concat, List.nodup_append] at hn
    obtain ⟨hn, _, hne⟩ := hn
    -- what has arrived before is not made ready again
    have hnew {i : Nat} (h : Arrives ls i name) : readied? ls l ≠ some name := fun hr =>
      hne name (mem_arrivals_iff.mpr ⟨i, h⟩) name (by simp [hr]) rfl
    rcases arrives_concat.mp hj with hj | ⟨hready, hj⟩
    · rcases arrives_concat.mp hk with hk | ⟨hready, _⟩
      · exact ih hn hj hk
      · exact absurd hready (hnew hj)
    · rcases arrives_concat.mp hk with hk | ⟨_, hk⟩
      · exact absurd hready (hnew hk)
      · exact hj.symm.trans hk

/-! ## Members of groups -/

/-- The group at a place has a member of that name. -/
def Lists (groups : List GroupRecord) (place : Nat) (name : String) : Prop :=
  ∃ g, groups[place]? = some g ∧ name ∈ g.member

variable {groups : List GroupRecord} {g : GroupRecord}

theorem mem_join : other ∈ (join name g).member ↔ other ∈ g.member ∨ other = name := by
  unfold join
  split
  · rename_i h
    simp only [List.contains_iff_mem] at h
    constructor
    · exact .inl
    · rintro (h | rfl) <;> assumption
  · simp

theorem nodup_join (h : g.member.Nodup) : (join name g).member.Nodup := by
  unfold join
  split
  · exact h
  · rename_i hnew
    simp only [List.contains_iff_mem] at hnew
    simpa using h.concat hnew

@[simp] theorem text_join : (join name g).text = g.text := by
  unfold join
  split <;> rfl

theorem lists_enroll {place : Option Nat} : Lists (enroll groups place name) k other ↔
    Lists groups k other ∨ (place = some k ∧ k < groups.length ∧ other = name) := by
  cases place with
  | none => simp [enroll]
  | some i =>
    simp only [enroll, Lists, List.getElem?_modify, Option.some.injEq]
    by_cases hik : i = k
    · subst hik
      cases hg : groups[i]? with
      | none =>
        have hk := List.getElem?_eq_none_iff.mp hg
        simp [Nat.not_lt.mpr hk]
      | some g =>
        have hk := (List.getElem?_eq_some_iff.mp hg).1
        simp [mem_join, hk]
    · simp [hik]

theorem lists_concat {title : String} :
    Lists (groups ++ [⟨title, []⟩]) k name ↔ Lists groups k name := by
  unfold Lists
  rcases lt_trichotomy k groups.length with h | rfl | h
  · rw [List.getElem?_append_left h]
  · simp
  · rw [List.getElem?_eq_none (by simp; omega), List.getElem?_eq_none (by omega)]

theorem nodup_enroll {place : Option Nat} (h : ∀ g ∈ groups, g.member.Nodup) :
    ∀ g ∈ enroll groups place name, g.member.Nodup := by
  cases place with
  | none => exact h
  | some i =>
    intro g hg
    obtain ⟨k, hk⟩ := List.mem_iff_getElem?.mp hg
    rw [enroll, List.getElem?_modify] at hk
    obtain ⟨g', hg', rfl⟩ := Option.map_eq_some_iff.mp hk
    have hold := h g' (List.mem_of_getElem? hg')
    split
    · exact nodup_join hold
    · exact hold

theorem map_text_enroll (groups : List GroupRecord) (place : Option Nat) (name : String) :
    (enroll groups place name).map GroupRecord.text = groups.map GroupRecord.text := by
  cases place with
  | none => rfl
  | some i =>
    refine List.ext_getElem? fun k => ?_
    simp only [enroll, List.getElem?_map, List.getElem?_modify]
    by_cases hik : i = k <;> cases groups[k]? <;> simp [hik]

/-! ## What the lines so far have made -/

namespace Draft

variable {d : Draft} {a : Attribute}

/-- The items of a draft are those that have become ready. -/
theorem Holds.perm_arrivals (h : d.Holds (blocks ls)) :
    (d.document.entries.map Entry.name).Perm (arrivals ls) :=
  h.perm_entries.map Entry.name

/-- An attribute line changes the groups only if it makes the active item ready. -/
theorem Holds.groups_settle (h : d.Holds (blocks ls)) (ha : l.attribute? = some a) :
    (d.applyAttribute a).settle.document.groups =
      match readied? ls l with
      | some name => enroll d.document.groups d.group name
      | none => d.document.groups := by
  rcases List.eq_nil_or_concat' (blocks ls) with hnil | ⟨earlier, b, hb⟩
  · simp [applyAttribute, settle, h.idle hnil, readied?, hnil]
  have hactive := h.active earlier b hb
  by_cases hin : b.Enters
  · have hready : readied? ls l = none := by simp [readied?, hb, ha, hin]
    rw [hready]
    simp only [activeIn, hin, if_true] at hactive
    cases hf : b.finished <;> simp [applyAttribute, settle, hactive, hf]
  · have hready : readied? ls l =
        if (b.finished.apply a).Ready then some (b.finished.apply a).name else none := by
      simp [readied?, hb, ha, hin, Block.enters_extend, Block.finished_extend]
    simp only [activeIn, hin, if_false] at hactive
    rw [settle_applyAttribute_of_pending hactive, hready]
    by_cases hr : (b.finished.apply a).Ready
    · rw [if_pos hr, if_pos hr, groups_enter]
    · rw [if_neg hr, if_neg hr]
      rfl

@[simp] theorem group_settle (d : Draft) : d.settle.group = d.group := by
  unfold settle
  split
  · split <;> rfl
  · split <;> rfl
  · rfl

@[simp] theorem group_applyAttribute (d : Draft) (a : Attribute) :
    (d.applyAttribute a).group = d.group := by
  unfold applyAttribute
  split <;> rfl

/-- The groups of a draft are those of the group lines, items join the last one, and the members of
each have become ready while it was the last one. -/
structure Grouped (d : Draft) (ls : List Line) : Prop where
  titles : d.document.groups.map GroupRecord.text = groupTitles ls
  last : ∀ i, d.group = some i ↔ i + 1 = d.document.groups.length
  nodup : ∀ g ∈ d.document.groups, g.member.Nodup
  lists : ∀ i name, Lists d.document.groups i name ↔ Arrives ls (i + 1) name

namespace Grouped

theorem length_groups (h : d.Grouped ls) : d.document.groups.length = (groupTitles ls).length := by
  rw [← h.titles, List.length_map]

theorem of_kept {d' : Draft} (h : d.Grouped ls)
    (hgroups : d'.document.groups = d.document.groups) (hgroup : d'.group = d.group)
    (ht : l.groupTitle? = none) (hr : readied? ls l = none) : d'.Grouped (ls ++ [l]) where
  titles := by rw [hgroups, h.titles, groupTitles_concat, ht, Option.toList_none, List.append_nil]
  last i := by rw [hgroups, hgroup, h.last]
  nodup := hgroups ▸ h.nodup
  lists i name := by simp [hgroups, h.lists, arrives_concat, hr]

theorem withGroup {title : String} (h : d.Grouped ls) (ht : l.groupTitle? = some title)
    (hr : readied? ls l = none) : (d.withGroup title).Grouped (ls ++ [l]) where
  titles := by simp [Draft.withGroup, groupTitles_concat, ht, h.titles]
  last i := by simp [Draft.withGroup, eq_comm]
  nodup := by simpa [Draft.withGroup, or_imp, forall_and] using h.nodup
  lists i name := by simp [Draft.withGroup, lists_concat, h.lists, arrives_concat, hr]

theorem enroll {d' : Draft} {name : String} (h : d.Grouped ls)
    (hgroups : d'.document.groups = enroll d.document.groups d.group name)
    (hgroup : d'.group = d.group) (ht : l.groupTitle? = none) (hr : readied? ls l = some name) :
    d'.Grouped (ls ++ [l]) where
  titles := by
    rw [hgroups, map_text_enroll, h.titles, groupTitles_concat, ht, Option.toList_none,
      List.append_nil]
  last i := by
    have hlength := congrArg List.length (map_text_enroll d.document.groups d.group name)
    simp only [List.length_map] at hlength
    rw [hgroups, hgroup, hlength, h.last]
  nodup := by
    rw [hgroups]
    exact nodup_enroll h.nodup
  lists i other := by
    rw [hgroups, lists_enroll, h.lists, arrives_concat, h.last, hr, ← h.length_groups,
      Option.some.injEq]
    refine or_congr_right ⟨?_, ?_⟩
    · rintro ⟨hi, _, rfl⟩
      exact ⟨rfl, hi.symm⟩
    · rintro ⟨rfl, hi⟩
      exact ⟨hi.symm, by omega, rfl⟩

theorem takeLine (h : d.Grouped ls) (hd : d.Holds (blocks ls)) (l : Line) :
    (d.takeLine l).Grouped (ls ++ [l]) := by
  have hstep := step_takeLine d l
  generalize d.takeLine l = d' at hstep
  cases hstep with
  | item hi =>
    exact h.of_kept rfl rfl (Line.groupTitle?_of_opened? hi)
      (readied?_of_no_attribute (Line.attribute?_of_opened? hi))
  | detail hi ha =>
    have ht := Line.groupTitle?_of_attribute? ha
    have hgroups := hd.groups_settle ha
    cases hr : readied? ls l with
    | none => exact h.of_kept (by rw [hgroups, hr]) (by simp) ht hr
    | some name => exact h.enroll (by rw [hgroups, hr]) (by simp) ht hr
  | group _ ha ht => exact h.withGroup ht (readied?_of_no_attribute ha)
  | setting _ _ _ ha ht => exact h.of_kept rfl rfl ht (readied?_of_no_attribute ha)

theorem mem_members_iff (h : d.Grouped ls) :
    name ∈ d.document.groups.flatMap GroupRecord.member ↔ ∃ i, Arrives ls (i + 1) name := by
  constructor
  · intro hm
    obtain ⟨g, hg, hname⟩ := List.mem_flatMap.mp hm
    obtain ⟨i, hi⟩ := List.mem_iff_getElem?.mp hg
    exact ⟨i, (h.lists i name).mp ⟨g, hi, hname⟩⟩
  · rintro ⟨i, hi⟩
    obtain ⟨g, hg, hname⟩ := (h.lists i name).mpr hi
    exact List.mem_flatMap.mpr ⟨g, List.mem_of_getElem? hg, hname⟩

theorem mem_arrivals (h : d.Grouped ls)
    (hm : name ∈ d.document.groups.flatMap GroupRecord.member) : name ∈ arrivals ls := by
  obtain ⟨i, hi⟩ := h.mem_members_iff.mp hm
  exact mem_arrivals_iff.mpr ⟨i + 1, hi⟩

/-- Names that arrive once are in one group. -/
theorem nodup_members (h : d.Grouped ls) (hn : (arrivals ls).Nodup) :
    (d.document.groups.flatMap GroupRecord.member).Nodup := by
  refine List.nodup_flatMap.mpr ⟨h.nodup, List.pairwise_iff_getElem.mpr ?_⟩
  intro i j hi hj hlt name hni hnj
  have hai := (h.lists i name).mp ⟨_, List.getElem?_eq_getElem hi, hni⟩
  have haj := (h.lists j name).mp ⟨_, List.getElem?_eq_getElem hj, hnj⟩
  have := hai.unique hn haj
  omega

end Grouped

theorem grouped_empty : empty.Grouped [] where
  titles := rfl
  last i := by simp [empty, Document.empty]
  nodup := by simp [empty, Document.empty]
  lists i name := by simp [empty, Document.empty, Lists, Arrives]

theorem grouped_foldl (ls : List Line) : (ls.foldl takeLine empty).Grouped ls := by
  induction ls using List.reverseRecOn with
  | nil => exact grouped_empty
  | append_singleton ls l ih =>
    rw [List.foldl_append]
    exact ih.takeLine (holds_foldl ls) l

end Draft

end GanttChart.Notation
