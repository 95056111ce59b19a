import GanttChart.Proofs.Notation.Blocks

/-! # Lines read one at a time

A draft takes one line after the other: it moves a record into the document in the middle of its
block and goes on changing it there by its place. After any lines its document has the items that
the blocks of these lines give when they are read at once. -/

namespace GanttChart.Notation

/-- The active item of a draft that has just begun an item. -/
def Active.pending : Entry → Active
  | .task t => .pendingTask t
  | .milestone m => .pendingMilestone m

/-- The title of the group that a group line declares. -/
def Line.groupTitle? : Line → Option String
  | group line => some (groupTitle line)
  | _ => none

theorem modify_concat {α : Type} (l : List α) (a : α) (f : α → α) :
    (l ++ [a]).modify l.length f = l ++ [f a] := by
  induction l with
  | nil => rfl
  | cons b l ih => simp [ih]

namespace Draft

variable {d : Draft} {bs : List Block} {b : Block} {l : Line} {ls : List Line} {e : Entry}
  {a : Attribute}

/-! ## What one line does -/

def withSettings (d : Draft) (project : ProjectSection) (colors : ColorStyle) : Draft :=
  { d with document := { d.document with project := project, colors := colors } }

def withGroup (d : Draft) (title : String) : Draft :=
  { d with
    document := { d.document with groups := d.document.groups ++ [⟨title, []⟩] }
    group := some d.document.groups.length }

/-- What a line can make of a draft: it begins an item, says something of the active one, declares
a group, or changes nothing but settings. -/
inductive Step (d : Draft) (l : Line) : Draft → Prop
  | item {e : Entry} (h : l.opened? = some e) : Step d l (d.begin (.pending e))
  | detail {a : Attribute} (hi : l.opened? = none) (h : l.attribute? = some a) :
      Step d l (d.applyAttribute a).settle
  | group {title : String} (hi : l.opened? = none) (ha : l.attribute? = none)
      (h : l.groupTitle? = some title) : Step d l (d.withGroup title)
  | setting (project : ProjectSection) (colors : ColorStyle) (hi : l.opened? = none)
      (ha : l.attribute? = none) (hg : l.groupTitle? = none) :
      Step d l (d.withSettings project colors)

theorem step_of_kept (hi : l.opened? = none) (ha : l.attribute? = none)
    (hg : l.groupTitle? = none) : d.Step l d :=
  .setting d.document.project d.document.colors hi ha hg

theorem step_takeLine (d : Draft) (l : Line) : d.Step l (d.takeLine l) := by
  cases l with
  | comment => exact step_of_kept rfl rfl rfl
  | period start finish =>
    simp only [takeLine, setPeriod]
    split
    · exact .setting _ _ rfl rfl rfl
    · exact step_of_kept rfl rfl rfl
  | closed entry => exact .setting _ _ rfl rfl rfl
  | today day =>
    simp only [takeLine, setToday]
    split
    · exact .setting _ _ rfl rfl rfl
    · exact step_of_kept rfl rfl rfl
  | scale word =>
    simp only [takeLine, setScale]
    split
    · exact .setting _ _ rfl rfl rfl
    · exact step_of_kept rfl rfl rfl
  | color target list =>
    simp only [takeLine, setColors]
    split
    · exact .setting _ _ rfl rfl rfl
    · exact step_of_kept rfl rfl rfl
  | group line => exact .group rfl rfl rfl
  | task name text => exact .item (e := .task _) rfl
  | milestone name text => exact .item (e := .milestone _) rfl
  | detail body =>
    cases hread : Attribute.read? body.toList with
    | none =>
      simp only [takeLine, hread]
      exact step_of_kept rfl hread rfl
    | some a =>
      simp only [takeLine, hread]
      exact .detail rfl hread

/-- The draft once an item has entered its document. -/
def enter (d : Draft) : Entry → Draft
  | .task t =>
    { d with
      document :=
        { d.document with
          tasks := d.document.tasks ++ [t]
          groups := enroll d.document.groups d.group t.name }
      active := some (.task d.document.tasks.length) }
  | .milestone m =>
    { d with
      document :=
        { d.document with
          milestones := d.document.milestones ++ [m]
          groups := enroll d.document.groups d.group m.name }
      active := some (.milestone d.document.milestones.length) }

@[simp] theorem tasks_enter (d : Draft) (e : Entry) :
    (d.enter e).document.tasks = d.document.tasks ++ e.task?.toList := by
  cases e with
  | task t => rfl
  | milestone m => exact (List.append_nil _).symm

@[simp] theorem milestones_enter (d : Draft) (e : Entry) :
    (d.enter e).document.milestones = d.document.milestones ++ e.milestone?.toList := by
  cases e with
  | task t => exact (List.append_nil _).symm
  | milestone m => rfl

@[simp] theorem groups_enter (d : Draft) (e : Entry) :
    (d.enter e).document.groups = enroll d.document.groups d.group e.name := by
  cases e <;> rfl

/-- What an attribute does to an item that waits: it enters as soon as it is ready. -/
theorem settle_applyAttribute_of_pending (h : d.active = some (.pending e)) (a : Attribute) :
    (d.applyAttribute a).settle =
      if (e.apply a).Ready then d.enter (e.apply a) else d.begin (.pending (e.apply a)) := by
  cases e with
  | task t => simp [applyAttribute, h, settle, Active.pending, Entry.apply, Entry.ready_task_iff,
      enter, Draft.begin]
  | milestone m => simp [applyAttribute, h, settle, Active.pending, Entry.apply,
      Entry.ready_milestone_iff, enter, Draft.begin]

/-! ## What the lines so far have made -/

/-- The active item of a draft in a block: the record while it waits, its place from then on. -/
def activeIn (earlier : List Block) (b : Block) : Active :=
  if b.Enters then
    match b.finished with
    | .task _ => .task ((entered earlier).filterMap Entry.task?).length
    | .milestone _ => .milestone ((entered earlier).filterMap Entry.milestone?).length
  else .pending b.finished

/-- The items of a draft are those of the blocks read so far, and its active item is that of the
last block. -/
structure Holds (d : Draft) (bs : List Block) : Prop where
  tasks : d.document.tasks = (entered bs).filterMap Entry.task?
  milestones : d.document.milestones = (entered bs).filterMap Entry.milestone?
  idle : bs = [] → d.active = none
  active : ∀ earlier b, bs = earlier ++ [b] → d.active = some (activeIn earlier b)

namespace Holds

theorem concat (ht : d.document.tasks = (entered (bs ++ [b])).filterMap Entry.task?)
    (hm : d.document.milestones = (entered (bs ++ [b])).filterMap Entry.milestone?)
    (ha : d.active = some (activeIn bs b)) : d.Holds (bs ++ [b]) := by
  refine ⟨ht, hm, by simp, ?_⟩
  intro earlier b' hb
  obtain ⟨rfl, hlast⟩ := List.append_inj' hb rfl
  obtain rfl := List.singleton_inj.mp hlast
  exact ha

theorem begin (h : d.Holds bs) (he : ¬ e.Ready) :
    (d.begin (.pending e)).Holds (bs ++ [⟨e, []⟩]) := by
  have hout : ¬ (Block.mk e []).Enters := Block.enters_nil_iff.not.mpr he
  refine .concat ?_ ?_ ?_
  · simpa [Draft.begin, filterMap_entered_concat, hout] using h.tasks
  · simpa [Draft.begin, filterMap_entered_concat, hout] using h.milestones
  · simp [Draft.begin, activeIn, hout, Block.finished]

/-- An attribute reaches a record in the document at its place, the last one of its list. -/
theorem apply_of_enters (h : d.Holds (bs ++ [b])) (hin : b.Enters) (a : Attribute) :
    (d.applyAttribute a).settle.Holds (bs ++ [b.extend [a]]) := by
  have hin' : (b.extend [a]).Enters := Block.enters_extend.mpr (.inl hin)
  have hfinished := b.finished_extend a
  obtain ⟨ht, hm, _, ha⟩ := h
  replace ha := ha bs b rfl
  rw [filterMap_entered_concat, if_pos hin] at ht hm
  cases hb : b.finished with
  | task t =>
    rw [hb] at hfinished ht hm
    simp only [activeIn, hin, if_true, hb] at ha
    simp only [applyAttribute, ha, settle]
    refine .concat ?_ ?_ ?_
    · rw [filterMap_entered_concat, if_pos hin', hfinished, ht]
      exact modify_concat _ _ _
    · rw [filterMap_entered_concat, if_pos hin', hfinished, hm]
      rfl
    · simp [activeIn, hin', hfinished, Entry.apply]
  | milestone m =>
    rw [hb] at hfinished ht hm
    simp only [activeIn, hin, if_true, hb] at ha
    simp only [applyAttribute, ha, settle]
    refine .concat ?_ ?_ ?_
    · rw [filterMap_entered_concat, if_pos hin', hfinished, ht]
      rfl
    · rw [filterMap_entered_concat, if_pos hin', hfinished, hm]
      exact modify_concat _ _ _
    · simp [activeIn, hin', hfinished, Entry.apply]

/-- An attribute reaches a record that waits, and moves it into the document when that makes it
ready. -/
theorem apply_of_waits (h : d.Holds (bs ++ [b])) (hout : ¬ b.Enters) (a : Attribute) :
    (d.applyAttribute a).settle.Holds (bs ++ [b.extend [a]]) := by
  have hin : (b.extend [a]).Enters ↔ (b.extend [a]).finished.Ready := by
    rw [Block.enters_extend]
    exact or_iff_right hout
  have hactive : d.active = some (.pending b.finished) := by
    simpa [activeIn, hout] using h.active bs b rfl
  have ht := h.tasks
  have hm := h.milestones
  rw [filterMap_entered_concat, if_neg hout, List.append_nil] at ht hm
  rw [settle_applyAttribute_of_pending hactive, ← b.finished_extend a]
  split
  · rename_i hready
    have hin' := hin.mpr hready
    refine .concat ?_ ?_ ?_
    · rw [tasks_enter, filterMap_entered_concat, if_pos hin', ht]
    · rw [milestones_enter, filterMap_entered_concat, if_pos hin', hm]
    · cases hf : (b.extend [a]).finished with
      | task t => simp [enter, activeIn, hin', hf, ht]
      | milestone m => simp [enter, activeIn, hin', hf, hm]
  · rename_i hready
    have hout' := hin.not.mpr hready
    refine .concat ?_ ?_ ?_
    · simpa [Draft.begin, filterMap_entered_concat, hout'] using ht
    · simpa [Draft.begin, filterMap_entered_concat, hout'] using hm
    · simp [Draft.begin, activeIn, hout']

theorem apply_settle (h : d.Holds (bs ++ [b])) (a : Attribute) :
    (d.applyAttribute a).settle.Holds (bs ++ [b.extend [a]]) := by
  by_cases hin : b.Enters
  · exact h.apply_of_enters hin a
  · exact h.apply_of_waits hin a

theorem of_same_items {d' : Draft} (h : d.Holds bs) (ht : d'.document.tasks = d.document.tasks)
    (hm : d'.document.milestones = d.document.milestones) (ha : d'.active = d.active) :
    d'.Holds bs :=
  ⟨ht ▸ h.tasks, hm ▸ h.milestones, ha ▸ h.idle, ha ▸ h.active⟩

theorem takeLine (h : d.Holds (blocks ls)) (l : Line) :
    (d.takeLine l).Holds (blocks (ls ++ [l])) := by
  have hstep := step_takeLine d l
  generalize d.takeLine l = d' at hstep
  -- a line without an item and an attribute leaves the blocks and the items as they are
  have hother (hi : l.opened? = none) (ha : l.attribute? = none) :
      blocks (ls ++ [l]) = blocks ls := by
    rcases blocks_append ls hi with ⟨hnil, hnil'⟩ | ⟨earlier, b, hb, hb'⟩
    · rw [hnil, hnil']
    · rw [hb, hb', ha, Option.toList_none, Block.extend_nil]
  cases hstep with
  | item hi =>
    rw [blocks_append_item hi]
    exact h.begin (Line.not_ready_of_opened? hi)
  | detail hi ha =>
    rcases blocks_append ls hi with ⟨hnil, hnil'⟩ | ⟨earlier, b, hb, hb'⟩
    · rw [hnil']
      rw [hnil] at h
      simpa [applyAttribute, settle, h.idle rfl] using h
    · rw [hb', ha]
      rw [hb] at h
      exact h.apply_settle _
  | group hi ha _ =>
    rw [hother hi ha]
    exact h.of_same_items rfl rfl rfl
  | setting project colors hi ha _ =>
    rw [hother hi ha]
    exact h.of_same_items rfl rfl rfl

end Holds

theorem holds_empty : empty.Holds [] := ⟨rfl, rfl, fun _ => rfl, by simp⟩

theorem holds_foldl (ls : List Line) : (ls.foldl takeLine empty).Holds (blocks ls) := by
  induction ls using List.reverseRecOn with
  | nil => exact holds_empty
  | append_singleton ls l ih =>
    rw [List.foldl_append]
    exact ih.takeLine l

/-- Lines that no form takes are passed over. -/
theorem feedAll_eq_foldl (d : Draft) (lines : List String) :
    d.feedAll lines = (lines.filterMap Line.read?).foldl takeLine d := by
  rw [List.foldl_filterMap, feedAll]
  congr 1
  funext d line
  unfold feed
  cases Line.read? line <;> rfl

/-- The items of a document are the finished ones of the blocks that enter, tasks first. -/
theorem Holds.perm_entries (h : d.Holds bs) : d.document.entries.Perm (entered bs) := by
  rw [Document.entries, h.tasks, h.milestones]
  exact Entry.perm_tasks_milestones _

theorem mem_entries_feedAll (lines : List String) :
    e ∈ (empty.feedAll lines).document.entries ↔
      ∃ b ∈ blocks (lines.filterMap Line.read?), b.Enters ∧ b.finished = e := by
  rw [feedAll_eq_foldl, (holds_foldl _).perm_entries.mem_iff]
  simp [entered, and_assoc]

/-- Reading lines one at a time makes the items of their blocks: in the order of the blocks, each
one once, with all attributes of its block and nothing of another. -/
theorem feedAll_eq_blocks (lines : List String) :
    (empty.feedAll lines).document.tasks =
        (((blocks (lines.filterMap Line.read?)).filter (·.Enters)).map Block.finished).filterMap
          Entry.task? ∧
      (empty.feedAll lines).document.milestones =
        (((blocks (lines.filterMap Line.read?)).filter (·.Enters)).map Block.finished).filterMap
          Entry.milestone? := by
  rw [feedAll_eq_foldl]
  exact ⟨(holds_foldl _).tasks, (holds_foldl _).milestones⟩

end Draft

end GanttChart.Notation
