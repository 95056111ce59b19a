import GanttChart.Notation.Draft
import GanttChart.Schedule.Resolve
import Mathlib.Data.List.Infix

/-! # The notation read in blocks

An item line opens a block, and the attribute lines up to the next item line belong to it. Read at
once, a block gives its item with all its attributes, or nothing when no first part of them makes
the item ready. -/

namespace GanttChart

open Notation (Attribute)

namespace Entry

def task? : Entry → Option TaskRecord
  | task t => some t
  | milestone _ => none

def milestone? : Entry → Option MilestoneRecord
  | task _ => none
  | milestone m => some m

def apply : Entry → Attribute → Entry
  | task t, a => task (t.apply a)
  | milestone m, a => milestone (m.apply a)

/-- What a record must say before its item can be drawn: of a task the start and the end or the
period, of a milestone any part of the plan. -/
def Ready : Entry → Prop
  | task t => ∃ r, t.plan = some (.range r) ∧ r.start.isSome ∧ (r.finish.isSome ∨ r.period.isSome)
  | milestone m => (∃ day, m.plan = some (.point day)) ∨
      ∃ r, m.plan = some (.range r) ∧ (r.start.isSome ∨ r.finish.isSome ∨ r.period.isSome)

theorem ready_task_iff {t : TaskRecord} : (task t).Ready ↔ t.isReady = true := by
  obtain ⟨name, text, plan, actual, assignee⟩ := t
  rcases plan with _ | ⟨day⟩ | ⟨r⟩ <;> simp [Ready, TaskRecord.isReady]

theorem ready_milestone_iff {m : MilestoneRecord} : (milestone m).Ready ↔ m.isReady = true := by
  obtain ⟨name, text, plan, actual⟩ := m
  rcases plan with _ | ⟨day⟩ | ⟨r⟩ <;> simp [Ready, MilestoneRecord.isReady, or_assoc]

instance : DecidablePred Ready
  | task _ => decidable_of_iff _ ready_task_iff.symm
  | milestone _ => decidable_of_iff _ ready_milestone_iff.symm

@[simp] theorem name_apply (e : Entry) (a : Attribute) : (e.apply a).name = e.name := by
  cases e <;> cases a <;> rfl

/-- Tasks before milestones is another order of the same items. -/
theorem perm_tasks_milestones (es : List Entry) :
    ((es.filterMap task?).map task ++ (es.filterMap milestone?).map milestone).Perm es := by
  induction es with
  | nil => exact .nil
  | cons e es ih =>
    cases e with
    | task t => exact ih.cons _
    | milestone m => exact List.perm_middle.trans (ih.cons _)

end Entry

namespace Notation

structure Block where
  opened : Entry
  attributes : List Attribute

namespace Block

/-- The item after all attributes of its block. -/
def finished (b : Block) : Entry := b.attributes.foldl Entry.apply b.opened

/-- Some of the attributes, from the first one on, make the item ready. -/
def Enters (b : Block) : Prop := ∃ p, p <+: b.attributes ∧ (p.foldl Entry.apply b.opened).Ready

instance : DecidablePred Enters := fun b =>
  decidable_of_iff (∃ p ∈ b.attributes.inits, (p.foldl Entry.apply b.opened).Ready)
    (by simp only [Enters, List.mem_inits])

def extend (b : Block) (as : List Attribute) : Block := { b with attributes := b.attributes ++ as }

@[simp] theorem extend_nil (b : Block) : b.extend [] = b := by simp [extend]

theorem finished_extend (b : Block) (a : Attribute) :
    (b.extend [a]).finished = b.finished.apply a := by
  simp [finished, extend]

theorem enters_extend {b : Block} {a : Attribute} :
    (b.extend [a]).Enters ↔ b.Enters ∨ (b.extend [a]).finished.Ready := by
  unfold Enters
  simp only [extend, List.prefix_concat_iff, or_and_right, exists_or, exists_eq_left]
  exact or_comm

theorem enters_nil_iff {e : Entry} : (Block.mk e []).Enters ↔ e.Ready := by
  simp [Enters]

end Block

namespace Line

/-- The item that an item line opens, with nothing but its name and text. -/
def opened? : Line → Option Entry
  | task name text => some (.task { TaskRecord.named name with text := itemText? text })
  | milestone name text =>
    some (.milestone { MilestoneRecord.named name with text := itemText? text })
  | _ => none

/-- The attribute of an attribute line, if it is accepted. -/
def attribute? : Line → Option Attribute
  | detail body => Attribute.read? body.toList
  | _ => none

theorem not_ready_of_opened? {l : Line} {e : Entry} (h : l.opened? = some e) : ¬ e.Ready := by
  cases l <;> cases h
  · simp [Entry.Ready, TaskRecord.named]
  · simp [Entry.Ready, MilestoneRecord.named]

end Line

/-- The attributes up to the next item line. -/
def ownAttributes (ls : List Line) : List Attribute :=
  (ls.takeWhile fun l => l.opened?.isNone).filterMap Line.attribute?

/-- The blocks of lines. What stands before the first item line is in none. -/
def blocks : List Line → List Block
  | [] => []
  | l :: rest =>
    match l.opened? with
    | none => blocks rest
    | some e => ⟨e, ownAttributes rest⟩ :: blocks rest

/-- The finished items of the blocks whose items become ready. -/
def entered (bs : List Block) : List Entry := (bs.filter (·.Enters)).map Block.finished

section Snoc

variable {ls : List Line} {l : Line} {e : Entry}

theorem ownAttributes_append_item (h : l.opened? = some e) :
    ownAttributes (ls ++ [l]) = ownAttributes ls := by
  induction ls with
  | nil => simp [ownAttributes, h]
  | cons x rest ih =>
    unfold ownAttributes at ih ⊢
    cases hx : x.opened? with
    | none => simp [hx, List.filterMap_cons, ih]
    | some e' => simp [hx]

theorem ownAttributes_append (h : l.opened? = none) : ownAttributes (ls ++ [l]) =
    ownAttributes ls ++ if blocks ls = [] then l.attribute?.toList else [] := by
  induction ls with
  | nil => cases ha : l.attribute? <;> simp [ownAttributes, blocks, h, ha]
  | cons x rest ih =>
    unfold ownAttributes at ih ⊢
    cases hx : x.opened? with
    | none =>
      cases ha : x.attribute? <;> simp [hx, ha, ih, blocks]
    | some e' => simp [hx, blocks]

theorem blocks_append_item (h : l.opened? = some e) :
    blocks (ls ++ [l]) = blocks ls ++ [⟨e, []⟩] := by
  induction ls with
  | nil => simp [blocks, h, ownAttributes]
  | cons x rest ih =>
    rw [List.cons_append, blocks, blocks, ih, ownAttributes_append_item h]
    cases x.opened? with
    | none => rfl
    | some e' => rfl

/-- A line that opens no block gives its attribute, if it has one, to the last block. -/
theorem blocks_append (ls : List Line) (h : l.opened? = none) :
    (blocks ls = [] ∧ blocks (ls ++ [l]) = []) ∨
      ∃ earlier b, blocks ls = earlier ++ [b] ∧
        blocks (ls ++ [l]) = earlier ++ [b.extend l.attribute?.toList] := by
  induction ls with
  | nil => left; simp [blocks, h]
  | cons x rest ih =>
    rw [List.cons_append, blocks, blocks, ownAttributes_append h]
    cases hx : x.opened? with
    | none => exact ih
    | some e =>
      right
      rcases ih with ⟨hnil, hnil'⟩ | ⟨earlier, b, hb, hb'⟩
      · refine ⟨[], ⟨e, ownAttributes rest⟩, ?_, ?_⟩
        · simp [hnil]
        · simp [hnil, hnil', Block.extend]
      · refine ⟨⟨e, ownAttributes rest⟩ :: earlier, b, ?_, ?_⟩
        · simp [hb]
        · simp [hb, hb']

end Snoc

/-- One more block adds at most its own item. -/
theorem filterMap_entered_concat {α : Type} (f : Entry → Option α) (bs : List Block) (b : Block) :
    (entered (bs ++ [b])).filterMap f =
      (entered bs).filterMap f ++ if b.Enters then (f b.finished).toList else [] := by
  by_cases h : b.Enters
  · cases hf : f b.finished <;> simp [entered, h, hf]
  · simp [entered, h]

end Notation

end GanttChart
