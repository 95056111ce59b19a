import GanttChart.Proofs.Schedule.Paths
import GanttChart.Proofs.Text.Cutting

/-! # Colors of a schedule

Where the standard colors are no blanks, every item has five colors that are none, whatever blanks
the override lists hold. The color of paths is the first one of its list without a look at whether
there is one, so it is blank for the lists that start with the separator. -/

namespace GanttChart

namespace Text

theorem trim_eq_nil_iff {cs : List Char} : trim cs = [] ↔ cs.all isBlank = true := by
  constructor
  · intro h
    have hdrop : cs.dropWhile isBlank = [] := by
      cases hcs : cs.dropWhile isBlank with
      | nil => rfl
      | cons c r =>
        have hnil : (c :: r).rdropWhile isBlank = [] := hcs ▸ h
        have hall := List.rdropWhile_eq_nil_iff.mp hnil
        have hhead := List.head?_dropWhile_not isBlank cs
        rw [hcs] at hhead
        exact absurd (hall c List.mem_cons_self) (by simpa using hhead)
    rw [List.all_eq_true]
    exact List.dropWhile_eq_nil_iff.mp hdrop
  · intro h
    have hdrop : cs.dropWhile isBlank = [] := List.dropWhile_eq_nil_iff.mpr (List.all_eq_true.mp h)
    show (cs.dropWhile isBlank).rdropWhile isBlank = []
    rw [hdrop]
    rfl

/-- Trimming leaves something of a text that is not blank, and it starts with no blank. -/
theorem exists_trim_eq_cons {s : String} (h : isBlankText s = false) :
    ∃ c r, trim s.toList = c :: r ∧ isBlank c = false := by
  cases htrim : trim s.toList with
  | nil =>
    have hblank : isBlankText s = true := trim_eq_nil_iff.mp htrim
    rw [h] at hblank
    cases hblank
  | cons c r =>
    have hstart : (c :: r).dropWhile isBlank = c :: r := htrim ▸ trimStart_trim s.toList
    have hhead := List.head?_dropWhile_not isBlank (c :: r)
    rw [hstart] at hhead
    exact ⟨c, r, rfl, hhead⟩

theorem isBlankText_trimmed {s : String} (h : isBlankText s = false) :
    isBlankText (trimmed s) = false := by
  obtain ⟨c, r, htrim, hc⟩ := exists_trim_eq_cons h
  simp [isBlankText, trimmed, htrim, hc]

/-- The first field is what stands in front of the separator. -/
theorem head?_fields (sep : Char) (cs : List Char) :
    (fields sep cs).head? = some (cs.takeWhile (· ≠ sep)) := by
  induction cs with
  | nil => rfl
  | cons c cs ih =>
    cases hfields : fields sep cs with
    | nil => exact absurd hfields (fields_ne_nil sep cs)
    | cons field more =>
      rw [hfields, List.head?_cons, Option.some.injEq] at ih
      by_cases hc : c = sep
      · simp [fields, hfields, hc]
      · simp [fields, hfields, hc, ih]

end Text

open Text (isBlankText)

/-! ## Override lists -/

/-- The five colors in the order of an override list. -/
def ColorSet.slots (c : ColorSet) : List String :=
  [c.planFill, c.planOutline, c.text, c.actualFill, c.actualOutline]

def ScheduleItem.colors : ScheduleItem → ColorSet
  | task t => t.colors
  | milestone m => m.colors

theorem ColorSet.forall_override {P : String → Prop} {colors : ColorSet} {list : String}
    (h : ∀ c ∈ colors.slots, P c)
    (hlist : ∀ field ∈ Text.fieldsOf '/' list, isBlankText field = false → P (Text.trimmed field)) :
    ∀ c ∈ (colors.override list).slots, P c := by
  have hpick (place : Nat) {color : String} (hcolor : P color) :
      P (pick (Text.fieldsOf '/' list) place color) := by
    unfold pick
    split
    · rename_i field hfield
      split
      · exact hcolor
      · rename_i hfilled
        exact hlist field (List.mem_of_getElem? hfield) (by simpa using hfilled)
    · exact hcolor
  simp only [slots, List.mem_cons, List.not_mem_nil, or_false, forall_eq_or_imp, forall_eq,
    override] at h ⊢
  obtain ⟨hfill, houtline, htext, hactual, hline⟩ := h
  exact ⟨hpick 0 hfill, hpick 1 houtline, hpick 2 htext, hpick 3 hactual, hpick 4 hline⟩

namespace ColorStyle

variable {style : ColorStyle} {config : ChartConfig}

/-- What holds of the standard colors and of all filled places of the lists holds of the colors that
items get. -/
theorem forall_palette {P : String → Prop} (h : ∀ c ∈ config.defaultColors.slots, P c)
    (hlists : ∀ list ∈ style.task.toList ++ style.milestone.toList,
      ∀ field ∈ Text.fieldsOf '/' list, isBlankText field = false → P (Text.trimmed field)) :
    (∀ c ∈ (style.palette config).task.slots, P c) ∧
      ∀ c ∈ (style.palette config).milestone.slots, P c := by
  have hoverridden (list : String) (hlist : list ∈ style.task.toList ++ style.milestone.toList) :
      ∀ c ∈ (if isBlankText list then config.defaultColors
        else config.defaultColors.override list).slots, P c := by
    split
    · exact h
    · exact ColorSet.forall_override h (hlists list hlist)
  constructor
  · cases hlist : style.task with
    | none => simpa only [palette, hlist] using h
    | some list => simpa only [palette, hlist] using hoverridden list (by simp [hlist])
  · cases hlist : style.milestone with
    | none => simpa only [palette, hlist] using h
    | some list => simpa only [palette, hlist] using hoverridden list (by simp [hlist])

theorem isBlankText_palette (h : ∀ c ∈ config.defaultColors.slots, isBlankText c = false) :
    (∀ c ∈ (style.palette config).task.slots, isBlankText c = false) ∧
      ∀ c ∈ (style.palette config).milestone.slots, isBlankText c = false :=
  forall_palette h fun _ _ _ _ hfilled => Text.isBlankText_trimmed hfilled

/-- The color of paths is blank just where the list for it starts with the separator. -/
theorem isBlankText_path_iff (style : ColorStyle)
    (h : isBlankText config.defaultPathColor = false) :
    isBlankText (style.palette config).path = true ↔
      ∃ list, style.path = some list ∧ (Text.trim list.toList).head? = some '/' := by
  cases hpath : style.path with
  | none => simp [palette, hpath, h]
  | some list =>
    simp only [palette, hpath, Option.some.injEq, exists_eq_left']
    split
    · rename_i hblank
      have htrim : Text.trim list.toList = [] := Text.trim_eq_nil_iff.mpr hblank
      simp [h, htrim]
    · rename_i hfilled
      obtain ⟨c, r, htrim, hc⟩ := Text.exists_trim_eq_cons (by simpa using hfilled)
      have hfirst : (Text.fieldsOf '/' (Text.trimmed list)).head? =
          some (String.ofList ((c :: r).takeWhile (· ≠ '/'))) := by
        simp [Text.fieldsOf, Text.trimmed, htrim, Text.head?_fields]
      rw [hfirst, htrim]
      by_cases hslash : c = '/'
      · simp [hslash, isBlankText]
      · simp [hslash, isBlankText, hc]

end ColorStyle

/-! ## Resolved schedules -/

/-- The colors that a palette has for an item. -/
def Palette.colorsOf (palette : Palette) : ScheduleItem → ColorSet
  | .task _ => palette.task
  | .milestone _ => palette.milestone

theorem Entry.colors_of_resolve {calendar : WorkCalendar} {palette : Palette} {table : PlanTable}
    {e : Entry} {i : ScheduleItem} (h : e.resolve calendar palette table = .ok i) :
    i.colors = palette.colorsOf i := by
  obtain ⟨p, hp⟩ := planned_of_resolve h
  simp only [resolve, hp] at h
  cases e with
  | task t =>
    obtain ⟨actual, _, h⟩ := Outcome.bind_eq_ok.mp h
    cases h
    rfl
  | milestone m =>
    obtain ⟨actual, _, h⟩ := Outcome.bind_eq_ok.mp h
    cases h
    rfl

theorem Entry.LeadsTo.color_eq {a : Assignment} {color : String} {e : Entry} {p : DependencyPath}
    (h : e.LeadsTo a color p) : p.color = color := by
  cases h <;> rfl

namespace Document

variable {d : Document} {config : ChartConfig} {s : Schedule} {table : PlanTable}

theorem ResolvesTo.colors_eq (h : d.ResolvesTo config s table) :
    ∀ i ∈ s.items, i.colors = (d.colors.palette config).colorsOf i := by
  intro i hi
  obtain ⟨e, _, hresolve⟩ := Outcome.exists_of_forall₂ h.items.flip i hi
  exact Entry.colors_of_resolve hresolve

theorem ResolvesTo.color_eq (h : d.ResolvesTo config s table) :
    ∀ p ∈ s.paths, p.color = (d.colors.palette config).path := by
  intro p hp
  obtain ⟨e, _, hleads⟩ := h.mem_paths.mp hp
  exact hleads.color_eq

/-- Where no standard color is blank, no color of an item is. The colors of paths are not blank
either, unless there are paths and the list for them starts with the separator. -/
theorem filled_colors_iff (hcolors : ∀ c ∈ config.defaultColors.slots, isBlankText c = false)
    (hpath : isBlankText config.defaultPathColor = false) (h : d.resolve config = .ok s) :
    (∀ i ∈ s.items, ∀ c ∈ i.colors.slots, isBlankText c = false) ∧
    ((∀ p ∈ s.paths, isBlankText p.color = false) ↔
      s.paths = [] ∨
        ∀ list, d.colors.path = some list → (Text.trim list.toList).head? ≠ some '/') := by
  obtain ⟨table, hr⟩ := resolve_eq_ok_iff.mp h
  constructor
  · intro i hi
    obtain ⟨htask, hmilestone⟩ := d.colors.isBlankText_palette hcolors
    rw [hr.colors_eq i hi]
    cases i with
    | task t => exact htask
    | milestone m => exact hmilestone
  · have hcolor := hr.color_eq
    have hblank := d.colors.isBlankText_path_iff hpath
    have hsplit : (∀ p ∈ s.paths, isBlankText p.color = false) ↔
        s.paths = [] ∨ isBlankText (d.colors.palette config).path = false := by
      cases hpaths : s.paths with
      | nil => simp
      | cons p rest =>
        rw [hpaths] at hcolor
        constructor
        · intro hfilled
          exact .inr (hcolor p List.mem_cons_self ▸ hfilled p List.mem_cons_self)
        · rintro (hnil | hfilled) q hq
          · cases hnil
          · rw [hcolor q hq]
            exact hfilled
    rw [hsplit, ← Bool.not_eq_true, hblank]
    simp only [not_exists, not_and, ne_eq]

/-- Two tasks with a path between them. -/
def painted (colors : ColorStyle) : Document :=
  { april [.spanning "build" "2020/4/2" "2020/4/6", .spanning "paint" "build's end" "2020/4/20"] []
    with colors := colors }

theorem exists_resolve_painted (colors : ColorStyle) :
    ∃ s, (painted colors).resolve .standard = .ok s ∧ s.paths ≠ [] := by
  have hpaths : ((painted colors).resolve .standard).map (fun s => s.paths.isEmpty) =
      .ok false := by cbv
  obtain ⟨s, hs, hsome⟩ := Outcome.map_eq_ok.mp hpaths
  exact ⟨s, hs, by simpa using hsome⟩

/-- Blank places and blank lists keep the standard colors. -/
theorem painted_colors_filled :
    ∃ s, (painted ⟨some " red / /  ", some " ", some " navy/ "⟩).resolve .standard = .ok s ∧
      s.paths ≠ [] ∧ (∀ i ∈ s.items, ∀ c ∈ i.colors.slots, isBlankText c = false) ∧
      ∀ p ∈ s.paths, isBlankText p.color = false := by
  obtain ⟨s, hs, hsome⟩ := exists_resolve_painted ⟨some " red / /  ", some " ", some " navy/ "⟩
  obtain ⟨hitems, hcolors⟩ := filled_colors_iff (by decide) (by decide) hs
  refine ⟨s, hs, hsome, hitems, hcolors.mpr (.inr ?_)⟩
  rintro list ⟨⟩
  decide

/-- The standard color does not take the place of one that a list leaves blank. -/
theorem exists_blank_path_color :
    ∃ s, (painted ⟨none, none, some "/red"⟩).resolve .standard = .ok s ∧
      ¬ ∀ p ∈ s.paths, isBlankText p.color = false := by
  have hblank : ((painted ⟨none, none, some "/red"⟩).resolve .standard).map
      (fun s => s.paths.map fun p => isBlankText p.color) = .ok [true] := by cbv
  obtain ⟨s, hs, htrue⟩ := Outcome.map_eq_ok.mp hblank
  refine ⟨s, hs, fun hfilled => ?_⟩
  obtain ⟨p, hp, hp'⟩ := List.mem_map.mp (htrue ▸ List.mem_singleton_self true)
  rw [hfilled p hp] at hp'
  cases hp'

end Document

end GanttChart
