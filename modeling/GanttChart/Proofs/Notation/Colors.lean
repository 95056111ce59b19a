import GanttChart.Proofs.Notation.Directives
import GanttChart.Proofs.Notation.Partition
import GanttChart.Proofs.Notation.Resolving
import GanttChart.Proofs.Schedule.Colors

/-! # Colors in the notation

A color line counts only if all of its list are colors, and of several for one target the last that
counts is in force. Its list is cut and trimmed again when a schedule takes its colors, which does
no harm to colors, since there are no blanks in them. So nothing but colors is drawn. -/

namespace GanttChart

namespace Color

variable {color : String} {c : Char}

theorem toNat_bounds_of_hexDigit? (h : (Number.hexDigit? c).isSome = true) :
    48 ≤ c.toNat ∧ c.toNat ≤ 102 := by
  simp only [Number.hexDigit?, Char.isDigit, Char.le_def, UInt32.le_iff_toNat_le, ge_iff_le,
    Bool.and_eq_true, decide_eq_true_eq] at h
  have hbounds : '0'.val.toNat = 48 ∧ '9'.val.toNat = 57 ∧ 'A'.val.toNat = 65 ∧
      'F'.val.toNat = 70 ∧ 'a'.val.toNat = 97 ∧ 'f'.val.toNat = 102 := by decide
  have htoNat : c.toNat = c.val.toNat := rfl
  split at h
  · omega
  · split at h
    · omega
    · split at h
      · omega
      · cases h

theorem isBlank_of_toNat_bounds (hlow : 33 ≤ c.toNat) (hhigh : c.toNat ≤ 126) :
    Text.isBlank c = false := by
  simp only [Text.isBlank, Text.blankRanges, List.any_cons, List.any_nil, Bool.or_false,
    Bool.or_eq_false_iff, Bool.and_eq_false_iff, decide_eq_false_iff_not]
  omega

/-- A color is made of characters that are no blanks. -/
theorem filled_of_isValid (h : isValid color = true) :
    ∀ c ∈ color.toList, Text.isBlank c = false := by
  unfold isValid at h
  split at h
  · rename_i digits hdigits
    simp only [Bool.and_eq_true, List.all_eq_true] at h
    rw [hdigits]
    refine List.forall_mem_cons.mpr ⟨by decide, fun c hc => ?_⟩
    obtain ⟨hlow, hhigh⟩ := toNat_bounds_of_hexDigit? (h.2 c hc)
    exact isBlank_of_toNat_bounds (by omega) (by omega)
  · have hkeywords : (keywords.all fun word =>
        word.toList.all fun c => 33 ≤ c.toNat && c.toNat ≤ 126) = true := by
      decide +kernel
    have hword := List.all_eq_true.mp hkeywords color (List.contains_iff_mem.mp h)
    simp only [Bool.and_eq_true, List.all_eq_true, decide_eq_true_eq] at hword
    exact fun c hc => isBlank_of_toNat_bounds (hword c hc).1 (hword c hc).2

theorem trimmed_of_isValid (h : isValid color = true) : Text.trimmed color = color := by
  rw [Text.trimmed, Text.trim_of_forall (filled_of_isValid h), String.ofList_toList]

end Color

namespace Notation

variable {ls : List Line} {target : Target} {list : String}

/-! ## The lists in force -/

/-- The list that a line sets for a target, which counts only if all of it are colors. -/
def Line.listFor? (target : Target) : Line → Option String
  | color t list =>
    if t = target ∧ (Text.fieldsOf '/' (Text.trimmed list)).all Color.isValid then
      some (Text.trimmed list)
    else none
  | _ => none

/-- The last list that counts for a target. -/
def latestList? (target : Target) (ls : List Line) : Option String :=
  (ls.filterMap (Line.listFor? target)).getLast?

def styleOf (ls : List Line) : ColorStyle :=
  ⟨latestList? .task ls, latestList? .milestone ls, latestList? .path ls⟩

theorem latestList?_concat (target : Target) (ls : List Line) (l : Line) :
    latestList? target (ls ++ [l]) = (l.listFor? target).or (latestList? target ls) := by
  cases h : l.listFor? target <;> simp [latestList?, h]

/-- One more line makes of the lists in force what it makes of the colors of a document. -/
theorem styleOf_concat (ls : List Line) (l : Line) :
    styleOf (ls ++ [l]) = l.onColors (styleOf ls) := by
  simp only [styleOf, latestList?_concat]
  cases l with
  | color target list =>
    simp only [Line.listFor?, Line.onColors]
    cases (Text.fieldsOf '/' (Text.trimmed list)).all Color.isValid with
    | false => simp
    | true => cases target <;> simp [setTarget]
  | _ => rfl

theorem Draft.feed_color {line : String} (h : Line.read? line = some (.color target list))
    (d : Draft) : d.feed line =
      d.withSettings d.document.project ((Line.color target list).onColors d.document.colors) := by
  rw [feed, h]
  exact takeLine_of_isDirective rfl d

theorem Draft.colors_foldl (ls : List Line) :
    (ls.foldl takeLine empty).document.colors = styleOf ls := by
  induction ls using List.reverseRecOn with
  | nil => rfl
  | append_singleton ls l ih =>
    rw [List.foldl_append, List.foldl_cons, List.foldl_nil, colors_takeLine, ih, styleOf_concat]

theorem colors_document (text : String) : (document text).colors = styleOf (linesOf text) := by
  rw [document, Draft.feedAll_eq_foldl, Draft.colors_foldl]
  rfl

theorem of_latestList? (h : latestList? target ls = some list) :
    Text.trimmed list = list ∧ ∀ field ∈ Text.fieldsOf '/' list, Color.isValid field = true := by
  obtain ⟨l, _, hl⟩ := List.mem_filterMap.mp (List.mem_of_getLast? h)
  cases l with
  | color t raw =>
    simp only [Line.listFor?, Option.ite_none_right_eq_some, Option.some.injEq] at hl
    obtain ⟨⟨_, hvalid⟩, rfl⟩ := hl
    refine ⟨?_, List.all_eq_true.mp hvalid⟩
    rw [Text.trimmed, Text.trimmed, String.toList_ofList, Text.trim_trim]
  | _ => cases hl

/-! ## The colors that are drawn -/

section Palette

variable {config : ChartConfig}

theorem isValid_items_palette (ls : List Line)
    (h : ∀ c ∈ config.defaultColors.slots, Color.isValid c = true) (i : ScheduleItem) :
    ∀ c ∈ (((styleOf ls).palette config).colorsOf i).slots, Color.isValid c = true := by
  have hlists : ∀ list ∈ (styleOf ls).task.toList ++ (styleOf ls).milestone.toList,
      ∀ field ∈ Text.fieldsOf '/' list, Text.isBlankText field = false →
        Color.isValid (Text.trimmed field) = true := by
    intro list hlist field hfield _
    have hvalid : Color.isValid field = true := by
      rcases List.mem_append.mp hlist with hlist | hlist
      · exact (of_latestList? (Option.mem_toList.mp hlist)).2 field hfield
      · exact (of_latestList? (Option.mem_toList.mp hlist)).2 field hfield
    rwa [Color.trimmed_of_isValid hvalid]
  obtain ⟨htask, hmilestone⟩ := ColorStyle.forall_palette h hlists
  cases i with
  | task t => exact htask
  | milestone m => exact hmilestone

theorem isValid_path_palette (ls : List Line) (h : Color.isValid config.defaultPathColor = true) :
    Color.isValid ((styleOf ls).palette config).path = true := by
  cases hpath : (styleOf ls).path with
  | none => simpa only [ColorStyle.palette, hpath] using h
  | some list =>
    obtain ⟨htrimmed, hvalid⟩ := of_latestList? hpath
    simp only [ColorStyle.palette, hpath, htrimmed]
    split
    · exact h
    · cases hfields : Text.fieldsOf '/' list with
      | nil => exact absurd (List.map_eq_nil_iff.mp hfields) (Text.fields_ne_nil _ _)
      | cons field more => exact hvalid field (hfields ▸ List.mem_cons_self)

end Palette

/-- Where the standard colors are colors, all that a schedule from the notation draws with are, as
they come from the last list of each target that counts. -/
theorem isValid_colors_of_ofText {text : String} {config : ChartConfig} {scale : Option Scale}
    {s : Schedule} (hcolors : ∀ c ∈ config.defaultColors.slots, Color.isValid c = true)
    (hpath : Color.isValid config.defaultPathColor = true)
    (h : Schedule.ofText .plain text config scale = .ok s) :
    (∀ i ∈ s.items, ∀ c ∈ i.colors.slots, Color.isValid c = true) ∧
    (∀ p ∈ s.paths, Color.isValid p.color = true) ∧
    (∀ i ∈ s.items, i.colors = ((styleOf (linesOf text)).palette config).colorsOf i) ∧
    ∀ p ∈ s.paths, p.color = ((styleOf (linesOf text)).palette config).path := by
  obtain ⟨d, t, table, hrel, hresolves, rfl⟩ := Schedule.resolvesTo_of_ofText h
  have hitems := hresolves.colors_eq
  have hpaths := hresolves.color_eq
  rw [hrel.colors, colors_document] at hitems hpaths
  rw [Schedule.items_withScale, Schedule.paths_withScale]
  refine ⟨fun i hi => ?_, fun p hp => ?_, hitems, hpaths⟩
  · rw [hitems i hi]
    exact isValid_items_palette _ hcolors i
  · rw [hpaths p hp]
    exact isValid_path_palette _ hpath

/-- Colors for a task and for a milestone at its end. -/
def motley : String :=
  "tasks are colored  #00fF7f/navy \nmilestone is colored blue/ red\npaths are colored teal\n" ++
    "project lasts 2020/4/1 to 2020/4/30\ntoday is 2020/4/10\n" ++
    "build\n  >2020/4/2\n  <2020/4/6\n!fair\n  !build's end\n"

/-- What the lines of `motley` behind the first three describe under some colors. -/
def motleyDocument (colors : ColorStyle) : Document :=
  ((Draft.empty.withSettings .empty colors).feedAll ((Text.lines motley).drop 3)).document

set_option maxRecDepth 2000 in
theorem isOk_motleyDocument (task path : String) :
    (Schedule.ofValue (motleyDocument ⟨some task, none, some path⟩).toValue .standard none).isOk =
      true := by
  have hread : (Coercion.coerce .standard (motleyDocument ⟨some task, none, some path⟩).toValue >>=
      Document.read) = .ok (motleyDocument ⟨some task, none, some path⟩) := by cbv
  have hresolve (colors : ColorStyle) :
      ((motleyDocument colors).resolve .standard).isOk = true := by cbv
  exact Schedule.isOk_ofValue hread (hresolve _)

theorem document_motley :
    document motley =
      motleyDocument ⟨some (Text.trimmed " #00fF7f/navy "), none, some (Text.trimmed "teal")⟩ := by
  have hlines : (Text.lines motley).take 3 = ["tasks are colored  #00fF7f/navy ",
      "milestone is colored blue/ red", "paths are colored teal"] := by decide +kernel
  have htask : Line.read? "tasks are colored  #00fF7f/navy " =
      some (.color .task " #00fF7f/navy ") := by decide +kernel
  have hmilestone : Line.read? "milestone is colored blue/ red" =
      some (.color .milestone "blue/ red") := by decide +kernel
  have hpaths : Line.read? "paths are colored teal" = some (.color .path "teal") := by
    decide +kernel
  have hnavy : (Text.fieldsOf '/' (Text.trimmed " #00fF7f/navy ")).all Color.isValid = true := by
    decide +kernel
  have hred : (Text.fieldsOf '/' (Text.trimmed "blue/ red")).all Color.isValid = false := by
    decide +kernel
  have hteal : (Text.fieldsOf '/' (Text.trimmed "teal")).all Color.isValid = true := by
    decide +kernel
  rw [document, ← List.take_append_drop 3 (Text.lines motley), Draft.feedAll, List.foldl_append,
    hlines]
  simp only [List.foldl_cons, List.foldl_nil, Draft.feed_color htask, Draft.feed_color hmilestone,
    Draft.feed_color hpaths, Line.onColors, hnavy, hred, hteal, if_true, Bool.false_eq_true,
    if_false]
  rfl

theorem motley_colors_valid :
    (∀ c ∈ ChartConfig.standard.defaultColors.slots, Color.isValid c = true) ∧
    Color.isValid ChartConfig.standard.defaultPathColor = true ∧
    ∃ s, Schedule.ofText .plain motley .standard none = .ok s ∧
      (∀ i ∈ s.items, ∀ c ∈ i.colors.slots, Color.isValid c = true) ∧
      (∀ p ∈ s.paths, Color.isValid p.color = true) ∧
      (∀ i ∈ s.items, i.colors = ((styleOf (linesOf motley)).palette .standard).colorsOf i) ∧
      ∀ p ∈ s.paths, p.color = ((styleOf (linesOf motley)).palette .standard).path := by
  have hcolors : ∀ c ∈ ChartConfig.standard.defaultColors.slots, Color.isValid c = true := by
    decide +kernel
  have hpath : Color.isValid ChartConfig.standard.defaultPathColor = true := by decide +kernel
  have hok : (Schedule.ofText .plain motley .standard none).isOk = true := by
    rw [ofText_eq_ofValue, document_motley]
    exact isOk_motleyDocument _ _
  obtain ⟨s, hs⟩ := Outcome.exists_of_isOk hok
  exact ⟨hcolors, hpath, s, hs, isValid_colors_of_ofText hcolors hpath hs⟩

end Notation

end GanttChart
