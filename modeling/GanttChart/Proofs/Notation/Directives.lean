import GanttChart.Proofs.Notation.Reading

/-! # Directives among the other lines

Directives set the project and the colors, and all other lines are about groups and items. Neither
kind reads what the other one writes. So a document depends on the directives in their order and on
the other lines in theirs, and not on how the two are mixed, even within a block. -/

namespace GanttChart.Notation

/-- Whether a line is about the whole chart: a comment, or one that sets the project or colors. -/
def Line.isDirective : Line → Bool
  | comment | period _ _ | closed _ | today _ | scale _ | color _ _ => true
  | group _ | task _ _ | milestone _ _ | detail _ => false

/-- Whether a text is taken as a directive. A text that no form takes is not. -/
def isDirective (line : String) : Bool := (Line.read? line).any Line.isDirective

/-! ## What directives set -/

/-- The project after a line, of which only directives say anything. -/
def Line.onProject : Line → ProjectSection → ProjectSection
  | period start finish, p =>
    if (Day.read? start).isSome && (Day.read? finish).isSome then
      { p with start := some (Text.trimmed start), finish := some (Text.trimmed finish) }
    else p
  | closed entry, p => { p with closed := p.closed ++ closedEntries entry }
  | today day, p =>
    if (Day.read? day).isSome then { p with today := some (Text.trimmed day) } else p
  | scale word, p =>
    match Scale.ofText? word with
    | some s => { p with scale := some s }
    | none => p
  | _, p => p

/-- The colors with another list for one target. -/
def setTarget (target : Target) (list : String) (colors : ColorStyle) : ColorStyle :=
  match target with
  | .task => { colors with task := some list }
  | .milestone => { colors with milestone := some list }
  | .path => { colors with path := some list }

/-- The colors after a line, of which only color lines say anything. -/
def Line.onColors : Line → ColorStyle → ColorStyle
  | color target list, colors =>
    if (Text.fieldsOf '/' (Text.trimmed list)).all Color.isValid then
      setTarget target (Text.trimmed list) colors
    else colors
  | _, colors => colors

namespace Draft

variable {d : Draft} {l m : Line} {project : ProjectSection} {colors : ColorStyle}

/-- A directive makes new settings of the old ones and leaves all else as it was. -/
theorem takeLine_of_isDirective (h : l.isDirective = true) (d : Draft) :
    d.takeLine l =
      d.withSettings (l.onProject d.document.project) (l.onColors d.document.colors) := by
  cases l with
  | comment => rfl
  | closed entry => rfl
  | period start finish =>
    simp only [takeLine, setPeriod, Line.onProject, Line.onColors]
    cases (Day.read? start).isSome && (Day.read? finish).isSome <;> rfl
  | today day =>
    simp only [takeLine, setToday, Line.onProject, Line.onColors]
    cases (Day.read? day).isSome <;> rfl
  | scale word =>
    simp only [takeLine, setScale, Line.onProject, Line.onColors]
    cases Scale.ofText? word <;> rfl
  | color target list =>
    simp only [takeLine, setColors, Line.onProject, Line.onColors]
    cases (Text.fieldsOf '/' (Text.trimmed list)).all Color.isValid with
    | true => cases target <;> rfl
    | false => rfl
  | _ => cases h

/-! ## What the other lines leave alone -/

theorem applyAttribute_withSettings (d : Draft) (a : Attribute) :
    (d.withSettings project colors).applyAttribute a =
      (d.applyAttribute a).withSettings project colors := by
  obtain ⟨document, group, active⟩ := d
  rcases active with _ | _ | _ | _ | _ <;> rfl

theorem settle_withSettings (d : Draft) :
    (d.withSettings project colors).settle = d.settle.withSettings project colors := by
  obtain ⟨document, group, active⟩ := d
  rcases active with _ | t | m | _ | _
  · rfl
  · simp only [settle, withSettings]
    split <;> rfl
  · simp only [settle, withSettings]
    split <;> rfl
  · rfl
  · rfl

/-- What is no directive does the same whatever the settings are, and keeps them. -/
theorem takeLine_withSettings (h : l.isDirective = false) (d : Draft) :
    (d.withSettings project colors).takeLine l = (d.takeLine l).withSettings project colors := by
  cases l with
  | group line => rfl
  | task name text => rfl
  | milestone name text => rfl
  | detail body =>
    simp only [takeLine]
    cases Attribute.read? body.toList with
    | none => rfl
    | some a => simp only [applyAttribute_withSettings, settle_withSettings]
  | _ => cases h

theorem settings_takeLine (h : l.isDirective = false) (d : Draft) :
    (d.takeLine l).document.project = d.document.project ∧
      (d.takeLine l).document.colors = d.document.colors := by
  have hkept : d.takeLine l =
      (d.takeLine l).withSettings d.document.project d.document.colors :=
    takeLine_withSettings h d
  rw [hkept]
  exact ⟨rfl, rfl⟩

/-- Every line makes of the colors what it makes of them by itself. -/
theorem colors_takeLine (d : Draft) (l : Line) :
    (d.takeLine l).document.colors = l.onColors d.document.colors := by
  cases h : l.isDirective with
  | true => rw [takeLine_of_isDirective h]; rfl
  | false =>
    rw [(settings_takeLine h d).2]
    cases l with
    | color target list => cases h
    | _ => rfl

/-! ## Lines in another order -/

theorem takeLine_comm (hl : l.isDirective = true) (hm : m.isDirective = false) (d : Draft) :
    (d.takeLine l).takeLine m = (d.takeLine m).takeLine l := by
  obtain ⟨hproject, hcolors⟩ := settings_takeLine hm d
  rw [takeLine_of_isDirective hl, takeLine_of_isDirective hl, takeLine_withSettings hm, hproject,
    hcolors]

theorem feed_comm {line other : String} (hline : isDirective line = true)
    (hother : isDirective other = false) (d : Draft) :
    (d.feed line).feed other = (d.feed other).feed line := by
  unfold isDirective at hline hother
  unfold feed
  cases hl : Line.read? line with
  | none => rfl
  | some l =>
    rw [hl] at hline
    cases hm : Line.read? other with
    | none => rfl
    | some m =>
      rw [hm] at hother
      exact takeLine_comm hline hother d

end Draft

section Interleaving

variable {σ α : Type} {step : σ → α → σ} {p : α → Bool}

theorem foldl_step_of_comm {a : α} {as : List α}
    (h : ∀ s, ∀ b ∈ as, step (step s a) b = step (step s b) a) (s : σ) :
    as.foldl step (step s a) = step (as.foldl step s) a := by
  induction as generalizing s with
  | nil => rfl
  | cons b as ih =>
    rw [List.foldl_cons, List.foldl_cons, h s b List.mem_cons_self]
    exact ih (fun s c hc => h s c (List.mem_cons_of_mem b hc)) (step s b)

/-- Where steps of two kinds commute, all of the one kind may be made before those of the other. -/
theorem foldl_eq_foldl_filter
    (h : ∀ s a b, p a = true → p b = false → step (step s a) b = step (step s b) a)
    (as : List α) (s : σ) :
    as.foldl step s = (as.filter (!p ·)).foldl step ((as.filter p).foldl step s) := by
  induction as generalizing s with
  | nil => rfl
  | cons a as ih =>
    rw [List.foldl_cons, ih]
    cases ha : p a with
    | true => simp [ha]
    | false =>
      -- the step that is first in its kind moves behind all steps of the other kind
      have hcomm : ∀ s, ∀ b ∈ as.filter p, step (step s a) b = step (step s b) a :=
        fun s b hb => (h s b a (List.mem_filter.mp hb).2 ha).symm
      simp [ha, foldl_step_of_comm hcomm]

end Interleaving

namespace Draft

/-- Directives may stand anywhere among the other lines, as long as both keep their order: whatever
was read before, the same becomes of it, and texts of such lines describe the same document. -/
theorem feedAll_eq_of_interleaved {lines lines' : List String}
    (hdirectives : lines.filter isDirective = lines'.filter isDirective)
    (hothers : lines.filter (!isDirective ·) = lines'.filter (!isDirective ·)) :
    (∀ d : Draft, d.feedAll lines = d.feedAll lines') ∧
      ∀ text text', Text.lines text = lines → Text.lines text' = lines' →
        Notation.document text = Notation.document text' := by
  have hcomm : ∀ (d : Draft) (line other : String), isDirective line = true →
      isDirective other = false → (d.feed line).feed other = (d.feed other).feed line :=
    fun d _ _ hline hother => feed_comm hline hother d
  have hfeed (d : Draft) : d.feedAll lines = d.feedAll lines' := by
    rw [feedAll, feedAll, foldl_eq_foldl_filter hcomm lines, foldl_eq_foldl_filter hcomm lines',
      hdirectives, hothers]
  refine ⟨hfeed, fun text text' htext htext' => ?_⟩
  rw [Notation.document, Notation.document, htext, htext', hfeed]

/-- Directives between an item and the attributes that make it ready. -/
def scattered : List String :=
  ["paint", "scale is weekly", "  >2020/4/2", "sat is closed", "-- walls --",
    "tasks are colored red", "sun is closed", "  <2020/4/7", "today is 2020/4/3"]

/-- The same lines with the directives first. -/
def gathered : List String :=
  ["scale is weekly", "sat is closed", "tasks are colored red", "sun is closed",
    "today is 2020/4/3", "paint", "  >2020/4/2", "-- walls --", "  <2020/4/7"]

theorem scattered_eq_gathered :
    scattered.filter isDirective = gathered.filter isDirective ∧
      scattered.filter (!isDirective ·) = gathered.filter (!isDirective ·) ∧
      (∀ d : Draft, d.feedAll scattered = d.feedAll gathered) ∧
      ∀ text text', Text.lines text = scattered → Text.lines text' = gathered →
        Notation.document text = Notation.document text' := by
  have hdirectives : scattered.filter isDirective = gathered.filter isDirective := by
    decide +kernel
  have hothers : scattered.filter (!isDirective ·) = gathered.filter (!isDirective ·) := by
    decide +kernel
  exact ⟨hdirectives, hothers, feedAll_eq_of_interleaved hdirectives hothers⟩

end Draft

end GanttChart.Notation
