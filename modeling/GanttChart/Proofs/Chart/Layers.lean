import GanttChart.Chart.ErrorText
import GanttChart.Proofs.Chart.Rows

/-! # Layers

Whatever draws a chart puts its elements on layers of its own, of which that of today is the
highest and that of error messages higher still. So the line of today ends the sorted elements, and
messages can be added behind it without sorting again. -/

namespace GanttChart

/-! ## Lines of a message -/

namespace Text

/-- The lines of a text by its line feeds: each of them ends a line, and what follows the last one
is a line as well, unless nothing does. -/
def lineCount (s : String) : ℕ :=
  s.toList.count '\n' + if s.toList.getLast?.all (· == '\n') then 0 else 1

theorem length_linesFrom {held cs : List Char} (hheld : '\n' ∉ held) :
    (linesFrom held cs).length =
      cs.count '\n' + if (held.reverse ++ cs).getLast?.all (· == '\n') then 0 else 1 := by
  induction cs generalizing held with
  | nil =>
    cases held with
    | nil => rfl
    | cons c held =>
      have hc : c ≠ '\n' := fun hc => hheld (hc ▸ List.mem_cons_self)
      simp [linesFrom, hc]
  | cons c cs ih =>
    by_cases hc : c = '\n'
    · subst hc
      rw [linesFrom_newline, List.length_cons, ih List.not_mem_nil, List.count_cons_self]
      -- the line feed is the last character just if nothing follows it
      cases cs with
      | nil => simp
      | cons c cs =>
        have hlast : (held.reverse ++ '\n' :: c :: cs).getLast? = (c :: cs).getLast? := by
          rw [List.getLast?_append_of_ne_nil _ (List.cons_ne_nil _ _), List.getLast?_cons_cons]
        rw [hlast]
        exact Nat.add_right_comm _ _ _
    · have hheld' : '\n' ∉ c :: held := by simp [hheld, Ne.symm hc]
      rw [linesFrom, if_neg hc, ih hheld', List.count_cons_of_ne hc, List.reverse_cons,
        List.append_assoc, List.singleton_append]

theorem length_lines (s : String) : (lines s).length = lineCount s := by
  rw [lines, List.length_map, length_linesFrom List.not_mem_nil]
  rfl

end Text

namespace Drawing

variable {d : Drawing} {message : String} {messages : List String}

/-- No element is followed by one of a lower layer. -/
def Layered (elements : List Element) : Prop := elements.Pairwise fun a b => a.layer ≤ b.layer

/-- What a message adds to a drawing: a text for each of its lines, one at least, above all
layers of a chart. -/
structure IsMessage (message : String) (added : List Element) : Prop where
  length : added.length = max 1 (Text.lineCount message)
  text : ∀ e ∈ added, ∃ origin content style, e = ⟨Layer.error, .text origin content style⟩

theorem length_errorLines (message : String) :
    (errorLines message).length = max 1 (Text.lineCount message) := by
  rw [← Text.length_lines, errorLines]
  split
  · rename_i hnone
    simp [hnone]
  · rename_i hsome
    exact (Nat.max_eq_right (List.length_pos_iff.mpr hsome)).symm

theorem exists_elements_appendError (d : Drawing) (message : String) :
    ∃ added, (d.appendError message).elements = d.elements ++ added ∧ IsMessage message added := by
  refine ⟨_, rfl, ?_, ?_⟩
  · rw [List.length_map, List.length_zipIdx, length_errorLines]
  · intro e he
    obtain ⟨line, _, rfl⟩ := List.mem_map.mp he
    exact ⟨_, _, _, rfl⟩

/-- Every message adds its texts to the elements that are there. -/
theorem exists_elements_foldl (d : Drawing) (messages : List String) :
    ∃ added, (messages.foldl appendError d).elements = d.elements ++ added.flatten ∧
      List.Forall₂ IsMessage messages added := by
  induction messages generalizing d with
  | nil => exact ⟨[], (List.append_nil _).symm, .nil⟩
  | cons message rest ih =>
    obtain ⟨lines, hlines, hmessage⟩ := d.exists_elements_appendError message
    obtain ⟨added, helements, hrest⟩ := ih (d.appendError message)
    refine ⟨lines :: added, ?_, .cons hmessage hrest⟩
    rw [List.foldl_cons, helements, hlines, List.flatten_cons, List.append_assoc]

theorem layer_of_messages {added : List (List Element)}
    (h : List.Forall₂ IsMessage messages added) : ∀ e ∈ added.flatten, e.layer = Layer.error := by
  induction h with
  | nil => simp
  | cons hmessage _ ih =>
    intro e he
    rcases List.mem_append.mp he with he | he
    · obtain ⟨_, _, _, rfl⟩ := hmessage.text e he
      rfl
    · exact ih e he

/-- An element alone on a layer that no element is above ends the elements. -/
theorem Layered.eq_concat {elements : List Element} {top : Element} (h : Layered elements)
    (hle : ∀ e ∈ elements, e.layer ≤ top.layer)
    (hone : (elements.filter fun e => e.layer == top.layer) = [top]) :
    ∃ below, elements = below ++ [top] ∧ ∀ e ∈ below, e.layer < top.layer := by
  have htop : top ∈ elements := List.mem_of_mem_filter (hone ▸ List.mem_singleton_self top)
  obtain ⟨below, last, rfl⟩ :=
    (List.eq_nil_or_concat' elements).resolve_left (List.ne_nil_of_mem htop)
  obtain ⟨_, _, hlast⟩ := List.pairwise_append.mp h
  have hlayer : last.layer = top.layer := by
    refine Int.le_antisymm (hle last (by simp)) ?_
    rcases List.mem_append.mp htop with hbelow | htop
    · exact hlast top hbelow last (List.mem_singleton_self last)
    · exact (List.mem_singleton.mp htop ▸ Int.le_refl _)
  rw [List.filter_append, List.filter_singleton, hlayer, beq_self_eq_true, cond_true] at hone
  obtain ⟨hnone, heq⟩ := List.append_inj' (hone.trans (List.nil_append [top]).symm) rfl
  refine ⟨below, by rw [heq], fun e he => ?_⟩
  have hne := List.filter_eq_nil_iff.mp hnone e he
  rw [beq_iff_eq] at hne
  exact lt_of_le_of_ne (hle e (List.mem_append_left _ he)) hne

/-- Elements on the layer of messages may follow whatever is not above it. -/
theorem Layered.append {elements added : List Element} (h : Layered elements)
    (hbelow : ∀ e ∈ elements, e.layer ≤ Layer.error) (hadded : ∀ e ∈ added, e.layer = Layer.error) :
    Layered (elements ++ added) := by
  refine List.pairwise_append.mpr
    ⟨h, ?_, fun a ha b hb => (hbelow a ha).trans_eq (hadded b hb).symm⟩
  exact List.pairwise_of_forall_mem_list fun a ha b hb =>
    ((hadded a ha).trans (hadded b hb).symm).le

end Drawing

namespace Schedule

variable {s : Schedule} {chart : ChartConfig} {sheet : Sheet} {layer : Int} {e : Element}

/-! ## The elements of a chart -/

/-- On the layers of the calendar there is nothing else. -/
theorem inLayer_calendar (hl : layer ∈ [Layer.closed, Layer.grid, Layer.frame, Layer.today]) :
    (s.drawing chart).inLayer layer =
      (Sheet.calendarMarks ⟨chart, .ofSchedule chart s⟩ s.calendar).filter fun e =>
        e.layer == layer := by
  have hrow : layer ∉ [Layer.body, Layer.overlay] := by
    simp only [List.mem_cons, List.not_mem_nil, or_false] at hl
    rcases hl with rfl | rfl | rfl | rfl <;> decide
  have hpath : layer ∉ [Layer.path] := by
    simp only [List.mem_cons, List.not_mem_nil, or_false] at hl
    rcases hl with rfl | rfl | rfl | rfl <;> decide
  rw [inLayer_drawing, marks, List.filter_append, List.filter_append,
    filter_layer_eq_nil layer_of_rows hrow, filter_layer_eq_nil layer_of_arrows hpath,
    List.append_nil, List.append_nil]

/-- Of all that is drawn, only the line of today is on its layer. -/
theorem inLayer_today : (s.drawing chart).inLayer Layer.today =
    [Sheet.todayMark ⟨chart, .ofSchedule chart s⟩ s.calendar] := by
  rw [inLayer_calendar (by simp), Sheet.calendarMarks, List.filter_append, List.filter_append,
    List.filter_append, filter_layer_eq_nil Sheet.layer_of_columnMarks (by decide),
    filter_layer_eq_nil Sheet.layer_of_closedMarks (by decide),
    filter_layer_eq_nil Sheet.layer_of_frame (by decide)]
  rfl

theorem layer_le_today (he : e ∈ s.marks sheet) : e.layer ≤ Layer.today := by
  have hlayers : e.layer ∈ [Layer.closed, Layer.grid, Layer.frame, Layer.today] ++
      [Layer.body, Layer.overlay] ++ [Layer.path] := by
    rw [marks, List.mem_append, List.mem_append] at he
    rw [List.mem_append, List.mem_append]
    exact he.imp (.imp Sheet.layer_of_calendarMarks (layer_of_rows e)) (layer_of_arrows e)
  revert hlayers
  generalize e.layer = layer
  revert layer
  decide

/-- The elements of a chart are what has been drawn, by layer and as it was drawn within each layer;
the last one is the line of today, the only one on its layer. Messages that are added later, however
many, leave all of that in front of them, and the layers in their order. -/
theorem drawing_layers (s : Schedule) (chart : ChartConfig) :
    (s.drawing chart).elements.Perm (s.marks ⟨chart, .ofSchedule chart s⟩) ∧
    (∀ layer, (s.drawing chart).inLayer layer =
      (s.marks ⟨chart, .ofSchedule chart s⟩).filter fun e => e.layer == layer) ∧
    Drawing.Layered (s.drawing chart).elements ∧
    (∃ below, (s.drawing chart).elements =
        below ++ [Sheet.todayMark ⟨chart, .ofSchedule chart s⟩ s.calendar] ∧
      ∀ e ∈ below, e.layer < Layer.today) ∧
    ∀ messages, ∃ added,
      (messages.foldl Drawing.appendError (s.drawing chart)).elements =
        (s.drawing chart).elements ++ added.flatten ∧
      List.Forall₂ Drawing.IsMessage messages added ∧
      Drawing.Layered (messages.foldl Drawing.appendError (s.drawing chart)).elements := by
  have hperm : (s.drawing chart).elements.Perm (s.marks ⟨chart, .ofSchedule chart s⟩) :=
    Drawing.elements_sorted_perm _
  have hlayered : Drawing.Layered (s.drawing chart).elements := Drawing.pairwise_sorted _
  have hle : ∀ e ∈ (s.drawing chart).elements, e.layer ≤ Layer.today := fun e he =>
    layer_le_today (hperm.mem_iff.mp he)
  refine ⟨hperm, fun layer => inLayer_drawing, hlayered, hlayered.eq_concat hle inLayer_today,
    fun messages => ?_⟩
  obtain ⟨added, helements, hmessages⟩ := (s.drawing chart).exists_elements_foldl messages
  refine ⟨added, helements, hmessages, ?_⟩
  rw [helements]
  refine hlayered.append (fun e he => ?_) (Drawing.layer_of_messages hmessages)
  exact (hle e he).trans (by decide)

end Schedule

end GanttChart
