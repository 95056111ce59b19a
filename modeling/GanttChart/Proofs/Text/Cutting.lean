import GanttChart.Text.Blank
import GanttChart.Text.Cut
import Mathlib.Data.List.DropRight

/-! # Cut and trimmed texts

A text is cut where the separator first occurs, and not at all if it does not occur. Trimming takes
nothing but blanks away. -/

namespace GanttChart.Text

variable {lead sep cs rest front back : List Char}

theorem after?_eq_some_iff : after? lead cs = some rest ↔ cs = lead ++ rest := by
  fun_induction after? lead cs with
  | case1 cs => simp [eq_comm]
  | case2 => simp
  | case3 a lead cs ih => simpa using ih
  | case4 a lead c cs hne => simp [Ne.symm hne]

theorem after?_eq_none_iff : after? lead cs = none ↔ ¬ lead <+: cs := by
  rw [Option.eq_none_iff_forall_ne_some, List.IsPrefix, not_exists]
  exact forall_congr' fun rest => not_congr (after?_eq_some_iff.trans eq_comm)

theorem before?_eq_some_iff {tail : List Char} :
    before? tail cs = some front ↔ cs = front ++ tail := by
  rw [before?, Option.map_eq_some_iff]
  constructor
  · rintro ⟨rest, hrest, rfl⟩
    rw [← List.reverse_reverse cs, after?_eq_some_iff.mp hrest, List.reverse_append,
      List.reverse_reverse]
  · rintro rfl
    exact ⟨front.reverse, after?_eq_some_iff.mpr List.reverse_append, List.reverse_reverse front⟩

theorem before?_append (tail cs cs' : List Char) :
    before? tail (cs ++ cs') =
      (after? tail.reverse (cs'.reverse ++ cs.reverse)).map List.reverse := by
  rw [before?, List.reverse_append]

/-- The parts of a text around the first place where the separator occurs. -/
structure FirstCut (sep cs front back : List Char) : Prop where
  eq : cs = front ++ sep ++ back
  first : ∀ front' back', cs = front' ++ sep ++ back' → front.length ≤ front'.length

theorem firstCut_of_cut? (h : cut? sep cs = some (front, back)) : FirstCut sep cs front back := by
  refine ⟨eq_append_of_cut? h, ?_⟩
  induction cs generalizing front with
  | nil =>
    simp only [cut?, Option.map_eq_some_iff, Prod.mk.injEq] at h
    obtain ⟨_, _, rfl, _⟩ := h
    simp
  | cons c cs ih =>
    simp only [cut?] at h
    split at h
    · cases h
      simp
    · rename_i hlead
      simp only [Option.map_eq_some_iff, Prod.mk.injEq, Prod.exists] at h
      obtain ⟨f, b, hcut, rfl, rfl⟩ := h
      intro front' back' hsplit
      cases front' with
      | nil =>
        rw [List.nil_append] at hsplit
        exact absurd ⟨_, hsplit.symm⟩ (after?_eq_none_iff.mp hlead)
      | cons c' front' =>
        have htail : cs = front' ++ sep ++ back' := (List.cons.inj hsplit).2
        have := ih hcut front' back' htail
        simpa using this

theorem FirstCut.unique {front' back' : List Char} (h : FirstCut sep cs front back)
    (h' : FirstCut sep cs front' back') : front = front' ∧ back = back' := by
  have hlength : front.length = front'.length :=
    Nat.le_antisymm (h.first _ _ h'.eq) (h'.first _ _ h.eq)
  have heq := h.eq.symm.trans h'.eq
  rw [List.append_assoc, List.append_assoc] at heq
  obtain ⟨hfront, hback⟩ := List.append_inj heq hlength
  exact ⟨hfront, List.append_cancel_left hback⟩

theorem cut?_eq_none_iff : cut? sep cs = none ↔ ¬ sep <:+: cs := by
  induction cs with
  | nil => rw [cut?, Option.map_eq_none_iff, after?_eq_none_iff, List.prefix_nil, List.infix_nil]
  | cons c cs ih =>
    rw [List.infix_cons_iff, not_or, ← ih, ← after?_eq_none_iff, cut?]
    cases after? sep (c :: cs) <;> simp

theorem cut?_eq_some_iff : cut? sep cs = some (front, back) ↔ FirstCut sep cs front back := by
  refine ⟨firstCut_of_cut?, fun h => ?_⟩
  cases hcut : cut? sep cs with
  | none => exact absurd ⟨front, back, h.eq.symm⟩ (cut?_eq_none_iff.mp hcut)
  | some parts =>
    obtain ⟨hfront, hback⟩ := (firstCut_of_cut? hcut).unique h
    rw [← hfront, ← hback]

/-- What is trimmed off the front is all that is accepted there. -/
theorem trimStartBy_append {p : Char → Bool} (hfront : ∀ c ∈ front, p c = true)
    (hfirst : ∀ c ∈ cs.head?, p c = false) : trimStartBy p (front ++ cs) = cs := by
  rw [trimStartBy, List.dropWhile_append_of_pos hfront]
  cases cs with
  | nil => rfl
  | cons c r => exact trimStartBy_cons_of_neg (hfirst c rfl)

theorem trimEndBy_append {p : Char → Bool} (hback : ∀ c ∈ back, p c = true)
    (hlast : ∀ c ∈ cs.getLast?, p c = false) : trimEndBy p (cs ++ back) = cs := by
  rw [List.getLast?_eq_head?_reverse] at hlast
  have hstart : (back.reverse ++ cs.reverse).dropWhile p = cs.reverse :=
    trimStartBy_append (fun c hc => hback c (List.mem_reverse.mp hc)) hlast
  rw [trimEndBy, List.reverse_append, hstart, List.reverse_reverse]

/-- Blanks around a text that starts and ends with none of them are trimmed off. -/
theorem trim_append (hfront : ∀ c ∈ front, isBlank c = true) (hback : ∀ c ∈ back, isBlank c = true)
    (hfirst : ∃ c ∈ cs.head?, isBlank c = false) (hlast : ∀ c ∈ cs.getLast?, isBlank c = false) :
    trim (front ++ cs ++ back) = cs := by
  obtain ⟨c, hc, hblank⟩ := hfirst
  have hhead : (cs ++ back).head? = some c := by
    rw [List.head?_append, Option.mem_def.mp hc, Option.some_or]
  have hstart : trimStartBy isBlank (front ++ (cs ++ back)) = cs ++ back := by
    refine trimStartBy_append hfront fun d hd => ?_
    rw [Option.mem_def, hhead] at hd
    exact Option.some.inj hd ▸ hblank
  rw [trim, trimBy, List.append_assoc, hstart, trimEndBy_append hback hlast]

theorem exists_eq_trim (cs : List Char) :
    ∃ front back, (∀ c ∈ front, isBlank c = true) ∧ (∀ c ∈ back, isBlank c = true) ∧
      cs = front ++ trim cs ++ back := by
  have hstart : cs.takeWhile isBlank ++ cs.dropWhile isBlank = cs :=
    List.takeWhile_append_dropWhile
  have hend : trim cs ++ (cs.dropWhile isBlank).rtakeWhile isBlank = cs.dropWhile isBlank :=
    List.rdropWhile_append_rtakeWhile
  refine ⟨cs.takeWhile isBlank, (cs.dropWhile isBlank).rtakeWhile isBlank,
    fun _ => List.mem_takeWhile_imp, fun _ => List.mem_rtakeWhile_imp, ?_⟩
  rw [List.append_assoc, hend, hstart]

theorem trim_of_ends (hfirst : ∀ c ∈ cs.head?, isBlank c = false)
    (hlast : ∀ c ∈ cs.getLast?, isBlank c = false) : trim cs = cs := by
  have hstart : trimStartBy isBlank ([] ++ cs) = cs := trimStartBy_append (by simp) hfirst
  have hend : trimEndBy isBlank (cs ++ []) = cs := trimEndBy_append (by simp) hlast
  rw [List.nil_append] at hstart
  rw [List.append_nil] at hend
  rw [trim, trimBy, hstart, hend]

theorem trim_of_forall (h : ∀ c ∈ cs, isBlank c = false) : trim cs = cs :=
  trim_of_ends (fun c hc => h c (List.mem_of_mem_head? hc))
    fun c hc => h c (List.mem_of_getLast? hc)

/-- A trimmed text starts with no blank. -/
theorem trimStart_trim (cs : List Char) : trimStart (trim cs) = trim cs := by
  cases htrim : trim cs with
  | nil => rfl
  | cons c r =>
    -- what is left at the end of trimming started so before the end was trimmed
    have hpre : trim cs <+: cs.dropWhile isBlank := List.rdropWhile_prefix _ _
    rw [htrim] at hpre
    obtain ⟨r', hr⟩ := hpre
    have hhead := List.head?_dropWhile_not isBlank cs
    rw [← hr] at hhead
    exact trimStartBy_cons_of_neg hhead

theorem trim_trim (cs : List Char) : trim (trim cs) = trim cs := by
  have hstart : trimStartBy isBlank (trim cs) = trim cs := trimStart_trim cs
  rw [trim, trimBy, hstart]
  exact trimEndBy_idem isBlank _

end GanttChart.Text
