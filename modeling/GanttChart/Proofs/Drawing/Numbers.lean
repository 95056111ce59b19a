import GanttChart.Number.Decimal
import GanttChart.Proofs.Markup.Entities

/-! # Numbers in drawings

Numbers are written without any character that means something to markup, so they need no
escaping. -/

namespace GanttChart.Number

open Markup

theorem not_special_of_isDigit {c : Char} (h : c.isDigit = true) : isSpecial c = false := by
  cases hs : isSpecial c with
  | false => rfl
  | true => rcases eq_of_isSpecial hs with rfl | rfl | rfl | rfl | rfl <;> cases h

theorem not_special_of_mem_toDigits {c : Char} {n : Nat} (h : c ∈ Nat.toDigits 10 n) :
    isSpecial c = false :=
  not_special_of_isDigit (Nat.isDigit_of_mem_toDigits (by decide) (by decide) h)

theorem not_special_of_mem_zeros {c : Char} {n : Nat} (h : c ∈ zeros n) : isSpecial c = false := by
  rw [List.eq_of_mem_replicate h]
  rfl

theorem not_special_of_mem_positional {c : Char} {d : Decimal} (h : c ∈ d.positional false) :
    isSpecial c = false := by
  simp only [Decimal.positional] at h
  split at h
  · simp only [Bool.false_eq_true, if_false, List.append_nil, List.mem_append] at h
    rcases h with h | h
    · exact not_special_of_mem_toDigits h
    · exact not_special_of_mem_zeros h
  · split at h
    · rcases List.mem_append.mp h with h | h
      · exact not_special_of_mem_toDigits (List.mem_of_mem_take h)
      rcases List.mem_cons.mp h with rfl | h
      · rfl
      · exact not_special_of_mem_toDigits (List.mem_of_mem_drop h)
    · simp only [List.mem_cons, List.mem_append] at h
      rcases h with rfl | rfl | h | h
      · rfl
      · rfl
      · exact not_special_of_mem_zeros h
      · exact not_special_of_mem_toDigits h

theorem isPlain_plainText (x : Float) : isPlain (plainText x) = true := by
  simp only [plainText, Style.text]
  split
  · rename_i b _
    have hsign : ∀ c ∈ if b.negative then ['-'] else [], isSpecial c = false := by
      intro c hc
      split at hc
      · rw [List.mem_singleton.mp hc]
        rfl
      · cases hc
    have hmagnitude : ∀ c ∈ Style.plain.magnitude b, isSpecial c = false := by
      intro c hc
      simp only [Style.magnitude, Style.plain] at hc
      split at hc
      · rw [List.mem_singleton.mp hc]
        rfl
      · exact not_special_of_mem_positional hc
    simp only [isPlain, String.toList_ofList, List.all_append, Bool.and_eq_true, List.all_eq_true,
      Bool.not_eq_true']
    exact ⟨hsign, hmagnitude⟩
  · split
    · rfl
    · split <;> rfl

end GanttChart.Number
