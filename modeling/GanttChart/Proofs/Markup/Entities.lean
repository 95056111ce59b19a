import GanttChart.Markup
import Mathlib.Data.List.Basic

/-! # Entities

Reading a text with its five entities is the inverse of escaping. The replacements that make up
escaping do not meddle with each other, for only the first of them looks for ampersands. -/

namespace GanttChart.Markup

/-- The names between the ampersand and the semicolon. -/
def entityNames : List (List Char × Char) :=
  [(['a', 'm', 'p'], '&'), (['l', 't'], '<'), (['g', 't'], '>'), (['q', 'u', 'o', 't'], '"'),
   (['a', 'p', 'o', 's'], '\x27')]

/-- Characters with entities read as what they stand for, while the name of an entity that is open
is held. An ampersand that begins no entity is a fault. -/
def unescapeFrom : Option (List Char) → List Char → Option (List Char)
  | none, [] => some []
  | some _, [] => none
  | none, c :: cs =>
    if c = '&' then unescapeFrom (some []) cs else (unescapeFrom none cs).map (c :: ·)
  | some name, c :: cs =>
    if c = ';' then
      match entityNames.lookup name with
      | some x => (unescapeFrom none cs).map (x :: ·)
      | none => none
    else unescapeFrom (some (name ++ [c])) cs

def unescape? (raw : String) : Option String := (unescapeFrom none raw.toList).map String.ofList

/-! ## Escaping -/

def isSpecial (c : Char) : Bool := (entities.map Prod.fst).contains c

/-- What is written for one character. -/
def escapeChar (c : Char) : List Char := entities.foldl replace [c]

theorem foldl_replace_eq_flatMap (es : List (Char × String)) (cs : List Char) :
    es.foldl replace cs = cs.flatMap fun c => es.foldl replace [c] := by
  induction es generalizing cs with
  | nil => simp
  | cons e es ih =>
    rw [List.foldl_cons, ih, replace, List.flatMap_assoc]
    congr 1
    funext c
    rw [List.foldl_cons, ih]
    simp [replace]

theorem toList_escape (s : String) : (escape s).toList = s.toList.flatMap escapeChar := by
  rw [escape, String.toList_ofList, foldl_replace_eq_flatMap]
  rfl

theorem escapeChar_of_not_special {c : Char} (h : isSpecial c = false) : escapeChar c = [c] := by
  have hkept : ∀ e ∈ entities, replace [c] e = [c] := by
    intro e he
    have hne : c ≠ e.1 := by
      rintro rfl
      rw [isSpecial, List.contains_iff_mem.mpr (List.mem_map_of_mem he)] at h
      cases h
    simp [replace, hne]
  unfold escapeChar
  generalize entities = es at hkept
  induction es with
  | nil => rfl
  | cons e es ih =>
    rw [List.foldl_cons, hkept e List.mem_cons_self]
    exact ih fun e he => hkept e (List.mem_cons_of_mem _ he)

theorem eq_of_isSpecial {c : Char} (h : isSpecial c = true) :
    c = '&' ∨ c = '<' ∨ c = '>' ∨ c = '"' ∨ c = '\x27' := by
  simpa [isSpecial, entities] using h

/-- No character is written as something that would end the text or the attribute around it. -/
theorem not_mem_escapeChar (c : Char) : '<' ∉ escapeChar c ∧ '"' ∉ escapeChar c := by
  cases h : isSpecial c with
  | true =>
    rcases eq_of_isSpecial h with rfl | rfl | rfl | rfl | rfl <;> decide
  | false =>
    rw [escapeChar_of_not_special h]
    constructor
    · rintro (_ | ⟨_, ⟨⟩⟩)
      cases h
    · rintro (_ | ⟨_, ⟨⟩⟩)
      cases h

theorem unescapeFrom_escapeChar (c : Char) (cs : List Char) :
    unescapeFrom none (escapeChar c ++ cs) = (unescapeFrom none cs).map (c :: ·) := by
  cases h : isSpecial c with
  | true =>
    rcases eq_of_isSpecial h with rfl | rfl | rfl | rfl | rfl <;> rfl
  | false =>
    have hne : c ≠ '&' := by
      rintro rfl
      cases h
    rw [escapeChar_of_not_special h]
    simp [unescapeFrom, hne]

theorem unescape?_escape (s : String) : unescape? (escape s) = some s := by
  have hread (cs : List Char) : unescapeFrom none (cs.flatMap escapeChar) = some cs := by
    induction cs with
    | nil => rfl
    | cons c cs ih => rw [List.flatMap_cons, unescapeFrom_escapeChar, ih, Option.map_some]
  rw [unescape?, toList_escape, hread, Option.map_some, String.ofList_toList]

theorem not_mem_escape (s : String) : '<' ∉ (escape s).toList ∧ '"' ∉ (escape s).toList := by
  rw [toList_escape]
  simp only [List.mem_flatMap, not_exists, not_and]
  exact ⟨fun c _ => (not_mem_escapeChar c).1, fun c _ => (not_mem_escapeChar c).2⟩

/-! ## Plain texts -/

/-- No character of the text means anything to markup. -/
def isPlain (s : String) : Bool := s.toList.all fun c => !isSpecial c

theorem isPlain_append {s t : String} : isPlain (s ++ t) = (isPlain s && isPlain t) := by
  simp [isPlain]

theorem isPlain_intercalate {sep : String} {parts : List String} (hsep : isPlain sep = true)
    (h : ∀ s ∈ parts, isPlain s = true) : isPlain (String.intercalate sep parts) = true := by
  induction parts with
  | nil => rfl
  | cons s rest ih =>
    have hrest := ih fun t ht => h t (List.mem_cons_of_mem _ ht)
    cases rest with
    | nil =>
      rw [String.intercalate_singleton]
      exact h s List.mem_cons_self
    | cons t rest =>
      rw [String.intercalate_cons_cons, isPlain_append, isPlain_append, h s List.mem_cons_self,
        hsep, hrest]
      rfl

theorem escape_of_isPlain {s : String} (h : isPlain s = true) : escape s = s := by
  have hkept (cs : List Char) (hcs : ∀ c ∈ cs, isSpecial c = false) :
      cs.flatMap escapeChar = cs := by
    induction cs with
    | nil => rfl
    | cons c cs ih =>
      rw [List.flatMap_cons, escapeChar_of_not_special (hcs c List.mem_cons_self),
        ih fun x hx => hcs x (List.mem_cons_of_mem _ hx), List.singleton_append]
  rw [← String.toList_inj, toList_escape]
  exact hkept _ (by simpa [isPlain] using h)

end GanttChart.Markup
