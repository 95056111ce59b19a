import GanttChart.CommandLine.Options
import Mathlib.Data.List.Chain

/-! # What arguments are read as

A command line is a row of items: options with their values, file names, and dashes for standard
input. Reading goes through the items and lets each one take the place of earlier ones, except for a
file name behind another one, which is refused. A dash takes back the file name before it without a
word, so the last of file names and dashes counts, and a file name is passed over wherever a dash
comes behind it. -/

namespace GanttChart.CommandLine

inductive Item where
  | format (format : Format)
  | config (path : String)
  | scale (scale : Scale)
  | output (path : String)
  /-- What is read: a file, or standard input. -/
  | input (file : Option String)

variable {item : Item} {items : List Item} {o o' : Options} {arguments words rest : List String}
  {name : String}

/-- The arguments that an item is written as. -/
inductive Item.Written : Item → List String → Prop
  | json : Written (.format .json) ["--json"]
  | yaml : Written (.format .yaml) ["--yaml"]
  | config (path : String) : Written (.config path) ["--config", path]
  | scale {text : String} {scale : Scale} (h : Scale.ofText? text = some scale) :
      Written (.scale scale) ["--scale", text]
  | short (path : String) : Written (.output path) ["-o", path]
  | long (path : String) : Written (.output path) ["--output", path]
  | dash : Written (.input none) ["-"]
  | file {name : String} (h : name.startsWith "-" = false) : Written (.input (some name)) [name]

/-- Items and the arguments that they are written as, one after the other. -/
inductive Listed : List Item → List String → Prop
  | nil : Listed [] []
  | cons {item : Item} {words : List String} {items : List Item} {rest : List String}
      (hitem : item.Written words) (hrest : Listed items rest) :
      Listed (item :: items) (words ++ rest)

/-- The file names and dashes among items. -/
def positional (items : List Item) : List (Option String) :=
  items.filterMap fun item =>
    match item with
    | .input file => some file
    | _ => none

/-- What may stand behind each other where files are named: not two file names. -/
def Apart (file next : Option String) : Prop := file = none ∨ next = none

theorem isChain_apart_iff {files : List (Option String)} (h : none ∉ files) :
    files.IsChain Apart ↔ files.length ≤ 1 := by
  match files with
  | [] | [_] => simp
  | none :: _ | some _ :: none :: _ => simp at h
  | some _ :: some _ :: _ => simp [Apart]

namespace Options

def set (o : Options) : Item → Options
  | .format format => { o with format := format }
  | .config path => { o with config := some path }
  | .scale scale => { o with scale := some scale }
  | .output path => { o with output := some path }
  | .input file => { o with input := file }

/-- The options that items set, the later ones instead of the earlier ones. -/
def settings (o : Options) (items : List Item) : Options := items.foldl set o

/-- Whether the item may be read next: the place of a file name has to be open. -/
def Allows (o : Options) : Item → Prop
  | .input file => Apart o.input file
  | _ => True

theorem readFrom_file (h : name.startsWith "-" = false) :
    readFrom o (name :: rest) =
      if o.input.isSome then .error (.extraArgument name)
      else readFrom { o with input := some name } rest := by
  rw [readFrom]
  · simp [h]
  -- the other arguments that are looked for all start with a dash
  all_goals intros; subst_vars; simp at h

theorem readFrom_of_written (h : item.Written words) (ho : o.Allows item) :
    readFrom o (words ++ rest) = readFrom (o.set item) rest := by
  cases h with
  | json | yaml | config | short | long | dash => simp [readFrom, set]
  | scale h => simp [readFrom, set, h]
  | file h =>
    have hopen : o.input = none := by simpa [Allows, Apart] using ho
    simp [readFrom_file h, hopen, set]

/-- Only a second file name is refused, and whatever comes behind it. -/
theorem readFrom_of_not_allows (h : item.Written words) (ho : ¬ o.Allows item) :
    ∃ name, item = .input (some name) ∧
      ∀ rest, readFrom o (words ++ rest) = .error (.extraArgument name) := by
  cases h with
  | json | yaml | config | scale | short | long | dash => simp [Allows, Apart] at ho
  | @file name h =>
    have htaken : o.input.isSome := by
      simpa [Allows, Apart, Option.isSome_iff_ne_none] using ho
    exact ⟨name, rfl, fun rest => by simp [readFrom_file h, htaken]⟩

theorem settings_cons : o.settings (item :: items) = (o.set item).settings items := rfl

/-- The file named so far stands in front of the names to come, so that one condition goes along with
the reading. -/
theorem isChain_cons_iff :
    (o.input :: positional (item :: items)).IsChain Apart ↔
      o.Allows item ∧ ((o.set item).input :: positional items).IsChain Apart := by
  cases item <;> simp [positional, Allows, set]

theorem readFrom_of_listed (h : Listed items words)
    (ho : (o.input :: positional items).IsChain Apart) :
    readFrom o (words ++ rest) = readFrom (o.settings items) rest := by
  induction h generalizing o with
  | nil => rfl
  | cons hitem _ ih =>
    obtain ⟨hallows, hchain⟩ := isChain_cons_iff.mp ho
    rw [List.append_assoc, readFrom_of_written hitem hallows, ih hchain, settings_cons]

theorem readFrom_of_not_isChain (h : Listed items words)
    (ho : ¬ (o.input :: positional items).IsChain Apart) :
    ∃ name, some name ∈ positional items ∧
      ∀ rest, readFrom o (words ++ rest) = .error (.extraArgument name) := by
  induction h generalizing o with
  | nil => simp [positional] at ho
  | @cons item words items tail hitem _ ih =>
    by_cases hallows : o.Allows item
    · have htail : ¬ ((o.set item).input :: positional items).IsChain Apart := fun hchain =>
        ho (isChain_cons_iff.mpr ⟨hallows, hchain⟩)
      obtain ⟨name, hname, hrefused⟩ := ih htail
      refine ⟨name, ?_, fun rest => ?_⟩
      · cases item <;> simp_all [positional]
      · rw [List.append_assoc, readFrom_of_written hitem hallows, hrefused]
    · obtain ⟨name, rfl, hrefused⟩ := readFrom_of_not_allows hitem hallows
      exact ⟨name, by simp [positional], fun rest => by rw [List.append_assoc, hrefused]⟩

/-- The options on the way through the arguments, and the arguments that are still to be read. -/
def Reaches (o : Options) (arguments : List String) (o' : Options) (rest : List String) : Prop :=
  ∃ items words, Listed items words ∧ (o.input :: positional items).IsChain Apart ∧
    arguments = words ++ rest ∧ o' = o.settings items

theorem Reaches.refl : o.Reaches arguments o arguments :=
  ⟨[], [], .nil, by simp [positional], rfl, rfl⟩

theorem Reaches.cons {tail : List String} (hitem : item.Written words) (hallows : o.Allows item)
    (h : (o.set item).Reaches tail o' rest) : o.Reaches (words ++ tail) o' rest := by
  obtain ⟨items, tailWords, hlisted, hchain, rfl, rfl⟩ := h
  exact ⟨item :: items, words ++ tailWords, .cons hitem hlisted,
    isChain_cons_iff.mpr ⟨hallows, hchain⟩, by rw [List.append_assoc], settings_cons.symm⟩

theorem Reaches.readFrom_eq (h : o.Reaches arguments o' rest) :
    readFrom o arguments = readFrom o' rest := by
  obtain ⟨items, words, hlisted, hchain, rfl, rfl⟩ := h
  exact readFrom_of_listed hlisted hchain

/-- How far reading gets that comes to no error: to the end of the arguments, or to a call for
help. -/
def Stops (o : Options) (arguments : List String) : Option Options → Prop
  | some o' => o.Reaches arguments o' []
  | none => ∃ o' help rest, help ∈ ["-h", "--help"] ∧ o.Reaches arguments o' (help :: rest)

theorem Stops.cons {tail : List String} {result : Option Options} (hitem : item.Written words)
    (hallows : o.Allows item) (h : (o.set item).Stops tail result) :
    o.Stops (words ++ tail) result := by
  cases result with
  | some o' => exact Reaches.cons hitem hallows h
  | none =>
    obtain ⟨o', help, rest, hhelp, hreaches⟩ := h
    exact ⟨o', help, rest, hhelp, hreaches.cons hitem hallows⟩

theorem stops_of_readFrom {result : Option Options} (h : readFrom o arguments = .ok result) :
    o.Stops arguments result := by
  fun_induction readFrom o arguments with
  | case1 o =>
    cases h
    exact .refl
  | case2 o rest | case3 o rest =>
    cases h
    exact ⟨o, _, rest, by simp, .refl⟩
  | case4 o rest ih => exact .cons .json trivial (ih h)
  | case5 o rest ih => exact .cons .yaml trivial (ih h)
  | case7 o path rest ih => exact .cons (.config path) trivial (ih h)
  | case9 o text rest scale hscale ih => exact .cons (.scale hscale) trivial (ih h)
  | case13 o path rest ih => exact .cons (.short path) trivial (ih h)
  | case14 o path rest ih => exact .cons (.long path) trivial (ih h)
  | case15 o rest ih => exact .cons .dash (.inr rfl) (ih h)
  | case18 o name rest =>
    rename_i hdash hopen ih
    exact .cons (.file (by simpa using hdash)) (.inl (by simpa using hopen)) (ih h)
  -- an error stops the reading
  | case6 | case8 | case10 | case11 | case12 | case16 | case17 => cases h

theorem readFrom_eq_ok_iff {result : Option Options} :
    readFrom o arguments = .ok result ↔ o.Stops arguments result := by
  refine ⟨stops_of_readFrom, fun h => ?_⟩
  cases result with
  | some o' => rw [Reaches.readFrom_eq h, readFrom]
  | none =>
    obtain ⟨o', help, rest, hhelp, hreaches⟩ := h
    obtain rfl | rfl := List.mem_pair.mp hhelp <;> rw [hreaches.readFrom_eq, readFrom]

theorem settings_input :
    (o.settings items).input = ((o.input :: positional items).getLast?).join := by
  induction items generalizing o with
  | nil => simp [positional, settings]
  | cons item items ih =>
    rw [settings_cons, ih]
    cases item <;> simp [positional, set, List.getLast?_cons]

theorem standard_isChain_iff :
    (standard.input :: positional items).IsChain Apart ↔ (positional items).IsChain Apart := by
  cases h : positional items <;> simp [standard, Apart]

/-- Arguments are accepted when they are items with no file name right behind another one among the
file names and dashes, whatever options stand between. The last of file names and dashes tells what
is read, and with no dash there can only be one. Where a file name comes behind another one, it is
refused together with all that follows. -/
theorem read_last_positional (arguments : List String) :
    (∀ o, read arguments = .ok (some o) ↔
      ∃ items, Listed items arguments ∧ (positional items).IsChain Apart ∧
        o = standard.settings items) ∧
    ∀ items, Listed items arguments →
      (standard.settings items).input = (positional items).getLast?.join ∧
      (none ∉ positional items →
        ((positional items).IsChain Apart ↔ (positional items).length ≤ 1)) ∧
      (¬ (positional items).IsChain Apart → ∃ name, some name ∈ positional items ∧
        ∀ rest, read (arguments ++ rest) = .error (.extraArgument name)) := by
  refine ⟨fun o => ?_, fun items hlisted => ⟨?_, isChain_apart_iff, fun hchain => ?_⟩⟩
  · rw [read, readFrom_eq_ok_iff]
    simp [Stops, Reaches, standard_isChain_iff]
  · rw [settings_input]
    cases h : (positional items).getLast? <;> simp [List.getLast?_cons, h, standard]
  · exact readFrom_of_not_isChain hlisted (standard_isChain_iff.not.mpr hchain)

theorem twoFiles_read_last_positional :
    Listed [.input (some "a.sch"), .format .json, .input (some "b.sch")]
        ["a.sch", "--json", "b.sch"] ∧
      ∃ name, ∀ rest,
        read (["a.sch", "--json", "b.sch"] ++ rest) = .error (.extraArgument name) := by
  have hlisted : Listed [.input (some "a.sch"), .format .json, .input (some "b.sch")]
      ["a.sch", "--json", "b.sch"] :=
    .cons (.file (by simp)) (.cons .json (.cons (.file (by simp)) .nil))
  obtain ⟨-, -, hnotApart⟩ := (read_last_positional ["a.sch", "--json", "b.sch"]).2 _ hlisted
  obtain ⟨name, -, hrefused⟩ := hnotApart (by simp [positional, Apart])
  exact ⟨hlisted, name, hrefused⟩

/-- The file named before a dash is passed over, and standard input read. -/
theorem exists_file_passed_over :
    ∃ items o, Listed items ["in.sch", "-"] ∧ positional items = [some "in.sch", none] ∧
      read ["in.sch", "-"] = .ok (some o) ∧ o.input = none := by
  refine ⟨[.input (some "in.sch"), .input none], standard,
    .cons (.file (by simp)) (.cons .dash .nil), rfl, ?_, rfl⟩
  simp [read, readFrom, standard]

end Options

end GanttChart.CommandLine
