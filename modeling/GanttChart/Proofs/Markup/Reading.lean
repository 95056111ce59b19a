import GanttChart.Proofs.Markup.Reader

/-! # Reading in parts

What the reader makes of a text is put together from what it makes of the parts: of attributes in a
start tag, of what stands between two tags, and of elements one after the other. -/

namespace GanttChart.Markup

/-- The text can be the name of a tag or of an attribute. -/
def isName (s : String) : Bool := s.toList.all isNameChar && !s.toList.isEmpty

theorem exists_of_isName {s : String} (h : isName s = true) :
    ∃ c cs, s.toList = c :: cs ∧ isNameChar c = true ∧ ∀ x ∈ cs, isNameChar x = true := by
  cases hs : s.toList with
  | nil => simp [isName, hs] at h
  | cons c cs => simpa [isName, hs] using h

theorem isNameChar_of_isName {s : String} (h : isName s = true) :
    ∀ c ∈ s.toList, isNameChar c = true :=
  List.all_eq_true.mp (Bool.and_eq_true_iff.mp h).1

theorem ne_of_isNameChar {c x : Char} (h : isNameChar c = true) (hx : isNameChar x = false) :
    c ≠ x := by
  rintro rfl
  rw [h] at hx
  cases hx

/-- The text stands for another one, and ends neither a text node nor an attribute. -/
structure StandsFor (raw content : String) : Prop where
  read : unescape? raw = some content
  angle : '<' ∉ raw.toList
  quote : '"' ∉ raw.toList

theorem standsFor_escape (s : String) : StandsFor (escape s) s :=
  ⟨unescape?_escape s, (not_mem_escape s).1, (not_mem_escape s).2⟩

theorem standsFor_of_isPlain {s : String} (h : isPlain s = true) : StandsFor s s := by
  have hs := standsFor_escape s
  rwa [escape_of_isPlain h] at hs

namespace Reading

variable {r r' r'' : Reading} {s t raw content tag key : String} {nodes children : List Node}
  {outer : List Frame} {attributes table : List (String × String)}

/-- The text takes the reader from one state to another. -/
def Reads (r : Reading) (s : String) (r' : Reading) : Prop := s.toList.foldlM step r = some r'

theorem Reads.append (h : r.Reads s r') (h' : r'.Reads t r'') : r.Reads (s ++ t) r'' := by
  rw [Reads, String.toList_append, List.foldlM_append, h]
  exact h'

/-- A part in which characters are collected one by one. -/
theorem foldlM_collect (collected : List Char → Reading) {cs : List Char}
    (h : ∀ xs, ∀ c ∈ cs, (collected xs).step c = some (collected (xs ++ [c]))) (xs : List Char) :
    cs.foldlM step (collected xs) = some (collected (xs ++ cs)) := by
  induction cs generalizing xs with
  | nil => simp
  | cons c cs ih =>
    rw [List.foldlM_cons, h xs c List.mem_cons_self]
    simpa using ih (fun ys x hx => h ys x (List.mem_cons_of_mem _ hx)) (xs ++ [c])

/-! ## Start tags -/

section NameChar

variable {c : Char} {name : List Char} {tag : List Char}

theorem step_opening (h : isNameChar c = true) :
    step ⟨.opening, nodes, outer⟩ c = some ⟨.startTag [c] [], nodes, outer⟩ := by
  have hslash := ne_of_isNameChar h (x := '/') rfl
  have hquestion := ne_of_isNameChar h (x := '?') rfl
  simp [step, h, hslash, hquestion]

theorem step_startTag (h : isNameChar c = true) :
    step ⟨.startTag name [], nodes, outer⟩ c = some ⟨.startTag (name ++ [c]) [], nodes, outer⟩ := by
  have hblank := ne_of_isNameChar h (x := ' ') rfl
  have hslash := ne_of_isNameChar h (x := '/') rfl
  have hangle := ne_of_isNameChar h (x := '>') rfl
  simp [step, h, hblank, hslash, hangle]

theorem step_gap (h : isNameChar c = true) : step ⟨.gap tag attributes, nodes, outer⟩ c =
    some ⟨.key tag attributes [c], nodes, outer⟩ := by
  have hblank := ne_of_isNameChar h (x := ' ') rfl
  have hslash := ne_of_isNameChar h (x := '/') rfl
  have hangle := ne_of_isNameChar h (x := '>') rfl
  simp [step, h, hblank, hslash, hangle]

theorem step_key (h : isNameChar c = true) : step ⟨.key tag attributes name, nodes, outer⟩ c =
    some ⟨.key tag attributes (name ++ [c]), nodes, outer⟩ := by
  have hequals := ne_of_isNameChar h (x := '=') rfl
  simp [step, h, hequals]

theorem step_endTag (h : isNameChar c = true) : step ⟨.endTag name, nodes, outer⟩ c =
    some ⟨.endTag (name ++ [c]), nodes, outer⟩ := by
  have hangle := ne_of_isNameChar h (x := '>') rfl
  simp [step, h, hangle]

end NameChar

theorem reads_tag (h : isName tag = true) :
    (between nodes outer).Reads ("<" ++ tag) ⟨.startTag tag.toList [], nodes, outer⟩ := by
  obtain ⟨c, cs, hs, hc, hcs⟩ := exists_of_isName h
  have hopened : (between nodes outer).step '<' = some ⟨.opening, nodes, outer⟩ := by
    simp [between, step, unescape?, unescapeFrom, textNodes]
  have hname := foldlM_collect (fun xs => ⟨.startTag xs [], nodes, outer⟩)
    (fun xs x hx => step_startTag (hcs x hx)) [c]
  simpa [Reads, hs, hopened, step_opening hc] using hname

/-- An attribute is read as its key and what its value stands for. -/
theorem reads_attribute {name : List Char} (hk : isName key = true) (hv : StandsFor raw content) :
    Reads ⟨.startTag name attributes, nodes, outer⟩ (attributeText key raw)
      ⟨.startTag name (attributes ++ [(key, content)]), nodes, outer⟩ := by
  obtain ⟨c, cs, hs, hc, hcs⟩ := exists_of_isName hk
  have hblank : Reads ⟨.startTag name attributes, nodes, outer⟩ " "
      ⟨.gap name attributes, nodes, outer⟩ := by
    simp [Reads, step]
  have hkey : Reads ⟨.gap name attributes, nodes, outer⟩ key
      ⟨.key name attributes key.toList, nodes, outer⟩ := by
    rw [Reads, hs, List.foldlM_cons, step_gap hc]
    exact foldlM_collect (fun xs => ⟨.key name attributes xs, nodes, outer⟩)
      (fun xs x hx => step_key (hcs x hx)) [c]
  have hassigned : Reads ⟨.key name attributes key.toList, nodes, outer⟩ "=\""
      ⟨.value name attributes key.toList [], nodes, outer⟩ := by
    simp [Reads, step]
  have hvalue : Reads ⟨.value name attributes key.toList [], nodes, outer⟩ raw
      ⟨.value name attributes key.toList raw.toList, nodes, outer⟩ := by
    refine foldlM_collect (fun xs => ⟨.value name attributes key.toList xs, nodes, outer⟩) ?_ []
    intro xs x hx
    have hangle : x ≠ '<' := fun h => hv.angle (h ▸ hx)
    have hquote : x ≠ '"' := fun h => hv.quote (h ▸ hx)
    simp [step, hangle, hquote]
  have hend : Reads ⟨.value name attributes key.toList raw.toList, nodes, outer⟩ "\""
      ⟨.startTag name (attributes ++ [(key, content)]), nodes, outer⟩ := by
    simp [Reads, step, hv.read]
  exact (((hblank.append hkey).append hassigned).append hvalue).append hend

/-- The text is read as attributes inside a start tag. -/
def Adds (text : String) (table : List (String × String)) : Prop :=
  ∀ name attributes nodes outer, Reads ⟨.startTag name attributes, nodes, outer⟩ text
    ⟨.startTag name (attributes ++ table), nodes, outer⟩

theorem adds_nothing : Adds "" [] := by
  intro name attributes nodes outer
  simp [Reads]

theorem adds_attribute (hk : isName key = true) (hv : StandsFor raw content) :
    Adds (attributeText key raw) [(key, content)] :=
  fun _ _ _ _ => reads_attribute hk hv

theorem Adds.append {table' : List (String × String)} (h : Adds s table) (h' : Adds t table') :
    Adds (s ++ t) (table ++ table') := by
  intro name attributes nodes outer
  rw [← List.append_assoc]
  exact (h name attributes nodes outer).append (h' name _ nodes outer)

/-! ## Elements -/

/-- The text is read as nodes that follow each other. -/
def Yields (text : String) (children : List Node) : Prop :=
  ∀ nodes outer, (between nodes outer).Reads text (between (nodes ++ children) outer)

theorem yields_nothing : Yields "" [] := by
  intro nodes outer
  simp [Reads]

theorem Yields.append {children' : List Node} (h : Yields s children) (h' : Yields t children') :
    Yields (s ++ t) (children ++ children') := by
  intro nodes outer
  rw [← List.append_assoc]
  exact (h nodes outer).append (h' _ outer)

/-- The text is what stands in an element: the nodes inside and text behind the last of them. -/
def Fills (text : String) (children : List Node) : Prop :=
  ∀ f outer, ∃ nodes raw content, (between [] (f :: outer)).Reads text
      ⟨.content raw, nodes, f :: outer⟩ ∧ unescape? (String.ofList raw) = some content ∧
    children = nodes ++ textNodes content

theorem Yields.fills (h : Yields s children) : Fills s children := by
  intro f outer
  exact ⟨children, [], "", h [] (f :: outer), rfl, by simp [textNodes]⟩

theorem fills_of_standsFor (h : StandsFor raw content) : Fills raw (textNodes content) := by
  intro f outer
  refine ⟨[], raw.toList, content, ?_, by rw [String.ofList_toList, h.read], rfl⟩
  refine foldlM_collect (fun xs => ⟨.content xs, [], f :: outer⟩) ?_ []
  intro xs x hx
  have hangle : x ≠ '<' := fun heq => h.angle (heq ▸ hx)
  simp [step, hangle]

theorem reads_endTag {f : Frame} {raw : List Char} (ht : isName tag = true)
    (hf : f.tag = tag.toList) (hr : unescape? (String.ofList raw) = some content) :
    Reads ⟨.content raw, nodes, f :: outer⟩ ("</" ++ tag ++ ">")
      (between (f.before ++ [.element tag f.attributes (nodes ++ textNodes content)]) outer) := by
  have hslash : Reads ⟨.content raw, nodes, f :: outer⟩ "</"
      ⟨.endTag [], nodes ++ textNodes content, f :: outer⟩ := by
    simp [Reads, step, hr]
  have hname : Reads ⟨.endTag [], nodes ++ textNodes content, f :: outer⟩ tag
      ⟨.endTag tag.toList, nodes ++ textNodes content, f :: outer⟩ := by
    refine foldlM_collect (fun xs => ⟨.endTag xs, nodes ++ textNodes content, f :: outer⟩) ?_ []
    intro xs x hx
    exact step_endTag (isNameChar_of_isName ht x hx)
  have hend : Reads ⟨.endTag tag.toList, nodes ++ textNodes content, f :: outer⟩ ">"
      (between (f.before ++ [.element tag f.attributes (nodes ++ textNodes content)]) outer) := by
    simp [Reads, step, hf]
  exact (hslash.append hname).append hend

/-- The text begins an element, with the attributes so far. -/
def Opens (text tag : String) (table : List (String × String)) : Prop :=
  ∀ nodes outer, (between nodes outer).Reads text ⟨.startTag tag.toList table, nodes, outer⟩

theorem opens_tag (h : isName tag = true) : Opens ("<" ++ tag) tag [] := fun _ _ => reads_tag h

namespace Opens

variable {head : String}

theorem adds (h : Opens head tag attributes) (ha : Adds s table) :
    Opens (head ++ s) tag (attributes ++ table) :=
  fun nodes outer => (h nodes outer).append (ha _ attributes nodes outer)

/-- A tag that closes itself makes an element with nothing inside. -/
theorem closed (h : Opens head tag attributes) :
    Yields (head ++ " />") [.element tag attributes []] := by
  intro nodes outer
  refine (h nodes outer).append ?_
  simp [Reads, step, between]

/-- What stands between the tags of an element becomes what is inside of it. -/
theorem filled (h : Opens head tag attributes) (ht : isName tag = true) (hs : Fills s children) :
    Yields (head ++ ">" ++ s ++ ("</" ++ tag ++ ">")) [.element tag attributes children] := by
  intro nodes outer
  obtain ⟨inner, raw, content, hread, hr, rfl⟩ := hs ⟨tag.toList, attributes, nodes⟩ outer
  have henter : Reads ⟨.startTag tag.toList attributes, nodes, outer⟩ ">"
      (between [] (⟨tag.toList, attributes, nodes⟩ :: outer)) := by
    simp [Reads, step, enter]
  exact (((h nodes outer).append henter).append hread).append (reads_endTag ht rfl hr)

end Opens

end Reading

theorem read?_of_reads {s : String} {root : Node}
    (h : (Reading.between [] []).Reads s (.between [root] [])) : read? s = some root := by
  rw [Reading.Reads] at h
  rw [read?, h]
  rfl

end GanttChart.Markup
