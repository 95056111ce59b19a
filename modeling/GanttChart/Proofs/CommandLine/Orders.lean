import GanttChart.Proofs.CommandLine.Arguments

/-! # What a command line asks for

Arguments are octets, and they become text one by one as reading comes to them. So a line is
understood from its front: it asks for a drawing if all of it is items, for help or for a refusal
as soon as these are met, whatever comes behind, and it panics only where reading comes to an
argument that is no text. -/

namespace GanttChart.CommandLine

variable {o o' : Options} {arguments rest : List ByteArray} {texts front words tail : List String}
  {argument option name : String} {octets : ByteArray} {e : UsageError} {order : Order}
  {broken : Bool}

/-- Options that need a value from the next argument, and what is wrong when there is none. -/
inductive Needs : String → UsageError → Prop
  | config : Needs "--config" (.missingValue "--config" .path)
  | scale : Needs "--scale" (.missingValue "--scale" .scale)
  | short : Needs "-o" (.missingValue "--output" .path)
  | long : Needs "--output" (.missingValue "--output" .path)

/-- The arguments that begin with a dash and mean something. -/
def knownOptions : List String :=
  ["-h", "--help", "--json", "--yaml", "--config", "--scale", "-o", "--output", "-"]

namespace Options

/-- Arguments that are refused, whatever comes behind them. -/
inductive Refuses (o : Options) : List String → UsageError → Prop
  | scale {text : String} (h : Scale.ofText? text = none) :
      Refuses o ["--scale", text] (.unknownScale text)
  | unknown {argument : String} (hdash : argument.startsWith "-" = true)
      (h : argument ∉ knownOptions) : Refuses o [argument] (.unknownOption argument)
  | extra {name : String} (hname : name.startsWith "-" = false) (h : o.input.isSome = true) :
      Refuses o [name] (.extraArgument name)

theorem Reaches.append (h : o.Reaches front o' words) (tail : List String) :
    o.Reaches (front ++ tail) o' (words ++ tail) := by
  obtain ⟨items, read, hlisted, hchain, rfl, ho⟩ := h
  exact ⟨items, read, hlisted, hchain, List.append_assoc .., ho⟩

theorem Reaches.exists_append (h : o.Reaches texts o' (words ++ tail)) :
    ∃ front, texts = front ++ tail ∧ o.Reaches front o' words := by
  obtain ⟨items, read, hlisted, hchain, rfl, ho⟩ := h
  exact ⟨read ++ words, (List.append_assoc ..).symm, items, read, hlisted, hchain, rfl, ho⟩

/-! ## Errors -/

theorem readFrom_unknown (hdash : argument.startsWith "-" = true) (h : argument ∉ knownOptions) :
    readFrom o (argument :: tail) = .error (.unknownOption argument) := by
  rw [readFrom]
  · simp [hdash]
  -- the argument is none of those that are looked for
  all_goals intros; subst_vars; simp [knownOptions] at h

theorem readFrom_of_refuses (h : o.Refuses words e) (tail : List String) :
    readFrom o (words ++ tail) = .error e := by
  cases h with
  | scale h => simp [readFrom, h]
  | unknown hdash h => exact readFrom_unknown hdash h
  | extra hname h => rw [List.singleton_append, readFrom_file hname, if_pos h]

theorem readFrom_of_needs (h : Needs option e) : readFrom o [option] = .error e := by
  cases h <;> simp [readFrom]

/-- Where reading stops with an error: at an option that stands last and needs a value, or at
arguments that are refused. -/
def Errs (o : Options) (texts : List String) (e : UsageError) : Prop :=
  ∃ o' tail, o.Reaches texts o' tail ∧
    ((∃ option, tail = [option] ∧ Needs option e) ∨
      ∃ words rest, tail = words ++ rest ∧ o'.Refuses words e)

theorem Errs.of_needs (h : Needs option e) : o.Errs [option] e :=
  ⟨o, [option], .refl, .inl ⟨option, rfl, h⟩⟩

theorem Errs.of_refuses (h : o.Refuses words e) (tail : List String) : o.Errs (words ++ tail) e :=
  ⟨o, words ++ tail, .refl, .inr ⟨words, tail, rfl, h⟩⟩

theorem Errs.cons {item : Item} (hitem : item.Written words) (hallows : o.Allows item)
    (h : (o.set item).Errs tail e) : o.Errs (words ++ tail) e := by
  obtain ⟨o', rest, hreaches, h⟩ := h
  exact ⟨o', rest, hreaches.cons hitem hallows, h⟩

theorem errs_of_readFrom (h : readFrom o texts = .error e) : o.Errs texts e := by
  fun_induction readFrom o texts with
  | case1 | case2 | case3 => cases h
  | case4 o rest ih => exact .cons .json trivial (ih h)
  | case5 o rest ih => exact .cons .yaml trivial (ih h)
  | case6 o =>
    cases h
    exact .of_needs .config
  | case7 o path rest ih => exact .cons (.config path) trivial (ih h)
  | case8 o =>
    cases h
    exact .of_needs .scale
  | case9 o text rest scale hscale ih => exact .cons (.scale hscale) trivial (ih h)
  | case10 o text rest hscale =>
    cases h
    exact .of_refuses (.scale hscale) rest
  | case11 o =>
    cases h
    exact .of_needs .short
  | case12 o =>
    cases h
    exact .of_needs .long
  | case13 o path rest ih => exact .cons (.short path) trivial (ih h)
  | case14 o path rest ih => exact .cons (.long path) trivial (ih h)
  | case15 o rest ih => exact .cons .dash (.inr rfl) (ih h)
  | case16 o argument rest =>
    rename_i hdash
    cases h
    refine .of_refuses (.unknown hdash fun hknown => ?_) rest
    simp only [knownOptions, List.mem_cons, List.not_mem_nil, or_false] at hknown
    rcases hknown with rfl | rfl | rfl | rfl | rfl | rfl | rfl | rfl | rfl <;>
      cases rest <;> simp_all
  | case17 o name rest =>
    rename_i hdash htaken
    cases h
    exact .of_refuses (.extra (by simpa using hdash) htaken) rest
  | case18 o name rest =>
    rename_i hdash hopen ih
    exact .cons (.file (by simpa using hdash)) (.inl (by simpa using hopen)) (ih h)

theorem readFrom_eq_error_iff : readFrom o texts = .error e ↔ o.Errs texts e := by
  refine ⟨errs_of_readFrom, fun h => ?_⟩
  obtain ⟨o', tail, hreaches, ⟨option, rfl, hneeds⟩ | ⟨words, rest, rfl, hrefuses⟩⟩ := h
  · rw [hreaches.readFrom_eq, readFrom_of_needs hneeds]
  · rw [hreaches.readFrom_eq, readFrom_of_refuses hrefuses]

end Options

/-! ## Arguments that are no texts -/

theorem fromUTF8?_toUTF8 (text : String) : String.fromUTF8? text.toUTF8 = some text :=
  dif_pos text.isValidUTF8

theorem fromUTF8?_eq_none (h : ¬ octets.IsValidUTF8) : String.fromUTF8? octets = none := dif_neg h

theorem octets_append (front tail : List String) (rest : List ByteArray) :
    (front ++ tail).map String.toUTF8 ++ rest =
      front.map String.toUTF8 ++ (tail.map String.toUTF8 ++ rest) := by
  rw [List.map_append, List.append_assoc]

theorem textsBefore_append (texts : List String) (rest : List ByteArray) :
    textsBefore (texts.map String.toUTF8 ++ rest) =
      (texts ++ (textsBefore rest).1, (textsBefore rest).2) := by
  induction texts with
  | nil => rfl
  | cons text texts ih =>
    rw [List.map_cons, List.cons_append, textsBefore, fromUTF8?_toUTF8, ih]
    rfl

theorem textsBefore_of_invalid (h : ¬ octets.IsValidUTF8) (rest : List ByteArray) :
    textsBefore (octets :: rest) = ([], true) := by
  rw [textsBefore, fromUTF8?_eq_none h]

/-- The texts up to the first argument that is none, and what stands behind them. -/
theorem exists_textsBefore (arguments : List ByteArray) :
    ∃ (texts : List String) (rest : List ByteArray),
      arguments = texts.map String.toUTF8 ++ rest ∧
      (rest = [] ∨ ∃ octets behind, rest = octets :: behind ∧ ¬ octets.IsValidUTF8) := by
  induction arguments with
  | nil => exact ⟨[], [], rfl, .inl rfl⟩
  | cons octets arguments ih =>
    by_cases hoctets : octets.IsValidUTF8
    · obtain ⟨texts, rest, rfl, hrest⟩ := ih
      exact ⟨String.fromUTF8 octets hoctets :: texts, rest, rfl, hrest⟩
    · exact ⟨[], octets :: arguments, rfl, .inr ⟨octets, arguments, rfl, hoctets⟩⟩

/-! ## Orders -/

/-- What arguments ask for, by what stands at their front. -/
inductive Asks (arguments : List ByteArray) : Order → Prop
  | draw {texts : List String} {o : Options} (harguments : arguments = texts.map String.toUTF8)
      (hreads : Options.standard.Reaches texts o []) : Asks arguments (.draw o)
  | help {front : List String} {word : String} {rest : List ByteArray} {o : Options}
      (harguments : arguments = front.map String.toUTF8 ++ rest) (hword : word ∈ ["-h", "--help"])
      (hreads : Options.standard.Reaches front o [word]) : Asks arguments .help
  /-- Refused words, whatever stands behind them. -/
  | refuse {front words : List String} {rest : List ByteArray} {o : Options} {e : UsageError}
      (harguments : arguments = front.map String.toUTF8 ++ rest)
      (hreads : Options.standard.Reaches front o words) (h : o.Refuses words e) :
      Asks arguments (.refuse e)
  /-- An option without its value, and nothing behind it. -/
  | valueless {texts : List String} {option : String} {o : Options} {e : UsageError}
      (harguments : arguments = texts.map String.toUTF8)
      (hreads : Options.standard.Reaches texts o [option]) (h : Needs option e) :
      Asks arguments (.refuse e)
  /-- An argument that is no text where an item or the value of an option should stand. -/
  | panic {front tail : List String} {octets : ByteArray} {rest : List ByteArray} {o : Options}
      (harguments : arguments = front.map String.toUTF8 ++ octets :: rest)
      (hoctets : ¬ octets.IsValidUTF8) (hreads : Options.standard.Reaches front o tail)
      (htail : tail = [] ∨ ∃ option e, tail = [option] ∧ Needs option e) : Asks arguments .panic

theorem Order.ofArguments_append (texts : List String) (rest : List ByteArray) :
    ofArguments (texts.map String.toUTF8 ++ rest) =
      .ofResult (textsBefore rest).2 (Options.read (texts ++ (textsBefore rest).1)) := by
  rw [ofArguments, textsBefore_append]

theorem Order.ofArguments_texts (texts : List String) :
    ofArguments (texts.map String.toUTF8) = .ofResult false (Options.read texts) := by
  simpa [textsBefore] using ofArguments_append texts []

theorem Order.ofArguments_invalid (texts : List String) (h : ¬ octets.IsValidUTF8)
    (rest : List ByteArray) :
    ofArguments (texts.map String.toUTF8 ++ octets :: rest) =
      .ofResult true (Options.read texts) := by
  rw [ofArguments_append, textsBefore_of_invalid h, List.append_nil]

theorem Order.ofResult_of_needs (h : Needs option e) :
    ofResult broken (.error e) = if broken then .panic else .refuse e := by
  cases h <;> rfl

theorem Order.ofResult_of_refuses (h : o.Refuses words e) :
    ofResult broken (.error e) = .refuse e := by
  cases h <;> rfl

theorem ofArguments_of_asks (h : Asks arguments order) : Order.ofArguments arguments = order := by
  cases h with
  | @draw texts o harguments hreads =>
    have hread : Options.read texts = .ok (some o) := Options.readFrom_eq_ok_iff.mpr hreads
    rw [harguments, Order.ofArguments_texts, hread]
    rfl
  | @help front word rest o harguments hword hreads =>
    have hread : Options.read (front ++ (textsBefore rest).1) = .ok none :=
      Options.readFrom_eq_ok_iff.mpr ⟨o, word, _, hword, hreads.append _⟩
    rw [harguments, Order.ofArguments_append, hread]
    rfl
  | @refuse front words rest o e harguments hreads hrefuses =>
    have hread : Options.read (front ++ (textsBefore rest).1) = .error e :=
      Options.readFrom_eq_error_iff.mpr ⟨o, _, hreads.append _, .inr ⟨words, _, rfl, hrefuses⟩⟩
    rw [harguments, Order.ofArguments_append, hread, Order.ofResult_of_refuses hrefuses]
  | @valueless texts option o e harguments hreads hneeds =>
    have hread : Options.read texts = .error e :=
      Options.readFrom_eq_error_iff.mpr ⟨o, _, hreads, .inl ⟨option, rfl, hneeds⟩⟩
    rw [harguments, Order.ofArguments_texts, hread, Order.ofResult_of_needs hneeds]
    rfl
  | @panic front tail octets rest o harguments hoctets hreads htail =>
    rw [harguments, Order.ofArguments_invalid front hoctets]
    obtain rfl | ⟨option, e, rfl, hneeds⟩ := htail
    · have hread : Options.read front = .ok (some o) := Options.readFrom_eq_ok_iff.mpr hreads
      rw [hread]
      rfl
    · have hread : Options.read front = .error e :=
        Options.readFrom_eq_error_iff.mpr ⟨o, _, hreads, .inl ⟨option, rfl, hneeds⟩⟩
      rw [hread, Order.ofResult_of_needs hneeds]
      rfl

theorem asks_ofArguments (arguments : List ByteArray) :
    Asks arguments (Order.ofArguments arguments) := by
  obtain ⟨texts, rest, rfl, hrest⟩ := exists_textsBefore arguments
  have hbefore : (textsBefore rest).1 = [] := by
    obtain rfl | ⟨octets, behind, rfl, hoctets⟩ := hrest
    · rfl
    · rw [textsBefore_of_invalid hoctets]
  rw [Order.ofArguments_append, hbefore, List.append_nil]
  cases hread : Options.read texts with
  | ok o? =>
    have hstops := Options.stops_of_readFrom hread
    cases o? with
    | none =>
      obtain ⟨o, word, tail, hword, hreads⟩ := hstops
      obtain ⟨front, rfl, hfront⟩ : ∃ front, texts = front ++ tail ∧
          Options.standard.Reaches front o [word] := hreads.exists_append
      exact .help (octets_append front tail rest) hword hfront
    | some o =>
      obtain rfl | ⟨octets, behind, rfl, hoctets⟩ := hrest
      · exact .draw (List.append_nil _) hstops
      · rw [textsBefore_of_invalid hoctets]
        exact .panic rfl hoctets hstops (.inl rfl)
  | error e =>
    obtain ⟨o, tail, hreads, ⟨option, rfl, hneeds⟩ | ⟨words, tail, rfl, hrefuses⟩⟩ :=
      Options.errs_of_readFrom hread
    · rw [Order.ofResult_of_needs hneeds]
      obtain rfl | ⟨octets, behind, rfl, hoctets⟩ := hrest
      · exact .valueless (List.append_nil _) hreads hneeds
      · rw [textsBefore_of_invalid hoctets]
        exact .panic rfl hoctets hreads (.inr ⟨option, e, rfl, hneeds⟩)
    · rw [Order.ofResult_of_refuses hrefuses]
      obtain ⟨front, rfl, hfront⟩ := hreads.exists_append
      exact .refuse (octets_append front tail rest) hfront hrefuses

/-- Arguments ask for exactly one thing, and that is what reading makes of them. -/
theorem asks_iff : Asks arguments order ↔ Order.ofArguments arguments = order := by
  refine ⟨ofArguments_of_asks, fun h => ?_⟩
  rw [← h]
  exact asks_ofArguments arguments

end GanttChart.CommandLine
