import GanttChart.Proofs.CommandLine.Files
import GanttChart.Proofs.CommandLine.Orders
import Mathlib

/-! # How a command line ends

A run looks at the arguments before it looks at any file, and at the settings and the schedule
before it writes. Up to there nothing changes but standard input. Then the drawing goes to one place
in one way, and only when the system breaks that off is a part of it left. -/

namespace GanttChart.CommandLine

variable {α β : Type}

namespace Files

variable {f mid after : Files} {o : Options} {arguments : List ByteArray} {d : Drawing}

/-! ## What is read -/

/-- The reason why what reading comes to is no text. -/
inductive Lacks (result : Except Fault ByteArray × Files) : String → Files → Prop
  | fault {fault : Fault} {after : Files} (h : result = (.error fault, after)) :
      Lacks result fault.message after
  | notText {octets : ByteArray} {after : Files} (h : result = (.ok octets, after))
      (hoctets : ¬ octets.IsValidUTF8) :
      Lacks result "stream did not contain valid UTF-8" after

/-- The settings that count when they are named like this. -/
inductive Configured (f : Files) : Option String → ChartConfig → Files → Prop
  | standard : Configured f none .standard f
  | file {path text : String} {config : ChartConfig} {after : Files}
      (h : f.read path = (.ok text.toUTF8, after)) (hconfig : ChartConfig.read text = .ok config) :
      Configured f (some path) config after

/-- Why there are no settings. -/
inductive Unconfigured (f : Files) : Option String → String → Files → Prop
  | lacks {path reason : String} {after : Files} (h : Lacks (f.read path) reason after) :
      Unconfigured f (some path) ("cannot read " ++ path ++ ": " ++ reason) after
  | invalid {path text : String} {e : ScheduleError} {after : Files}
      (h : f.read path = (.ok text.toUTF8, after)) (he : ChartConfig.read text = .error e) :
      Unconfigured f (some path) ("invalid config " ++ path ++ ": " ++ e.message) after

/-- The text of the schedule, from a file or from standard input. -/
inductive Given (f : Files) : Option String → String → Files → Prop
  | stdin {text : String} {after : Files} (h : f.drain = (.ok text.toUTF8, after)) :
      Given f none text after
  | file {path text : String} {after : Files} (h : f.read path = (.ok text.toUTF8, after)) :
      Given f (some path) text after

/-- Why there is no schedule. -/
inductive Ungiven (f : Files) : Option String → String → Files → Prop
  | stdin {reason : String} {after : Files} (h : Lacks f.drain reason after) :
      Ungiven f none ("cannot read stdin" ++ ": " ++ reason) after
  | file {path reason : String} {after : Files} (h : Lacks (f.read path) reason after) :
      Ungiven f (some path) ("cannot read " ++ path ++ ": " ++ reason) after

/-- What the options make of the files. Settings are read first, then the schedule. -/
def Draws (f : Files) (o : Options) (d : Drawing) (after : Files) : Prop :=
  ∃ config text mid, f.Configured o.config config mid ∧ mid.Given o.input text after ∧
    Drawing.ofText o.format text config o.scale = .ok d

/-- What goes wrong first with options that come to no drawing. -/
inductive Halts (f : Files) (o : Options) : String → Files → Prop
  | config {message : String} {after : Files} (h : f.Unconfigured o.config message after) :
      Halts f o message after
  | input {config : ChartConfig} {message : String} {mid after : Files}
      (hconfig : f.Configured o.config config mid) (h : mid.Ungiven o.input message after) :
      Halts f o message after
  | schedule {config : ChartConfig} {text : String} {e : ScheduleError} {mid after : Files}
      (hconfig : f.Configured o.config config mid) (hinput : mid.Given o.input text after)
      (h : Drawing.ofText o.format text config o.scale = .error e) : Halts f o e.message after

/-! ## Actions -/

section Actions

variable {x : ExceptT String (StateM Files) α} {k : α → ExceptT String (StateM Files) β} {a : α}
  {what message : String} {good good' : α → Files → Prop} {bad bad' : String → Files → Prop}

theorem run_bind_of_ok (h : x.run.run f = (.ok a, after)) :
    (x >>= k).run.run f = (k a).run.run after := by
  rw [ExceptT.run_bind, StateT.run_bind, h]
  rfl

theorem run_bind_of_error (h : x.run.run f = (.error message, after)) :
    (x >>= k).run.run f = (.error message, after) := by
  rw [ExceptT.run_bind, StateT.run_bind, h]
  rfl

/-- An action changes nothing but standard input, and comes to something good or tells what is
bad. -/
def Looks (f : Files) (x : ExceptT String (StateM Files) α) (good : α → Files → Prop)
    (bad : String → Files → Prop) : Prop :=
  ∃ after, f.Kept after ∧
    ((∃ a, good a after ∧ x.run.run f = (.ok a, after)) ∨
      ∃ message, bad message after ∧ x.run.run f = (.error message, after))

theorem Looks.bind {good' : β → Files → Prop} (hx : f.Looks x good bad)
    (hk : ∀ a mid, good a mid → mid.Looks (k a) good' bad) : f.Looks (x >>= k) good' bad := by
  obtain ⟨mid, hkept, ⟨a, hgood, hrun⟩ | ⟨message, hbad, hrun⟩⟩ := hx
  · obtain ⟨after, hkept', hk⟩ := hk a mid hgood
    rw [← run_bind_of_ok hrun] at hk
    exact ⟨after, hkept.trans hkept', hk⟩
  · exact ⟨mid, hkept, .inr ⟨message, hbad, run_bind_of_error hrun⟩⟩

theorem Looks.imp (hx : f.Looks x good bad) (hgood : ∀ a after, good a after → good' a after)
    (hbad : ∀ message after, bad message after → bad' message after) : f.Looks x good' bad' := by
  obtain ⟨after, hkept, ⟨a, ha, hrun⟩ | ⟨message, hm, hrun⟩⟩ := hx
  · exact ⟨after, hkept, .inl ⟨a, hgood a after ha, hrun⟩⟩
  · exact ⟨after, hkept, .inr ⟨message, hbad message after hm, hrun⟩⟩

theorem Looks.imp_bad (hx : f.Looks x good bad)
    (hbad : ∀ message after, bad message after → bad' message after) : f.Looks x good bad' :=
  hx.imp (fun _ _ h => h) hbad

theorem attempting_run : (attempting what x).run.run f =
    ((x.run.run f).1.mapError fun reason => what ++ ": " ++ reason, (x.run.run f).2) := rfl

theorem Looks.attempting (hx : f.Looks x good fun reason => bad (what ++ ": " ++ reason)) :
    f.Looks (attempting what x) good bad := by
  obtain ⟨after, hkept, ⟨a, hgood, hrun⟩ | ⟨reason, hbad, hrun⟩⟩ := hx
  · refine ⟨after, hkept, .inl ⟨a, hgood, ?_⟩⟩
    rw [attempting_run, hrun]
    rfl
  · refine ⟨after, hkept, .inr ⟨_, hbad, ?_⟩⟩
    rw [attempting_run, hrun]
    rfl

theorem looks_orMessage (result : Except ScheduleError α) :
    f.Looks (orMessage result) (fun a after => result = .ok a ∧ after = f)
      fun message after => ∃ e, result = .error e ∧ message = e.message ∧ after = f := by
  cases result with
  | ok a => exact ⟨f, .refl f, .inl ⟨a, ⟨rfl, rfl⟩, rfl⟩⟩
  | error e => exact ⟨f, .refl f, .inr ⟨_, ⟨e, rfl, rfl, rfl⟩, rfl⟩⟩

theorem perform_run (action : Files → Except Fault α × Files) :
    (perform action).run.run f = ((action f).1.mapError Fault.message, (action f).2) := rfl

theorem looks_text {action : Files → Except Fault ByteArray × Files}
    (hkept : f.Kept (action f).2) :
    f.Looks (do textOf (← perform action)) (fun text after => action f = (.ok text.toUTF8, after))
      (Lacks (action f)) := by
  rcases haction : action f with ⟨result, after⟩
  rw [haction] at hkept
  cases result with
  | error fault =>
    have hrun : (perform action).run.run f = (.error fault.message, after) := by
      rw [perform_run, haction]
      rfl
    exact ⟨after, hkept, .inr ⟨_, .fault rfl, run_bind_of_error hrun⟩⟩
  | ok octets =>
    have hrun : (perform action).run.run f = (.ok octets, after) := by
      rw [perform_run, haction]
      rfl
    by_cases hoctets : octets.IsValidUTF8
    · refine ⟨after, hkept, .inl ⟨String.fromUTF8 octets hoctets, rfl, ?_⟩⟩
      have htext : String.fromUTF8? octets = some (String.fromUTF8 octets hoctets) :=
        dif_pos hoctets
      rw [run_bind_of_ok hrun, textOf, htext]
      rfl
    · refine ⟨after, hkept, .inr ⟨_, .notText rfl hoctets, ?_⟩⟩
      rw [run_bind_of_ok hrun, textOf, fromUTF8?_eq_none hoctets]
      rfl

end Actions

theorem looks_readFile (path : String) :
    f.Looks (folder.readFile path) (fun text after => f.read path = (.ok text.toUTF8, after))
      fun message after => ∃ reason, Lacks (f.read path) reason after ∧
        message = "cannot read " ++ path ++ ": " ++ reason := by
  refine .attempting ((looks_text (kept_read f path)).imp_bad ?_)
  intro reason after hlacks
  exact ⟨reason, hlacks, rfl⟩

theorem looks_readConfig (path? : Option String) :
    f.Looks (folder.readConfig path?) (f.Configured path?) (f.Unconfigured path?) := by
  cases path? with
  | none => exact ⟨f, .refl f, .inl ⟨_, .standard, rfl⟩⟩
  | some path =>
    refine .bind ((looks_readFile path).imp_bad ?_) fun text mid hread =>
      .attempting ((looks_orMessage _).imp ?_ ?_)
    · intro message after ⟨reason, hlacks, hmessage⟩
      rw [hmessage]
      exact .lacks hlacks
    · intro config after ⟨hconfig, hafter⟩
      rw [hafter]
      exact .file hread hconfig
    · intro reason after ⟨e, he, hreason, hafter⟩
      rw [hreason, hafter]
      exact .invalid hread he

theorem looks_readInput (path? : Option String) :
    f.Looks (folder.readInput path?) (f.Given path?) (f.Ungiven path?) := by
  cases path? with
  | none =>
    exact .attempting ((looks_text (kept_drain f)).imp (fun _ _ => .stdin) fun _ _ => .stdin)
  | some path =>
    refine (looks_readFile path).imp (fun _ _ => .file) ?_
    intro message after ⟨reason, hlacks, hmessage⟩
    rw [hmessage]
    exact .file hlacks

/-- Up to the drawing, a run only looks. -/
theorem looks_drawing (o : Options) : f.Looks (o.drawing folder) (f.Draws o) (f.Halts o) := by
  refine .bind ((looks_readConfig o.config).imp_bad fun _ _ => .config) fun config mid hconfig => ?_
  refine .bind ((looks_readInput o.input).imp_bad fun _ _ => .input hconfig)
    fun text after hinput => (looks_orMessage _).imp ?_ ?_
  · intro d last ⟨hd, hlast⟩
    rw [hlast]
    exact ⟨config, text, mid, hconfig, hinput, hd⟩
  · intro message last ⟨e, he, hmessage, hlast⟩
    rw [hmessage, hlast]
    exact .schedule hconfig hinput he

/-! ## What is written -/

/-- All of a drawing has come to where the options want it. -/
inductive Delivers (f : Files) (o : Options) (d : Drawing) : Files → Prop
  | printed {after : Files} (houtput : o.output = none)
      (h : f.Takes (.stream .stdout) (d.svg ++ "\n").toUTF8 after) : Delivers f o d after
  | written {path : String} {place : Place} {after : Files} (houtput : o.output = some path)
      (h : f.Replaced path place d.svg.toUTF8 after) : Delivers f o d after
  /-- The path leads to a device. -/
  | sent {path : String} {s : Stream} {after : Files} (houtput : o.output = some path)
      (hsink : f.sink path = .ok (.stream s)) (h : f.Takes (.stream s) d.svg.toUTF8 after) :
      Delivers f o d after

/-- Why not all of a drawing has come there, and what is left of it. -/
inductive Spoils (f : Files) (o : Options) (d : Drawing) : String → Files → Prop
  | unprinted {fault : Fault} {after : Files} (houtput : o.output = none)
      (h : f.Loses (.stream .stdout) (d.svg ++ "\n").toUTF8 fault after) :
      Spoils f o d ("cannot write stdout" ++ ": " ++ fault.message) after
  | unopened {path : String} {fault : Fault} (houtput : o.output = some path)
      (h : f.sink path = .error fault) :
      Spoils f o d ("cannot write " ++ path ++ ": " ++ fault.message) f
  | brokenOff {path : String} {sink : Sink} {fault : Fault} {after : Files}
      (houtput : o.output = some path) (hsink : f.sink path = .ok sink)
      (h : f.Loses sink d.svg.toUTF8 fault after) :
      Spoils f o d ("cannot write " ++ path ++ ": " ++ fault.message) after

section Writing

variable {sink : Sink} {octets : ByteArray} {path : String}

/-- How an action ends that writes octets to a sink. -/
inductive Writes (f : Files) (sink : Sink) (octets : ByteArray) :
    Except String Unit × Files → Prop
  | all {after : Files} (h : f.Takes sink octets after) : Writes f sink octets (.ok (), after)
  | part {fault : Fault} {after : Files} (h : f.Loses sink octets fault after) :
      Writes f sink octets (.error fault.message, after)

theorem writes_deliver (f : Files) (sink : Sink) (octets : ByteArray) :
    f.Writes sink octets ((perform fun f => f.deliver sink octets).run.run f) := by
  rw [perform_run]
  rcases h : f.deliver sink octets with ⟨_ | _, after⟩
  · exact .part (deliver_eq_error_iff.mp h)
  · exact .all (deliver_eq_ok_iff.mp h)

theorem writes_line (f : Files) (text : String) :
    f.Writes (.stream .stdout) (text ++ "\n").toUTF8
      ((do streams.print text; streams.print "\n" :
        ExceptT String (StateM Files) Unit).run.run f) := by
  have hoctets : (text ++ "\n").toUTF8 = text.toUTF8 ++ "\n".toUTF8 := String.toByteArray_append
  have hfirst : f.Writes (.stream .stdout) text.toUTF8 ((streams.print text).run.run f) :=
    writes_deliver f _ _
  rw [hoctets]
  generalize hrun : (streams.print text).run.run f = outcome at hfirst
  cases hfirst with
  | part hloses =>
    rw [run_bind_of_error hrun]
    exact .part (hloses.append _)
  | @all mid htakes =>
    have hsecond : mid.Writes (.stream .stdout) "\n".toUTF8 ((streams.print "\n").run.run mid) :=
      writes_deliver mid _ _
    rw [run_bind_of_ok hrun]
    generalize (streams.print "\n").run.run mid = outcome at hsecond
    cases hsecond with
    | all htakes' => exact .all (htakes.append htakes')
    | part hloses => exact .part (htakes.append_loses hloses)

theorem write_run (path text : String) : (folder.write path text).run.run f =
    ((f.write path text).1.mapError Fault.message, (f.write path text).2) := rfl

theorem write_of_sink (h : f.sink path = .ok sink) (text : String) :
    f.write path text = f.deliver sink text.toUTF8 := by
  rw [write, h]

theorem writes_of_sink (h : f.sink path = .ok sink) (text : String) :
    f.Writes sink text.toUTF8 ((folder.write path text).run.run f) := by
  rw [write_run, write_of_sink h]
  exact writes_deliver f sink _

theorem send_cases (f : Files) (o : Options) (d : Drawing) :
    (∃ after, f.Delivers o d after ∧ (o.send folder streams d).run.run f = (.ok (), after)) ∨
      ∃ message after, f.Spoils o d message after ∧
        (o.send folder streams d).run.run f = (.error message, after) := by
  rw [Options.send]
  cases houtput : o.output with
  | none =>
    have hwrites := writes_line f d.svg
    simp only [attempting_run]
    generalize (do streams.print d.svg; streams.print "\n" :
      ExceptT String (StateM Files) Unit).run.run f = outcome at hwrites ⊢
    cases hwrites with
    | all htakes => exact .inl ⟨_, .printed houtput htakes, rfl⟩
    | part hloses => exact .inr ⟨_, _, .unprinted houtput hloses, rfl⟩
  | some path =>
    simp only [attempting_run]
    cases hsink : f.sink path with
    | error fault =>
      have hwrite : f.write path d.svg = (.error fault, f) := by rw [write, hsink]
      rw [write_run, hwrite]
      exact .inr ⟨_, _, .unopened houtput hsink, rfl⟩
    | ok sink =>
      have hwrites := writes_of_sink hsink d.svg
      generalize (folder.write path d.svg).run.run f = outcome at hwrites ⊢
      cases hwrites with
      | part hloses => exact .inr ⟨_, _, .brokenOff houtput hsink hloses, rfl⟩
      | all htakes =>
        refine .inl ⟨_, ?_, rfl⟩
        cases sink with
        | stream s => exact .sent houtput hsink htakes
        | file place =>
          rw [htakes.2]
          exact .written houtput (replaced_put hsink _)

end Writing

/-! ## Runs -/

/-- What goes wrong first with options, and what is left when it does. -/
inductive Fails (f : Files) (o : Options) : String → Files → Prop
  | halted {message : String} {after : Files} (h : f.Halts o message after)
      (hkept : f.Kept after) : Fails f o message after
  | spoilt {d : Drawing} {message : String} {mid after : Files} (hdraws : f.Draws o d mid)
      (hkept : f.Kept mid) (h : mid.Spoils o d message after) : Fails f o message after

theorem draw_cases (f : Files) (o : Options) :
    (∃ d mid after, f.Draws o d mid ∧ f.Kept mid ∧ mid.Delivers o d after ∧
        (o.draw folder streams).run.run f = (.ok (), after)) ∨
      ∃ message after, f.Fails o message after ∧
        (o.draw folder streams).run.run f = (.error message, after) := by
  obtain ⟨mid, hkept, ⟨d, hdraws, hrun⟩ | ⟨message, hhalts, hrun⟩⟩ := looks_drawing (f := f) o
  · rw [Options.draw, run_bind_of_ok hrun]
    obtain ⟨after, hdelivers, hsend⟩ | ⟨message, after, hspoils, hsend⟩ := send_cases mid o d
    · exact .inl ⟨d, mid, after, hdraws, hkept, hdelivers, hsend⟩
    · exact .inr ⟨message, after, .spoilt hdraws hkept hspoils, hsend⟩
  · rw [Options.draw, run_bind_of_error hrun]
    exact .inr ⟨message, mid, .halted hhalts hkept, rfl⟩

/-- How a run panics: reading comes to an argument that is no text, or what is to be told cannot be
told to its end. -/
inductive Panics (f : Files) (arguments : List ByteArray) : Files → Prop
  | argument (hasks : Asks arguments .panic) : Panics f arguments f
  | help {fault : Fault} {after : Files} (hasks : Asks arguments .help)
      (h : f.Loses (.stream .stdout) help.toUTF8 fault after) : Panics f arguments after
  | failure {o : Options} {message : String} {fault : Fault} {mid after : Files}
      (hasks : Asks arguments (.draw o)) (hfails : f.Fails o message mid)
      (h : mid.Loses (.stream .stderr) (errorLine message).toUTF8 fault after) :
      Panics f arguments after
  | refusal {e : UsageError} {fault : Fault} {after : Files} (hasks : Asks arguments (.refuse e))
      (h : f.Loses (.stream .stderr) (errorLine e.message).toUTF8 fault after) :
      Panics f arguments after
  | helpRefused {e : UsageError} {fault : Fault} {mid after : Files}
      (hasks : Asks arguments (.refuse e))
      (herror : f.Takes (.stream .stderr) (errorLine e.message).toUTF8 mid)
      (h : mid.Loses (.stream .stdout) CommandLine.help.toUTF8 fault after) :
      Panics f arguments after

/-- How a run may end that starts with these files and arguments, and the files afterwards. -/
inductive Ends (f : Files) (arguments : List ByteArray) : Nat × Files → Prop
  | drawn {o : Options} {d : Drawing} {mid after : Files} (hasks : Asks arguments (.draw o))
      (hdraws : f.Draws o d mid) (hkept : f.Kept mid) (h : mid.Delivers o d after) :
      Ends f arguments (0, after)
  | helped {after : Files} (hasks : Asks arguments .help)
      (h : f.Takes (.stream .stdout) help.toUTF8 after) : Ends f arguments (0, after)
  | failed {o : Options} {message : String} {mid after : Files}
      (hasks : Asks arguments (.draw o)) (hfails : f.Fails o message mid)
      (h : mid.Takes (.stream .stderr) (errorLine message).toUTF8 after) :
      Ends f arguments (1, after)
  /-- The run is the same in every system, whatever there is to read or to write. -/
  | misused {e : UsageError} {mid after : Files} (hasks : Asks arguments (.refuse e))
      (hrun : ∀ {m : Type → Type} [Monad m] (folder : Folder m) (streams : Streams m),
        CommandLine.run folder streams arguments = streams.misuse e)
      (herror : f.Takes (.stream .stderr) (errorLine e.message).toUTF8 mid)
      (hhelp : mid.Takes (.stream .stdout) help.toUTF8 after) : Ends f arguments (2, after)
  | panicked {after : Files} (h : f.Panics arguments after) : Ends f arguments (panicCode, after)

theorem run_of_asks {m : Type → Type} [Monad m] {order : Order} (h : Asks arguments order)
    (folder : Folder m) (streams : Streams m) :
    CommandLine.run folder streams arguments = order.run folder streams := by
  rw [CommandLine.run, asks_iff.mp h]

/-- What is said comes to its end and the run goes on, or it does not and that is a panic. -/
theorem said_of_writes {x : ExceptT String (StateM Files) Unit} {next : StateM Files Nat}
    {sink : Sink} {octets : ByteArray} {good : Nat × Files → Prop}
    (hx : f.Writes sink octets (x.run.run f))
    (hall : ∀ mid, f.Takes sink octets mid → good (next.run mid))
    (hpart : ∀ fault mid, f.Loses sink octets fault mid → good (panicCode, mid)) :
    good ((said x next).run f) := by
  rw [said, StateT.run_bind]
  generalize x.run.run f = outcome at hx
  cases hx with
  | all htakes => exact hall _ htakes
  | part hloses => exact hpart _ _ hloses

theorem execute_of_draw_ok (hasks : Asks arguments (.draw o))
    (h : (o.draw folder streams).run.run f = (.ok (), after)) :
    f.execute arguments = (0, after) := by
  rw [execute, run_of_asks hasks, Order.run, StateT.run_bind, h]
  rfl

theorem execute_of_draw_error {message : String} (hasks : Asks arguments (.draw o))
    (h : (o.draw folder streams).run.run f = (.error message, mid)) :
    f.execute arguments = (said (streams.tell (errorLine message)) (return 1)).run mid := by
  rw [execute, run_of_asks hasks, Order.run, StateT.run_bind, h]
  rfl

def shortPlan : String := "project lasts 1/4/1 to 1/4/9\ntoday is 1/4/2"

/-- An empty folder, with a schedule on standard input. -/
def idle (limits : Limits) : Files := { ofTexts [] shortPlan with limits }

/-- The same system when the schedule has been read. -/
def spent (limits : Limits) : Files := { idle limits with stdin := .ok .empty }

/-- No disk has room for a file. -/
def fullDisk : Limits where
  reading _ := none
  opening _ := none
  taking
    | .file _ => some (0, .noRoom)
    | .stream _ => none

def into (path : String) : Options := ⟨.plain, none, none, some path, none⟩

theorem asks_into (path : String) : Asks (["-o", path].map String.toUTF8) (.draw (into path)) :=
  .draw rfl ⟨[.output path], ["-o", path], .cons (.short path) .nil, by simp [positional], by simp,
    rfl⟩

theorem exists_drawing_shortPlan : ∃ d, Drawing.ofText .plain shortPlan .standard none = .ok d := by
  have hok : (Schedule.ofText .plain shortPlan .standard none).isOk = true := by cbv
  obtain ⟨s, hs⟩ := Outcome.exists_of_isOk hok
  exact ⟨s.drawing .standard, by rw [Drawing.ofText, hs]; rfl⟩

theorem drawing_into (limits : Limits) (path : String)
    (h : Drawing.ofText .plain shortPlan .standard none = .ok d) :
    ((into path).drawing folder).run.run (idle limits) = (.ok d, spent limits) := by
  have hdrain : folder.input.run.run (idle limits) = (.ok shortPlan.toUTF8, spent limits) := rfl
  have hinput : (folder.readInput none).run.run (idle limits) = (.ok shortPlan, spent limits) := by
    rw [Folder.readInput, attempting_run, run_bind_of_ok hdrain, textOf, fromUTF8?_toUTF8]
    rfl
  have hconfig : (folder.readConfig none).run.run (idle limits) = (.ok .standard, idle limits) :=
    rfl
  rw [Options.drawing, into, run_bind_of_ok hconfig, run_bind_of_ok hinput, h]
  rfl

theorem draw_into {limits : Limits} {path : String} {sink : Sink}
    (h : Drawing.ofText .plain shortPlan .standard none = .ok d)
    (hsink : (spent limits).sink path = .ok sink) :
    ((into path).draw folder streams).run.run (idle limits) =
      (((spent limits).deliver sink d.svg.toUTF8).1.mapError fun fault =>
          "cannot write " ++ path ++ ": " ++ fault.message,
        ((spent limits).deliver sink d.svg.toUTF8).2) := by
  rw [Options.draw, run_bind_of_ok (drawing_into limits path h), Options.send, into,
    attempting_run, write_run, write_of_sink hsink]
  cases ((spent limits).deliver sink d.svg.toUTF8).1 <;> rfl

theorem size_svg_pos (d : Drawing) : 0 < d.svg.toUTF8.size := by
  have hend : 0 < "</svg>".toUTF8.size := by decide
  rw [Drawing.svg, String.toUTF8, String.toByteArray_append, ByteArray.size_append]
  exact Nat.add_pos_right _ hend

end Files

end GanttChart.CommandLine
