import GanttChart.CommandLine.Files
import GanttChart.Proofs.Outcome

/-! # What reading and writing leave

Reading changes nothing but standard input. Writing changes one place or one stream, and comes to
all of the octets or to as many as there is room for. A folder stays a folder, so a path still leads
to the place that was written through it. -/

namespace GanttChart.CommandLine.Files

variable {f mid after : Files} {path : String} {place other inside inside' : Place}
  {creating : Bool} {steps : List String} {octets front back : ByteArray} {fault : Fault}
  {sink : Sink}

/-! ## Places -/

theorem content?_put (h : f.content? place ≠ some .folder) (octets : ByteArray) :
    (f.put place octets).content? place = some (.file octets) := by
  have hplace : place.isEmpty = false := by
    cases place with
    | nil => exact absurd rfl h
    | cons step steps => rfl
  have hfilter : (f.entries.filter fun e => e.1 != place).find? (fun e => e.1 == place) = none := by
    simp
  simp [content?, put, hplace, List.find?_append, hfilter]

theorem content?_put_of_ne (octets : ByteArray) (h : other ≠ place) :
    (f.put place octets).content? other = f.content? other := by
  have hplace : (place == other) = false := by simpa using h.symm
  have hfilter : (f.entries.filter fun e => e.1 != place).find? (fun e => e.1 == other) =
      f.entries.find? fun e => e.1 == other := by
    rw [List.find?_filter]
    congr 1
    funext e
    by_cases he : e.1 = other <;> simp [he, h]
  simp [content?, put, List.find?_append, hfilter, hplace]

/-- The walk only looks at folders, and they stay. -/
theorem walk_put (hplace : f.content? place ≠ some .folder) (octets : ByteArray)
    (h : f.walk inside steps = .ok inside') :
    (f.put place octets).walk inside steps = .ok inside' := by
  fun_induction f.walk inside steps with
  | case1 => exact h
  | case2 inside rest ih => exact ih h
  | case3 inside rest ih => exact ih h
  | case5 inside name rest =>
    rename_i hdot hdots hlong hthere ih
    have hne : inside ++ [name] ≠ place := by
      intro heq
      exact hplace (heq ▸ hthere)
    rw [walk, if_neg hlong, content?_put_of_ne octets hne, hthere]
    · exact ih h
    · exact hdot
    · exact hdots
  | case4 | case6 | case7 => cases h

/-- A path leads to a place for a file. -/
def Leads (f : Files) (path : String) (place : Place) : Prop :=
  ¬ path.isEmpty ∧ path.utf8ByteSize ≤ pathLimit ∧ ¬ path.endsWith "/" ∧
    ∃ inside last, (stepsOf path).getLast? = some last ∧
      f.walk (if path.startsWith "/" then [] else f.here) (stepsOf path).dropLast = .ok inside ∧
      isName last ∧ ¬ isLong last ∧ place = inside ++ [last]

theorem Leads.put (h : f.Leads path place) (hplace : f.content? place ≠ some .folder)
    (octets : ByteArray) : (f.put place octets).Leads path place := by
  obtain ⟨hempty, hshort, hslash, inside, last, hlast, hwalk, hname⟩ := h
  exact ⟨hempty, hshort, hslash, inside, last, hlast, walk_put hplace octets hwalk, hname⟩

theorem found_eq_ok_iff {slash : Bool} {entry : Option Entry} :
    found creating slash other entry = .ok place ↔
      place = other ∧ entry ≠ some .folder ∧ if entry.isSome then ¬ slash else creating := by
  match entry with
  | none => cases creating <;> simp [found, eq_comm]
  | some .folder => simp [found]
  | some (.file octets) => cases slash <;> simp [found, eq_comm]
  | some (.device s) => cases slash <;> simp [found, eq_comm]

theorem place_eq_ok_iff :
    f.place creating path = .ok place ↔
      f.Leads path place ∧ f.content? place ≠ some .folder ∧
        (creating ∨ (f.content? place).isSome) := by
  rw [Files.place, Leads]
  simp only [Outcome.throw_bind, Outcome.if_throw_eq_ok]
  cases hsteps : (stepsOf path).getLast? with
  | none => simp [throw, throwThe, MonadExceptOf.throw]
  | some last =>
    simp only [Outcome.bind_eq_ok, Outcome.if_throw_eq_ok, found_eq_ok_iff]
    constructor
    · intro ⟨hempty, hlong, inside, hwalk, hname, hlast, hplace, hfolder, hthere⟩
      subst hplace
      -- a slash at the end is a fault, whatever is there
      have hslash : path.endsWith "/" = false := by
        cases hsome : (f.content? (inside ++ [last])).isSome <;> simp_all
      refine ⟨⟨hempty, by simpa using hlong, by simp [hslash], inside, last, rfl, hwalk,
        by simp_all, hlast, rfl⟩, hfolder, ?_⟩
      cases hsome : (f.content? (inside ++ [last])).isSome <;> simp_all
    · intro ⟨⟨hempty, hlong, hslash, inside, _, hsome, hwalk, hname, hlast, hplace⟩, hfolder,
        hthere⟩
      cases hsome
      subst hplace
      refine ⟨hempty, by simpa using hlong, inside, hwalk, by simp [hname, hslash], hlast, rfl,
        hfolder, ?_⟩
      cases hsome : (f.content? (inside ++ [last])).isSome <;> simp_all

theorem place_put (h : f.place creating path = .ok place) (octets : ByteArray) :
    (f.put place octets).place false path = .ok place := by
  obtain ⟨hleads, hfolder, -⟩ := place_eq_ok_iff.mp h
  rw [place_eq_ok_iff, content?_put hfolder]
  exact ⟨hleads.put hfolder octets, by simp, .inr rfl⟩

/-! ## Reading -/

/-- Everything is as before, except that standard input may have been read. -/
def Kept (f after : Files) : Prop := after = { f with stdin := after.stdin }

theorem Kept.refl (f : Files) : f.Kept f := rfl

theorem Kept.trans (h : f.Kept mid) (h' : mid.Kept after) : f.Kept after := by
  rw [Kept, h', h]

theorem kept_drain (f : Files) : f.Kept f.drain.2 := rfl

theorem kept_read (f : Files) (path : String) : f.Kept (f.read path).2 := by
  unfold read
  split
  · exact .refl f
  · split
    case h_3 => exact kept_drain f
    all_goals exact .refl f

theorem read_put (h : f.place creating path = .ok place) (hreading : f.limits.reading place = none)
    (octets : ByteArray) : (f.put place octets).read path = (.ok octets, f.put place octets) := by
  have hthere := content?_put (place_eq_ok_iff.mp h).2.1 octets
  have hlimits : (f.put place octets).limits.reading place = none := hreading
  rw [read, place_put h octets]
  simp only [hlimits, hthere]

/-! ## Writing -/

/-- All octets come to a sink. -/
def Takes (f : Files) (sink : Sink) (octets : ByteArray) (after : Files) : Prop :=
  (∀ n fault, f.room? sink = some (n, fault) → octets.size ≤ n) ∧ after = f.arrive sink octets

/-- Some octets at the front come to a sink, and the others are lost by a fault. -/
def Loses (f : Files) (sink : Sink) (octets : ByteArray) (fault : Fault) (after : Files) : Prop :=
  ∃ n, f.room? sink = some (n, fault) ∧ n < octets.size ∧
    after = f.arrive sink (octets.extract 0 n)

theorem deliver_eq_ok_iff {u : Unit} :
    f.deliver sink octets = (.ok u, after) ↔ f.Takes sink octets after := by
  rw [deliver, Takes]
  split
  next hroom => simp [hroom, eq_comm]
  next n fault hroom =>
    by_cases hsize : octets.size ≤ n <;> simp [hroom, hsize, eq_comm]

theorem deliver_eq_error_iff :
    f.deliver sink octets = (.error fault, after) ↔ f.Loses sink octets fault after := by
  constructor
  · intro h
    unfold deliver at h
    split at h
    · cases h
    next n fault hroom =>
      split at h
      · cases h
      next hsize =>
        cases h
        exact ⟨n, hroom, Nat.lt_of_not_le hsize, rfl⟩
  · intro ⟨n, hroom, hsize, hafter⟩
    simp [deliver, hroom, Nat.not_le_of_lt hsize, hafter]

theorem room?_arrive (f : Files) (front : ByteArray) :
    (f.arrive (.stream .stdout) front).room? (.stream .stdout) =
      (f.room? (.stream .stdout)).map fun (n, fault) => (n - front.size, fault) := by
  simp only [room?, Option.map_map]
  congr 1
  funext (n, fault)
  simp [used, arrive, Nat.sub_sub]

theorem arrive_arrive (f : Files) (front back : ByteArray) :
    (f.arrive (.stream .stdout) front).arrive (.stream .stdout) back =
      f.arrive (.stream .stdout) (front ++ back) := by
  simp [arrive, ByteArray.append_assoc]

/-- One text behind another on standard output is both at once. -/
theorem Takes.append (h : f.Takes (.stream .stdout) front mid)
    (h' : mid.Takes (.stream .stdout) back after) :
    f.Takes (.stream .stdout) (front ++ back) after := by
  obtain ⟨hfits, rfl⟩ := h
  obtain ⟨hfits', rfl⟩ := h'
  refine ⟨fun n fault hroom => ?_, arrive_arrive f front back⟩
  have hfront := hfits n fault hroom
  have hback := hfits' (n - front.size) fault (by simp [room?_arrive, hroom])
  rw [ByteArray.size_append]
  omega

theorem Takes.append_loses (h : f.Takes (.stream .stdout) front mid)
    (h' : mid.Loses (.stream .stdout) back fault after) :
    f.Loses (.stream .stdout) (front ++ back) fault after := by
  obtain ⟨hfits, rfl⟩ := h
  obtain ⟨n', hroom', hsize, rfl⟩ := h'
  rw [room?_arrive, Option.map_eq_some_iff] at hroom'
  obtain ⟨⟨n, fault⟩, hroom, ⟨⟩⟩ := hroom'
  have hfront := hfits n fault hroom
  refine ⟨n, hroom, ?_, ?_⟩
  · rw [ByteArray.size_append]
    omega
  · have hall : front.extract 0 n = front := by
      rw [← Nat.max_eq_left hfront]
      exact ByteArray.extract_zero_max_size
    rw [arrive_arrive, ByteArray.extract_append, hall, Nat.zero_sub]

theorem Loses.append (h : f.Loses (.stream .stdout) front fault after) (back : ByteArray) :
    f.Loses (.stream .stdout) (front ++ back) fault after := by
  obtain ⟨n, hroom, hsize, rfl⟩ := h
  refine ⟨n, hroom, ?_, ?_⟩
  · rw [ByteArray.size_append]
    omega
  · have hnone : back.extract 0 (n - front.size) = .empty := by
      rw [Nat.sub_eq_zero_of_le (Nat.le_of_lt hsize), ByteArray.extract_same]
    rw [ByteArray.extract_append, Nat.zero_sub, hnone, ByteArray.append_empty]

/-- What a path led to is a file with these octets, and nothing else has changed. -/
structure Replaced (f : Files) (path : String) (place : Place) (octets : ByteArray)
    (after : Files) : Prop where
  leads : f.sink path = .ok (.file place)
  content : after.content? place = some (.file octets)
  others : ∀ other, other ≠ place → after.content? other = f.content? other
  streams : after.stdin = f.stdin ∧ after.stdout = f.stdout ∧ after.stderr = f.stderr
  readable : f.limits.reading place = none → after.read path = (.ok octets, after)

theorem place_of_sink (h : f.sink path = .ok (.file place)) : f.place true path = .ok place := by
  obtain ⟨place', hplace, h⟩ := Outcome.bind_eq_ok.mp h
  split at h <;> cases h
  exact hplace

theorem replaced_put (h : f.sink path = .ok (.file place)) (octets : ByteArray) :
    f.Replaced path place octets (f.put place octets) where
  leads := h
  content := content?_put (place_eq_ok_iff.mp (place_of_sink h)).2.1 octets
  others _ := content?_put_of_ne octets
  streams := ⟨rfl, rfl, rfl⟩
  readable hreading := read_put (place_of_sink h) hreading octets

end GanttChart.CommandLine.Files
