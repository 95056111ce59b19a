import GanttChart.Proofs.Outcome
import GanttChart.Text.Utf8
import Mathlib.Tactic.SplitIfs

/-! # UTF-8 there and back

Octets are read as a text exactly when they are what the text is written as, so that every text
has one encoding. What a first octet says and which octets may follow it are compared with the
writing of a character, width by width. -/

namespace GanttChart.Text.Utf8

variable {n v low high more bits read index tries : Nat} {os rest left : List Nat} {c : Char}
  {cs : List Char}

/-! ## The code points of each width -/

theorem isValidChar_toNat (c : Char) : c.toNat.isValidChar := c.valid

theorem toNat_ofNat (h : v.isValidChar) : (Char.ofNat v).toNat = v := by
  rw [Char.ofNat, dif_pos h]
  rfl

theorem encodeChar_one (h : v < 0x80) : encodeChar (Char.ofNat v) = [v] := by
  have hv : (Char.ofNat v).toNat = v := toNat_ofNat (.inl (by omega))
  simp [encodeChar, hv, h]

theorem encodeChar_two (hlow : 0x80 ≤ v) (hhigh : v < 0x800) :
    encodeChar (Char.ofNat v) = [0xC0 + v / 0x40, 0x80 + v % 0x40] := by
  have hv : (Char.ofNat v).toNat = v := toNat_ofNat (.inl (by omega))
  simp [encodeChar, hv, hhigh, Nat.not_lt.mpr hlow]

theorem encodeChar_three (hlow : 0x800 ≤ v) (hhigh : v < 0x10000) (h : v.isValidChar) :
    encodeChar (Char.ofNat v) =
      [0xE0 + v / 0x1000, 0x80 + v / 0x40 % 0x40, 0x80 + v % 0x40] := by
  have hone : ¬ v < 0x80 := by omega
  simp [encodeChar, toNat_ofNat h, hone, hhigh, Nat.not_lt.mpr hlow]

theorem encodeChar_four (hlow : 0x10000 ≤ v) (h : v.isValidChar) :
    encodeChar (Char.ofNat v) =
      [0xF0 + v / 0x40000, 0x80 + v / 0x1000 % 0x40, 0x80 + v / 0x40 % 0x40, 0x80 + v % 0x40] := by
  have hone : ¬ v < 0x80 := by omega
  have htwo : ¬ v < 0x800 := by omega
  simp [encodeChar, toNat_ofNat h, hone, htwo, Nat.not_lt.mpr hlow]

/-! ## First octets -/

theorem lead?_one (h : n < 0x80) : lead? n = some ⟨n, 0, 0, 0⟩ := by simp [lead?, h]

theorem lead?_two (hlow : 0xC2 ≤ n) (hhigh : n < 0xE0) :
    lead? n = some ⟨n - 0xC0, 1, 0x80, 0xBF⟩ := by
  have hone : ¬ n < 0x80 := by omega
  simp [lead?, hone, Nat.not_lt.mpr hlow, hhigh]

/-- Of three octets the second one keeps off what two octets can say, and the surrogates. -/
theorem lead?_three (hlow : 0xE0 ≤ n) (hhigh : n < 0xF0) :
    lead? n = some ⟨n - 0xE0, 2, if n = 0xE0 then 0xA0 else 0x80,
      if n = 0xED then 0x9F else 0xBF⟩ := by
  unfold lead?
  split_ifs <;> first | omega | simp_all

/-- Of four octets the second one keeps off what three octets can say, and what lies beyond the
last code point. -/
theorem lead?_four (hlow : 0xF0 ≤ n) (hhigh : n ≤ 0xF4) :
    lead? n = some ⟨n - 0xF0, 3, if n = 0xF0 then 0x90 else 0x80,
      if n = 0xF4 then 0x8F else 0xBF⟩ := by
  unfold lead?
  split_ifs <;> first | omega | simp_all

/-- The octets that a text can begin with. -/
theorem range_of_lead? {l : Lead} (h : lead? n = some l) :
    n < 0x80 ∨ (0xC2 ≤ n ∧ n < 0xE0) ∨ (0xE0 ≤ n ∧ n < 0xF0) ∨ (0xF0 ≤ n ∧ n ≤ 0xF4) := by
  unfold lead? at h
  split_ifs at h <;> omega

/-! ## The octets that follow -/

theorem follow_succ_eq_ok_iff {r : Nat × List Nat} :
    follow low high (more + 1) bits read os = .ok r ↔
      ∃ n rest, os = n :: rest ∧ (low ≤ n ∧ n ≤ high) ∧
        follow 0x80 0xBF more (bits * 0x40 + n % 0x40) (read + 1) rest = .ok r := by
  cases os with
  | nil => simp [follow]
  | cons n rest =>
    by_cases hn : low ≤ n ∧ n ≤ high
    · simp [follow, hn]
    · simp [follow, hn]

/-! ## One character -/

theorem next_of_lead? {l : Lead} (h : lead? n = some l) (rest : List Nat) :
    next n rest = (follow l.low l.high l.more l.bits 1 rest).map fun (bits, rest) =>
      (Char.ofNat bits, rest) := by
  simp [next, h]

theorem next_one (h : v < 0x80) (rest : List Nat) : next v rest = .ok (Char.ofNat v, rest) := by
  rw [next_of_lead? (lead?_one h)]
  rfl

theorem next_two (hlow : 0x80 ≤ v) (hhigh : v < 0x800) (rest : List Nat) :
    next (0xC0 + v / 0x40) ((0x80 + v % 0x40) :: rest) = .ok (Char.ofNat v, rest) := by
  have hsecond : 0x80 ≤ 0x80 + v % 0x40 ∧ 0x80 + v % 0x40 ≤ 0xBF := by omega
  have hbits : (0xC0 + v / 0x40 - 0xC0) * 0x40 + (0x80 + v % 0x40) % 0x40 = v := by omega
  rw [next_of_lead? (lead?_two (by omega) (by omega))]
  simp only [follow, hsecond, hbits, and_self, if_true, Except.map]

theorem next_three (hlow : 0x800 ≤ v) (hhigh : v < 0x10000) (h : v.isValidChar)
    (rest : List Nat) :
    next (0xE0 + v / 0x1000) ((0x80 + v / 0x40 % 0x40) :: (0x80 + v % 0x40) :: rest) =
      .ok (Char.ofNat v, rest) := by
  have hsecond : (if 0xE0 + v / 0x1000 = 0xE0 then 0xA0 else 0x80) ≤ 0x80 + v / 0x40 % 0x40 ∧
      0x80 + v / 0x40 % 0x40 ≤ if 0xE0 + v / 0x1000 = 0xED then 0x9F else 0xBF := by
    unfold Nat.isValidChar at h
    split_ifs <;> omega
  have hthird : 0x80 ≤ 0x80 + v % 0x40 ∧ 0x80 + v % 0x40 ≤ 0xBF := by omega
  have hbits : ((0xE0 + v / 0x1000 - 0xE0) * 0x40 + (0x80 + v / 0x40 % 0x40) % 0x40) * 0x40 +
      (0x80 + v % 0x40) % 0x40 = v := by omega
  rw [next_of_lead? (lead?_three (by omega) (by omega))]
  simp only [follow, hsecond, hthird, hbits, and_self, if_true, Except.map]

theorem next_four (hlow : 0x10000 ≤ v) (h : v.isValidChar) (rest : List Nat) :
    next (0xF0 + v / 0x40000)
        ((0x80 + v / 0x1000 % 0x40) :: (0x80 + v / 0x40 % 0x40) :: (0x80 + v % 0x40) :: rest) =
      .ok (Char.ofNat v, rest) := by
  have hlast : v < 0x110000 := by
    unfold Nat.isValidChar at h
    omega
  have hsecond : (if 0xF0 + v / 0x40000 = 0xF0 then 0x90 else 0x80) ≤ 0x80 + v / 0x1000 % 0x40 ∧
      0x80 + v / 0x1000 % 0x40 ≤ if 0xF0 + v / 0x40000 = 0xF4 then 0x8F else 0xBF := by
    split_ifs <;> omega
  have hthird : 0x80 ≤ 0x80 + v / 0x40 % 0x40 ∧ 0x80 + v / 0x40 % 0x40 ≤ 0xBF := by omega
  have hfourth : 0x80 ≤ 0x80 + v % 0x40 ∧ 0x80 + v % 0x40 ≤ 0xBF := by omega
  have hbits : (((0xF0 + v / 0x40000 - 0xF0) * 0x40 + (0x80 + v / 0x1000 % 0x40) % 0x40) * 0x40 +
      (0x80 + v / 0x40 % 0x40) % 0x40) * 0x40 + (0x80 + v % 0x40) % 0x40 = v := by omega
  rw [next_of_lead? (lead?_four (by omega) (by omega))]
  simp only [follow, hsecond, hthird, hfourth, hbits, and_self, if_true, Except.map]

/-- A character is read from its octets, whatever follows them. -/
theorem next_of_encodeChar (h : n :: rest = encodeChar c ++ left) :
    next n rest = .ok (c, left) := by
  have hvalid := isValidChar_toNat c
  rw [← Char.ofNat_toNat c] at h ⊢
  generalize c.toNat = v at h hvalid
  by_cases hone : v < 0x80
  · rw [encodeChar_one hone] at h
    cases h
    exact next_one hone left
  by_cases htwo : v < 0x800
  · rw [encodeChar_two (by omega) htwo] at h
    cases h
    exact next_two (by omega) htwo left
  by_cases hthree : v < 0x10000
  · rw [encodeChar_three (by omega) hthree hvalid] at h
    cases h
    exact next_three (by omega) hthree hvalid left
  · rw [encodeChar_four (by omega) hvalid] at h
    cases h
    exact next_four (by omega) hvalid left

/-- What is read as a character is its octets. -/
theorem encodeChar_of_next (h : next n rest = .ok (c, left)) :
    n :: rest = encodeChar c ++ left := by
  cases hlead : lead? n with
  | none => simp [next, hlead] at h
  | some l =>
    rw [next_of_lead? hlead, Outcome.map_eq_ok] at h
    obtain ⟨⟨v, _⟩, hfollow, heq⟩ := h
    cases heq
    rcases range_of_lead? hlead with hone | ⟨hlow, hhigh⟩ | ⟨hlow, hhigh⟩ | ⟨hlow, hhigh⟩
    · rw [lead?_one hone] at hlead
      cases hlead
      cases hfollow
      rw [encodeChar_one hone]
      rfl
    · rw [lead?_two hlow hhigh, Option.some.injEq] at hlead
      subst hlead
      obtain ⟨b, rest, rfl, hb, hfollow⟩ := follow_succ_eq_ok_iff.mp hfollow
      simp only [follow, Except.ok.injEq, Prod.mk.injEq] at hfollow
      obtain ⟨rfl, rfl⟩ := hfollow
      simp only at hb
      rw [encodeChar_two (by omega) (by omega)]
      simp only [List.cons_append, List.nil_append, List.cons.injEq, and_true]
      omega
    · rw [lead?_three hlow hhigh, Option.some.injEq] at hlead
      subst hlead
      obtain ⟨b, rest, rfl, hb, hfollow⟩ := follow_succ_eq_ok_iff.mp hfollow
      obtain ⟨d, rest, rfl, hd, hfollow⟩ := follow_succ_eq_ok_iff.mp hfollow
      simp only [follow, Except.ok.injEq, Prod.mk.injEq] at hfollow
      obtain ⟨rfl, rfl⟩ := hfollow
      simp only at hb
      have hvalid : (((n - 0xE0) * 0x40 + b % 0x40) * 0x40 + d % 0x40).isValidChar := by
        unfold Nat.isValidChar
        split_ifs at hb <;> omega
      rw [encodeChar_three (by split_ifs at hb <;> omega) (by omega) hvalid]
      simp only [List.cons_append, List.nil_append, List.cons.injEq, and_true]
      split_ifs at hb <;> omega
    · rw [lead?_four hlow hhigh, Option.some.injEq] at hlead
      subst hlead
      obtain ⟨b, rest, rfl, hb, hfollow⟩ := follow_succ_eq_ok_iff.mp hfollow
      obtain ⟨d, rest, rfl, hd, hfollow⟩ := follow_succ_eq_ok_iff.mp hfollow
      obtain ⟨e, rest, rfl, he, hfollow⟩ := follow_succ_eq_ok_iff.mp hfollow
      simp only [follow, Except.ok.injEq, Prod.mk.injEq] at hfollow
      obtain ⟨rfl, rfl⟩ := hfollow
      simp only at hb
      have hvalid : ((((n - 0xF0) * 0x40 + b % 0x40) * 0x40 + d % 0x40) * 0x40 +
          e % 0x40).isValidChar := by
        unfold Nat.isValidChar
        split_ifs at hb <;> omega
      rw [encodeChar_four (by split_ifs at hb <;> omega) hvalid]
      simp only [List.cons_append, List.nil_append, List.cons.injEq, and_true]
      split_ifs at hb <;> omega

/-- A character has one encoding. -/
theorem next_eq_ok_iff : next n rest = .ok (c, left) ↔ n :: rest = encodeChar c ++ left :=
  ⟨encodeChar_of_next, next_of_encodeChar⟩

/-! ## Whole texts -/

@[simp] theorem encode_nil : encode [] = [] := rfl

@[simp] theorem encode_cons (c : Char) (cs : List Char) :
    encode (c :: cs) = encodeChar c ++ encode cs := rfl

theorem encode_eq_nil_iff : encode cs = [] ↔ cs = [] := by
  cases cs with
  | nil => simp
  | cons c cs => simp [encodeChar_ne_nil]

/-- A character that is read takes octets away. -/
theorem length_le_of_next (h : next n rest = .ok (c, left)) : left.length ≤ rest.length := by
  have hlength := congrArg List.length (next_eq_ok_iff.mp h)
  have hpos : 0 < (encodeChar c).length := List.length_pos_iff.mpr (encodeChar_ne_nil c)
  simp only [List.length_cons, List.length_append] at hlength
  omega

theorem cons_eq_encode_iff :
    n :: rest = encode cs ↔ ∃ c cs', next n rest = .ok (c, encode cs') ∧ c :: cs' = cs := by
  cases cs with
  | nil => simp
  | cons c cs => simp [next_eq_ok_iff]

/-- As many tries as octets are enough. -/
theorem decodeFrom_eq_ok_iff (h : os.length ≤ tries) :
    decodeFrom index tries os = .ok cs ↔ os = encode cs := by
  induction tries generalizing index os cs with
  | zero =>
    obtain rfl := List.length_eq_zero_iff.mp (Nat.le_zero.mp h)
    rw [decodeFrom, Except.ok.injEq, eq_comm, ← encode_eq_nil_iff, eq_comm]
  | succ tries ih =>
    cases os with
    | nil => rw [decodeFrom, Except.ok.injEq, eq_comm, ← encode_eq_nil_iff, eq_comm]
    | cons n rest =>
      rw [decodeFrom, cons_eq_encode_iff]
      cases hnext : next n rest with
      | error flaw => simp
      | ok r =>
        obtain ⟨c, left⟩ := r
        have hleft : left.length ≤ tries :=
          Nat.le_trans (length_le_of_next hnext) (Nat.le_of_succ_le_succ h)
        simp only [Outcome.map_eq_ok, ih hleft, Except.ok.injEq, Prod.mk.injEq]
        constructor
        · rintro ⟨cs', hcs', hcs⟩
          exact ⟨c, cs', ⟨rfl, hcs'⟩, hcs⟩
        · rintro ⟨c', cs', ⟨hc, hcs'⟩, hcs⟩
          exact ⟨cs', hcs', hc ▸ hcs⟩

/-- Octets are read as a text exactly when they are the encoding of it. -/
theorem decode_eq_ok_iff : decode os = .ok cs ↔ os = encode cs :=
  decodeFrom_eq_ok_iff (Nat.le_refl _)

theorem encode_injective : Function.Injective encode := by
  intro cs cs' h
  have hdecode := decode_eq_ok_iff.mpr h
  rw [decode_eq_ok_iff.mpr rfl] at hdecode
  exact Except.ok.inj hdecode

theorem lt_of_mem_encode (h : n ∈ encode cs) : n < 0x100 := by
  obtain ⟨c, _, hc⟩ := List.mem_flatMap.mp h
  have hvalid := isValidChar_toNat c
  unfold Nat.isValidChar at hvalid
  simp only [encodeChar] at hc
  split_ifs at hc <;> simp only [List.mem_cons, List.not_mem_nil, or_false] at hc <;> omega

end GanttChart.Text.Utf8
