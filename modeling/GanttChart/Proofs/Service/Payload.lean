import GanttChart.Proofs.Text.Cutting
import GanttChart.Proofs.Text.Utf8
import GanttChart.Service.Payload

/-! # Payloads there and back

A payload is read as a text exactly when it is what the text is written as, with any number of
equals signs behind it. Symbols stand for six bits each; groups of six bits and octets are taken
from each other in steps of four groups and three octets, and in the last step no bits are left
over. -/

namespace GanttChart.Service.Payload

variable {n octet : Nat} {os bytes sextets : List Nat} {s payload : String}

/-! ## Writing -/

/-- The symbols, in the order of the six bits that they stand for. -/
def symbols : List Char :=
  "ABCDEFGHIJKLMNOPQRSTUVWXYZabcdefghijklmnopqrstuvwxyz0123456789-_".toList

def symbol (n : Nat) : Char := symbols.getD n 'A'

/-- Groups of six bits out of octets, with zeros for the bits that no octet is left for. -/
def unpack : List Nat → List Nat
  | a :: b :: c :: rest =>
    a / 4 :: (a % 4 * 16 + b / 16) :: (b % 16 * 4 + c / 64) :: c % 64 :: unpack rest
  | [a, b] => [a / 4, a % 4 * 16 + b / 16, b % 16 * 4]
  | [a] => [a / 4, a % 4 * 16]
  | [] => []

/-- The payload of a text. -/
def encode (s : String) : String :=
  String.ofList ((unpack (Text.Utf8.encode s.toList)).map symbol)

/-- A payload with as many equals signs behind it. -/
def padded (payload : String) (count : Nat) : String :=
  payload ++ String.ofList (List.replicate count '=')

/-- A payload without the equals signs at its end. -/
def bare (payload : String) : String :=
  String.ofList (Text.trimEndBy (· == '=') payload.toList)

/-! ## Symbols -/

theorem sextet?_symbol : ∀ n < 64, sextet? (symbol n).toNat = some n := by decide +kernel

theorem symbol_of_sextet? (h : sextet? octet = some n) :
    n < 64 ∧ (symbol n).toNat = octet := by
  have hsmall : ∀ octet < 123, ∀ n ∈ sextet? octet, n < 64 ∧ (symbol n).toNat = octet := by
    decide +kernel
  refine hsmall octet ?_ n h
  by_contra hlarge
  have hnone : sextet? octet = none := by
    unfold sextet?
    repeat rw [if_neg (by omega)]
  rw [hnone] at h
  cases h

theorem encodeChar_symbol : ∀ n < 64, Text.Utf8.encodeChar (symbol n) = [(symbol n).toNat] := by
  decide +kernel

theorem symbol_ne_equals : ∀ n < 64, symbol n ≠ '=' := by decide +kernel

theorem encode_map_symbol (h : ∀ n ∈ sextets, n < 64) :
    Text.Utf8.encode (sextets.map symbol) = sextets.map fun n => (symbol n).toNat := by
  rw [Text.Utf8.encode, List.flatMap_map, List.map_eq_flatMap]
  exact List.flatMap_congr fun n hn => encodeChar_symbol n (h n hn)

/-! ## Groups of six bits -/

theorem lt_of_mem_unpack (h : ∀ o ∈ bytes, o < 0x100) : ∀ n ∈ unpack bytes, n < 64 := by
  fun_induction unpack bytes with
  | case1 a b c rest ih =>
    simp only [List.forall_mem_cons] at h ⊢
    obtain ⟨ha, hb, hc, hrest⟩ := h
    exact ⟨by omega, by omega, by omega, by omega, ih hrest⟩
  | case2 a b =>
    simp only [List.forall_mem_cons] at h ⊢
    exact ⟨by omega, by omega, by omega, by simp⟩
  | case3 a =>
    simp only [List.forall_mem_cons] at h ⊢
    exact ⟨by omega, by omega, by simp⟩
  | case4 => simp

/-- Nothing is lost when octets are taken apart, and no bits are left over. -/
theorem pack_unpack (h : ∀ o ∈ bytes, o < 0x100) :
    pack (unpack bytes) = bytes ∧ spare (unpack bytes) = 0 ∧ (unpack bytes).length % 4 ≠ 1 := by
  fun_induction unpack bytes with
  | case1 a b c rest ih =>
    simp only [List.forall_mem_cons] at h
    obtain ⟨ha, hb, hc, hrest⟩ := h
    obtain ⟨hpack, hspare, hlength⟩ := ih hrest
    refine ⟨?_, hspare, ?_⟩
    · simp only [pack, hpack, List.cons.injEq, and_true]
      omega
    · simp only [List.length_cons]
      omega
  | case2 a b =>
    simp only [List.forall_mem_cons] at h
    simp only [pack, spare, List.cons.injEq, and_true, List.length_cons, List.length_nil]
    omega
  | case3 a =>
    simp only [List.forall_mem_cons] at h
    simp only [pack, spare, List.cons.injEq, and_true, List.length_cons, List.length_nil]
    omega
  | case4 => simp [pack, spare]

/-- Groups of six bits that leave no bits over come out of the octets that they make up. -/
theorem unpack_pack (h : ∀ n ∈ sextets, n < 64) (hlength : sextets.length % 4 ≠ 1)
    (hspare : spare sextets = 0) :
    (∀ o ∈ pack sextets, o < 0x100) ∧ unpack (pack sextets) = sextets := by
  fun_induction pack sextets with
  | case1 a b c d rest ih =>
    simp only [List.forall_mem_cons] at h
    obtain ⟨ha, hb, hc, hd, hrest⟩ := h
    simp only [List.length_cons] at hlength
    obtain ⟨hoctets, hunpack⟩ := ih hrest (by omega) hspare
    simp only [List.forall_mem_cons, unpack, hunpack, List.cons.injEq, and_true]
    exact ⟨⟨by omega, by omega, by omega, hoctets⟩, by omega⟩
  | case2 a b c =>
    simp only [List.forall_mem_cons] at h
    simp only [spare] at hspare
    simp only [List.forall_mem_cons, unpack, List.cons.injEq, and_true]
    refine ⟨⟨by omega, by omega, by simp⟩, by omega⟩
  | case3 a b =>
    simp only [List.forall_mem_cons] at h
    simp only [spare] at hspare
    simp only [List.forall_mem_cons, unpack, List.cons.injEq, and_true]
    refine ⟨⟨by omega, by simp⟩, by omega⟩
  | case4 sextets hfour hthree htwo =>
    match sextets with
    | [] => simp [unpack]
    | [a] => simp at hlength
    | [a, b] => exact absurd rfl (htwo a b)
    | [a, b, c] => exact absurd rfl (hthree a b c)
    | a :: b :: c :: d :: rest => exact absurd rfl (hfour a b c d rest)

/-! ## Octets -/

theorem wrongSymbol?_eq_none_iff :
    wrongSymbol? os = none ↔ ∀ octet ∈ os, (sextet? octet).isSome := by
  have hwrong : (os.zipIdx.filter fun p => (sextet? p.1).isNone) = [] ↔
      ∀ octet ∈ os, (sextet? octet).isSome := by
    have hfirst := List.forall_mem_map (f := Prod.fst) (l := os.zipIdx)
      (P := fun octet => (sextet? octet).isSome)
    rw [List.zipIdx_map_fst] at hfirst
    rw [hfirst, List.filter_eq_nil_iff]
    simp [Option.isSome_iff_ne_none]
  rw [← hwrong, wrongSymbol?]
  split_ifs
  · exact List.getLast?_eq_none_iff
  · exact List.head?_eq_none_iff

theorem filterMap_sextet?_map_symbol (h : ∀ n ∈ sextets, n < 64) :
    (sextets.map fun n => (symbol n).toNat).filterMap sextet? = sextets := by
  rw [List.filterMap_map]
  refine (List.filterMap_congr fun n hn => ?_).trans List.filterMap_some
  exact sextet?_symbol n (h n hn)

/-- Octets that all are symbols are the symbols of groups of six bits. -/
theorem exists_map_symbol (h : ∀ octet ∈ os, (sextet? octet).isSome) :
    ∃ sextets : List Nat, (∀ n ∈ sextets, n < 64) ∧ os = sextets.map fun n => (symbol n).toNat := by
  induction os with
  | nil => exact ⟨[], by simp, rfl⟩
  | cons octet os ih =>
    rw [List.forall_mem_cons] at h
    obtain ⟨sextets, hsextets, rfl⟩ := ih h.2
    obtain ⟨n, hn⟩ := Option.isSome_iff_exists.mp h.1
    obtain ⟨hlt, hsymbol⟩ := symbol_of_sextet? hn
    exact ⟨n :: sextets, List.forall_mem_cons.mpr ⟨hlt, hsextets⟩, by rw [List.map_cons, hsymbol]⟩

theorem octets_map_symbol (h : ∀ n ∈ sextets, n < 64) :
    octets (sextets.map fun n => (symbol n).toNat) = .ok bytes ↔
      sextets.length % 4 ≠ 1 ∧ spare sextets = 0 ∧ pack sextets = bytes := by
  have hall : ∀ octet ∈ sextets.map fun n => (symbol n).toNat, (sextet? octet).isSome := by
    rw [List.forall_mem_map]
    exact fun n hn => by rw [sextet?_symbol n (h n hn), Option.isSome_some]
  rw [octets, wrongSymbol?_eq_none_iff.mpr hall]
  simp only [filterMap_sextet?_map_symbol h, List.length_map]
  split_ifs with hlength hspare
  · simp [hlength]
  · simp [hspare]
  · simp [hlength, Decidable.not_not.mp hspare]

/-- What is read as octets is the symbols that the octets are written as. -/
theorem octets_eq_ok_iff : octets os = .ok bytes ↔
    (∀ o ∈ bytes, o < 0x100) ∧ os = (unpack bytes).map fun n => (symbol n).toNat := by
  constructor
  · intro h
    have hall : ∀ octet ∈ os, (sextet? octet).isSome := by
      rw [← wrongSymbol?_eq_none_iff]
      cases hwrong : wrongSymbol? os with
      | none => rfl
      | some wrong => simp [octets, hwrong] at h
    obtain ⟨sextets, hlt, rfl⟩ := exists_map_symbol hall
    obtain ⟨hlength, hspare, rfl⟩ := (octets_map_symbol hlt).mp h
    obtain ⟨hbytes, hunpack⟩ := unpack_pack hlt hlength hspare
    exact ⟨hbytes, by rw [hunpack]⟩
  · rintro ⟨hbytes, rfl⟩
    obtain ⟨hpack, hspare, hlength⟩ := pack_unpack hbytes
    exact (octets_map_symbol (lt_of_mem_unpack hbytes)).mpr ⟨hlength, hspare, hpack⟩

/-! ## Texts -/

theorem lt_of_mem_unpack_encode : ∀ n ∈ unpack (Text.Utf8.encode s.toList), n < 64 :=
  lt_of_mem_unpack fun _ => Text.Utf8.lt_of_mem_encode

/-- The octets of a written payload are its symbols. -/
theorem encode_toList_encode (s : String) : Text.Utf8.encode (encode s).toList =
    (unpack (Text.Utf8.encode s.toList)).map fun n => (symbol n).toNat := by
  rw [encode, String.toList_ofList, encode_map_symbol lt_of_mem_unpack_encode]

theorem decode_eq_ok_iff : decode payload = .ok s ↔ bare payload = encode s := by
  have hbare : bare payload = encode s ↔
      Text.trimEndBy (· == '=') payload.toList = (encode s).toList := by
    rw [bare, ← String.toList_inj, String.toList_ofList]
  rw [hbare, ← Text.Utf8.encode_injective.eq_iff, encode_toList_encode, decode]
  constructor
  · intro h
    split at h
    · cases h
    · rename_i bytes hbytes
      split at h
      · rename_i cs hcs
        cases h
        rw [Text.Utf8.decode_eq_ok_iff.mp hcs] at hbytes
        rw [(octets_eq_ok_iff.mp hbytes).2, String.toList_ofList]
      · cases h
  · intro h
    have hoctets : octets (Text.Utf8.encode (Text.trimEndBy (· == '=') payload.toList)) =
        .ok (Text.Utf8.encode s.toList) :=
      octets_eq_ok_iff.mpr ⟨fun _ => Text.Utf8.lt_of_mem_encode, h⟩
    have hcs : Text.Utf8.decode (Text.Utf8.encode s.toList) = .ok s.toList :=
      Text.Utf8.decode_eq_ok_iff.mpr rfl
    simp [hoctets, hcs]

theorem bare_padded_encode (s : String) (count : Nat) :
    bare (padded (encode s) count) = encode s := by
  have hequals : ∀ c ∈ List.replicate count '=', (c == '=') = true := by
    intro c hc
    rw [List.eq_of_mem_replicate hc, beq_self_eq_true]
  have hsymbols : ∀ c ∈ (encode s).toList.getLast?, (c == '=') = false := by
    intro c hc
    have hmem := List.mem_of_getLast? hc
    rw [encode, String.toList_ofList, List.mem_map] at hmem
    obtain ⟨n, hn, rfl⟩ := hmem
    simpa using symbol_ne_equals n (lt_of_mem_unpack_encode n hn)
  rw [bare, padded, String.toList_append, String.toList_ofList,
    Text.trimEndBy_append hequals hsymbols, String.ofList_toList]

/-- A payload is read as a text exactly when, without the equals signs at its end, it is what the
text is written as. So every text comes back from its payload with any padding behind it, and the
payloads of one text differ in nothing but padding. -/
theorem decode_exact (payload s : String) :
    (decode payload = .ok s ↔ bare payload = encode s) ∧
      (∀ count, decode (padded (encode s) count) = .ok s) ∧
      ∀ other, decode payload = .ok s → decode other = .ok s → bare payload = bare other := by
  refine ⟨decode_eq_ok_iff, fun count => ?_, fun other h hother => ?_⟩
  · exact decode_eq_ok_iff.mpr (bare_padded_encode s count)
  · rw [decode_eq_ok_iff.mp h, decode_eq_ok_iff.mp hother]

/-- The two octets of one letter, with padding and without it. -/
theorem accent_decode_exact :
    decode "w6k=" = .ok "\u00e9" ∧ decode "w6k" = .ok "\u00e9" ∧ bare "w6k=" = bare "w6k" := by
  have hpadded : decode "w6k=" = .ok "\u00e9" := rfl
  have hbare : decode "w6k" = .ok "\u00e9" := rfl
  exact ⟨hpadded, hbare, (decode_exact "w6k=" "\u00e9").2.2 "w6k" hpadded hbare⟩

/-- The last symbol has bits that belong to no octet, so that this is no payload of any text. -/
example : decode "w6l" = .error (.invalidLastSymbol 108 2) := rfl

end GanttChart.Service.Payload
