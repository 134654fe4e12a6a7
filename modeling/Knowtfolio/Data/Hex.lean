import Mathlib.Data.List.Basic
import Mathlib.Tactic.IntervalCases

/-!
# Text as bytes, and hexadecimal

The UTF-8 bytes of a text (`utf8`), the text of ASCII bytes (`ascii`), and
hexadecimal: the digits of a byte string, each in a case of its own choice
(`encode`), a decoder that stops at the first fault (`decodePrefix`) and one
that reports it (`decode`). Decoding what was encoded, in whatever case, gives
the bytes back (`decodePrefix_encode`).
-/

namespace Hex

/-- The UTF-8 bytes of a text. -/
def utf8 (s : String) : List UInt8 := s.toUTF8.data.toList

/-- The text of ASCII bytes. -/
def ascii (bs : List UInt8) : String := String.ofList (bs.map fun b => Char.ofNat b.toNat)

/-- A text is encoded character by character. -/
theorem utf8_ofList (l : List Char) :
    utf8 (String.ofList l) = l.flatMap String.utf8EncodeChar := by
  simp [utf8, String.toUTF8, String.toByteArray_ofList, List.utf8Encode]

/-- Texts are encoded one after the other. -/
theorem utf8_append (s t : String) : utf8 (s ++ t) = utf8 s ++ utf8 t := by
  rw [utf8, String.toUTF8, String.toByteArray_append, ByteArray.data_append, Array.toList_append]
  rfl

/-- The bytes determine the text. -/
theorem utf8_injective {s t : String} (h : utf8 s = utf8 t) : s = t :=
  String.toByteArray_inj.1 (ByteArray.ext (Array.toList_inj.1 h))

/-- An ASCII character is one byte. -/
theorem utf8EncodeChar_ofNat {b : UInt8} (h : b < 128) :
    String.utf8EncodeChar (Char.ofNat b.toNat) = [b] := by
  have hb : b.toNat < 128 := h
  have hv : (Char.ofNat b.toNat).val.toNat = b.toNat := by
    rw [Char.ofNat, dif_pos (.inl (by omega))]
    rfl
  have hs : (Char.ofNat b.toNat).utf8Size = 1 := by
    rw [Char.utf8Size, if_pos]
    rw [UInt32.le_iff_toNat_le, hv]
    exact Nat.le_of_lt_succ hb
  rw [String.utf8EncodeChar_eq_singleton hs]
  congr 1
  apply UInt8.toNat_inj.1
  rw [UInt32.toNat_toUInt8, hv]
  omega

/-- ASCII text is read back as its bytes. -/
theorem utf8_ascii {bs : List UInt8} (h : ∀ b ∈ bs, b < 128) : utf8 (ascii bs) = bs := by
  rw [ascii, utf8_ofList]
  induction bs with
  | nil => rfl
  | cons b bs ih =>
    rw [List.map_cons, List.flatMap_cons, utf8EncodeChar_ofNat (h b List.mem_cons_self),
      ih fun b' hb' => h b' (List.mem_cons_of_mem _ hb')]
    rfl

/-! ## Digits -/

/-- The digit of `n`, a letter in upper or lower case. -/
def digit (upper : Bool) (n : ℕ) : UInt8 :=
  if n < 10 then UInt8.ofNat (48 + n)
  else if upper then UInt8.ofNat (55 + n)
  else UInt8.ofNat (87 + n)

/-- The value of a digit, in either case. -/
def value (b : UInt8) : Option ℕ :=
  if 48 ≤ b ∧ b ≤ 57 then some (b.toNat - 48)
  else if 97 ≤ b ∧ b ≤ 102 then some (b.toNat - 87)
  else if 65 ≤ b ∧ b ≤ 70 then some (b.toNat - 55)
  else none

/-- A digit, in either case, is read as its value. -/
theorem value_digit {upper : Bool} {n : ℕ} (hn : n < 16) : value (digit upper n) = some n := by
  interval_cases n <;> cases upper <;> rfl

/-- Digits are ASCII. -/
theorem digit_lt {upper : Bool} {n : ℕ} (hn : n < 16) : digit upper n < 128 := by
  interval_cases n <;> cases upper <;> decide

/-- The half bytes of a byte string, the high half of each byte first. -/
def halves (bs : List UInt8) : List ℕ := bs.flatMap fun b => [b.toNat / 16, b.toNat % 16]

/-- Half a byte has one digit. -/
theorem halves_lt {bs : List UInt8} {n : ℕ} (h : n ∈ halves bs) : n < 16 := by
  obtain ⟨b, _, hn⟩ := List.mem_flatMap.1 h
  have := b.toNat_lt
  rcases List.mem_cons.1 hn with rfl | hn
  · omega
  · rw [List.mem_singleton.1 hn]; omega

@[simp] theorem length_halves (bs : List UInt8) : (halves bs).length = 2 * bs.length := by
  induction bs with
  | nil => rfl
  | cons b bs ih => simp only [halves, List.flatMap_cons] at ih ⊢; simp [ih]; omega

/-- The digits of a byte string, the letter at the place `i` being in upper case
    if `upper i`. -/
def encode (upper : ℕ → Bool) (bs : List UInt8) : List UInt8 :=
  (halves bs).mapIdx fun i n => digit (upper i) n

/-- Digits are ASCII. -/
theorem encode_lt {upper : ℕ → Bool} {bs : List UInt8} : ∀ b ∈ encode upper bs, b < 128 := by
  intro b hb
  obtain ⟨i, hi, rfl⟩ := List.mem_mapIdx.1 hb
  exact digit_lt (halves_lt (List.getElem_mem hi))

@[simp] theorem length_encode (upper : ℕ → Bool) (bs : List UInt8) :
    (encode upper bs).length = 2 * bs.length := by
  simp [encode]

/-- What is written is read digit by digit. -/
theorem map_value_encode (upper : ℕ → Bool) (bs : List UInt8) :
    (encode upper bs).map value = (halves bs).map some := by
  apply List.ext_getElem (by simp)
  intro i h₁ h₂
  simp only [encode, List.getElem_map, List.getElem_mapIdx]
  exact value_digit (halves_lt (List.getElem_mem _))

/-! ## Decoding -/

/-- The bytes decoded before the first fault. -/
def decodePrefix : List UInt8 → List UInt8
  | a :: b :: ds =>
    match value a, value b with
    | some x, some y => UInt8.ofNat (16 * x + y) :: decodePrefix ds
    | _, _ => []
  | _ => []

/-- Digits of the values of a byte string decode to it. -/
theorem decodePrefix_of_map_value {ds bs : List UInt8}
    (h : ds.map value = (halves bs).map some) : decodePrefix ds = bs := by
  induction bs generalizing ds with
  | nil =>
    rw [List.map_eq_nil_iff.1 (h : ds.map value = [])]
    rfl
  | cons b bs ih =>
    match ds, h with
    | [a], h => simp [halves] at h
    | a :: a' :: ds, h =>
      simp only [halves, List.flatMap_cons, List.map_cons, List.cons_append, List.nil_append,
        List.cons.injEq] at h
      obtain ⟨ha, ha', h⟩ := h
      rw [decodePrefix, ha, ha']
      simp only [ih h, List.cons.injEq, and_true]
      rw [Nat.div_add_mod, UInt8.ofNat_toNat]

/-- What is written in hexadecimal is read back. -/
theorem decodePrefix_encode (upper : ℕ → Bool) (bs : List UInt8) :
    decodePrefix (encode upper bs) = bs :=
  decodePrefix_of_map_value (map_value_encode upper bs)

/-- Digits of the same values decode to the same bytes. -/
theorem decodePrefix_congr {ds ds' : List UInt8} (h : ds.map value = ds'.map value) :
    decodePrefix ds = decodePrefix ds' := by
  -- The decoder looks at the values of the digits only, two digits at a time.
  induction ds using decodePrefix.induct generalizing ds' with
  | case1 a b ds x y ha hb ih =>
    match ds', h with
    | a' :: b' :: ds', h =>
      simp only [List.map_cons, List.cons.injEq] at h
      obtain ⟨ha', hb', h⟩ := h
      rw [decodePrefix, decodePrefix, ← ha', ← hb', ha, hb]
      exact congrArg _ (ih h)
    | [_], h => simp at h
  | case2 a b ds hab =>
    match ds', h with
    | a' :: b' :: ds', h =>
      simp only [List.map_cons, List.cons.injEq] at h
      obtain ⟨ha', hb', -⟩ := h
      rw [decodePrefix, decodePrefix, ← ha', ← hb']
      split
      next x y ha hb => exact absurd hb (hab x y ha)
      next => rfl
    | [_], h => simp at h
  | case3 ds hds =>
    have hlength : ds.length = ds'.length := by simpa using congrArg List.length h
    match ds, ds', hlength with
    | [], [], _ => rfl
    | [_], [_], _ => rfl
    | a :: b :: ds, _, _ => exact absurd rfl (hds a b ds)

/-- The characters that are hexadecimal digits. -/
def digitChars : List Char := "0123456789abcdefABCDEF".toList

/-- A digit is one byte. -/
theorem utf8EncodeChar_of_mem {c : Char} (hc : c ∈ digitChars) :
    String.utf8EncodeChar c = [UInt8.ofNat c.toNat] := by
  have hall : digitChars.all
      (fun c => String.utf8EncodeChar c = [UInt8.ofNat c.toNat]) = true := by decide
  exact of_decide_eq_true (List.all_eq_true.1 hall c hc)

/-- Digits that differ in their case only have the same value. -/
theorem value_eq_of_toLower {c c' : Char} (hc : c ∈ digitChars) (hc' : c' ∈ digitChars)
    (h : c.toLower = c'.toLower) : value (UInt8.ofNat c.toNat) = value (UInt8.ofNat c'.toNat) := by
  have hall : digitChars.all (fun c => digitChars.all fun c' =>
      c.toLower = c'.toLower → value (UInt8.ofNat c.toNat) = value (UInt8.ofNat c'.toNat)) =
        true := by decide
  exact of_decide_eq_true (List.all_eq_true.1 (List.all_eq_true.1 hall c hc) c' hc') h

/-- The case of digits does not matter. -/
theorem map_value_eq_of_toLower {l l' : List Char} (hl : ∀ c ∈ l, c ∈ digitChars)
    (hl' : ∀ c ∈ l', c ∈ digitChars) (h : l.map Char.toLower = l'.map Char.toLower) :
    (l.map fun c => UInt8.ofNat c.toNat).map value =
      (l'.map fun c => UInt8.ofNat c.toNat).map value := by
  induction l generalizing l' with
  | nil =>
    cases l' with
    | nil => rfl
    | cons c' l' => cases h
  | cons c l ih =>
    cases l' with
    | nil => cases h
    | cons c' l' =>
      rw [List.forall_mem_cons] at hl hl'
      obtain ⟨hc, hrest⟩ := List.cons.inj h
      simp only [List.map_cons]
      rw [ih hl.2 hl'.2 hrest, value_eq_of_toLower hl.1 hl'.1 hc]

/-- Why digits do not decode: one is not a digit, or there is an odd number. -/
inductive Fault
  | invalidByte
  | length
  deriving DecidableEq, Repr

/-- The bytes of the digits, or the first fault. -/
def decode : List UInt8 → Except Fault (List UInt8)
  | [] => .ok []
  | [a] => if (value a).isSome then .error .length else .error .invalidByte
  | a :: b :: ds =>
    match value a, value b with
    | some x, some y => (decode ds).map (UInt8.ofNat (16 * x + y) :: ·)
    | _, _ => .error .invalidByte

/-- An even number of digits, and nothing else, decodes, two digits to a byte. -/
theorem exists_decode_iff {ds : List UInt8} {n : ℕ} :
    (∃ bs, decode ds = .ok bs ∧ bs.length = n) ↔
      (∀ d ∈ ds, (value d).isSome = true) ∧ ds.length = 2 * n := by
  -- Two digits at a time, as the decoder reads them: nothing, one left over, a pair, no pair.
  induction ds using decode.induct generalizing n with
  | case1 =>
    have hn : 0 = n ↔ 0 = 2 * n := by omega
    simpa [decode] using hn
  | case2 a ha =>
    simp only [decode, ha, if_true, reduceCtorEq, false_and, exists_false, List.length_singleton,
      false_iff, not_and]
    omega
  | case3 a ha => simp [decode, ha]
  | case4 a b ds x y hx hy ih =>
    simp only [decode, hx, hy, List.forall_mem_cons, Option.isSome_some, true_and,
      List.length_cons]
    cases n with
    | zero => cases decode ds <;> simp [Except.map]
    | succ n =>
      have hlength : ds.length + 1 + 1 = 2 * (n + 1) ↔ ds.length = 2 * n := by omega
      rw [hlength, ← ih]
      cases decode ds <;> simp [Except.map]
  | case5 a b ds h =>
    have hdecode : decode (a :: b :: ds) = .error .invalidByte := by
      rw [decode]
      split
      next x y hx hy => exact absurd hy (h x y hx)
      next => rfl
    simp only [hdecode, reduceCtorEq, false_and, exists_false, List.forall_mem_cons, false_iff]
    rintro ⟨⟨ha, hb, -⟩, -⟩
    obtain ⟨x, hx⟩ := Option.isSome_iff_exists.1 ha
    obtain ⟨y, hy⟩ := Option.isSome_iff_exists.1 hb
    exact h x y hx hy

end Hex
