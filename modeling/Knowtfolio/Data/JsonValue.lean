import Mathlib.Data.List.TakeWhile
import Knowtfolio.Data.Json

/-!
# Values in JSON

Any value of JSON (`Json.Value`), read as Go's decoder does it: with spaces between the
tokens, texts with all their escapes, of which two together make a character outside the
first plane, numbers by their grammar, and arrays and objects in each other up to a depth
(`Json.readValue`). An object keeps its members in their order, and there may be more than
one of a name.

A text that is written as a value is read as the value (`Written`), whatever comes after it
that does not go on with a number. In which way its characters are escaped does not matter,
if each of them can be read (`Escapes`). Texts, numbers, arrays and objects are written as
values if their parts are (`written_string`, `written_number`, `written_array`,
`written_object`).

A struct has what the members of an object give its fields, the name of which is compared
without case (`stringField`). A null leaves a field, and a struct, as they were.
-/

namespace Json

/-- A value. -/
inductive Value
  | null
  | bool (b : Bool)
  | number (text : List Char)
  | string (s : String)
  | array (items : List Value)
  | object (members : List (String × Value))

/-! ## Texts -/

/-- A character of a text, or the number in an escape, which is one of UTF-16. -/
inductive CodeUnit
  | char (c : Char)
  | code (n : ℕ)

/-- The value of a hexadecimal digit, if it is one. -/
def hexDigit (c : Char) : Option ℕ :=
  if '0' ≤ c ∧ c ≤ '9' then some (c.toNat - 48)
  else if 'a' ≤ c ∧ c ≤ 'f' then some (c.toNat - 87)
  else if 'A' ≤ c ∧ c ≤ 'F' then some (c.toNat - 55)
  else none

/-- The number of four hexadecimal digits. -/
def hexCode (d₃ d₂ d₁ d₀ : Char) : Option ℕ := do
  let n₃ ← hexDigit d₃
  let n₂ ← hexDigit d₂
  let n₁ ← hexDigit d₁
  let n₀ ← hexDigit d₀
  pure (4096 * n₃ + 256 * n₂ + 16 * n₁ + n₀)

/-- The character that one stands for behind a backslash. -/
def escaped (c : Char) : Option Char :=
  if c = 'b' then some '\x08' else if c = 'f' then some '\x0c' else unescape c

/-- The units up to the end of a text. -/
def readUnits : Reader (List CodeUnit)
  | [] => none
  | c :: cs =>
    if c = '"' then some ([], cs)
    else if c = '\\' then
      match cs with
      | 'u' :: d₃ :: d₂ :: d₁ :: d₀ :: cs => (hexCode d₃ d₂ d₁ d₀).bind fun n =>
        (readUnits cs).map fun r => (.code n :: r.1, r.2)
      | e :: cs => (escaped e).bind fun c => (readUnits cs).map fun r => (.char c :: r.1, r.2)
      | [] => none
    else if c.toNat < 32 then none
    else (readUnits cs).map fun r => (.char c :: r.1, r.2)

/-- What stands for a number that is none of a character. -/
def replacement : Char := '\ufffd'

/-- The number is the first half of a character. -/
def IsHigh (n : ℕ) : Prop := 0xd800 ≤ n ∧ n < 0xdc00

/-- The number is the second half of a character. -/
def IsLow (n : ℕ) : Prop := 0xdc00 ≤ n ∧ n < 0xe000

instance (n : ℕ) : Decidable (IsHigh n) := inferInstanceAs (Decidable (_ ∧ _))

instance (n : ℕ) : Decidable (IsLow n) := inferInstanceAs (Decidable (_ ∧ _))

/-- The character of two halves. -/
def joined (n m : ℕ) : Char := Char.ofNat (0x10000 + 0x400 * (n - 0xd800) + (m - 0xdc00))

/-- The characters of units. -/
def combine : List CodeUnit → List Char
  | [] => []
  | .char c :: us => c :: combine us
  | .code n :: us =>
    if IsHigh n then
      match us with
      | .code m :: us' =>
        if IsLow m then joined n m :: combine us' else replacement :: combine (.code m :: us')
      | us => replacement :: combine us
    else if IsLow n then replacement :: combine us
    else Char.ofNat n :: combine us

/-- A text. -/
def readText : Reader String := fun s => do
  let (_, s) ← token ['"'] s
  let (us, s) ← readUnits s
  pure (String.ofList (combine us), s)

/-! ## Numbers -/

/-- A character that may be one of a number. -/
def isNumberChar (c : Char) : Bool := c.isDigit || ['+', '-', '.', 'e', 'E'].contains c

/-- The exponent of a number, or nothing. -/
def isExponent : List Char → Bool
  | [] => true
  | c :: cs =>
    let digits := if cs.head? = some '+' ∨ cs.head? = some '-' then cs.tail else cs
    (c = 'e' || c = 'E') && !digits.isEmpty && digits.all Char.isDigit

/-- The fraction and the exponent of a number, or nothing. -/
def isFraction (cs : List Char) : Bool :=
  if cs.head? = some '.' then
    !(cs.tail.takeWhile Char.isDigit).isEmpty && isExponent (cs.tail.dropWhile Char.isDigit)
  else isExponent cs

/-- A number: a sign, digits without zeros before them, a fraction and an exponent. -/
def isNumber (text : List Char) : Bool :=
  let unsigned := if text.head? = some '-' then text.tail else text
  let digits := unsigned.takeWhile Char.isDigit
  !digits.isEmpty && (digits.head? ≠ some '0' || digits = ['0']) &&
    isFraction (unsigned.dropWhile Char.isDigit)

/-- A number. -/
def readNumber : Reader Value := fun s =>
  let text := s.takeWhile isNumberChar
  if isNumber text then some (.number text, s.dropWhile isNumberChar) else none

/-! ## Values -/

/-- A space between tokens. -/
def isSpace (c : Char) : Bool := c = ' ' || c = '\t' || c = '\r' || c = '\n'

/-- What is left after the spaces. -/
def skip (s : List Char) : List Char := s.dropWhile isSpace

/-- The reader, with the spaces around what it reads. -/
def spaced {α : Type} (r : Reader α) : Reader α := fun s =>
  (r (skip s)).map fun p => (p.1, skip p.2)

/-- A value that is no array and no object. -/
def readScalar : Reader Value := fun s =>
  ((token ['n', 'u', 'l', 'l'] s).map fun r => (.null, r.2)) <|>
  ((token ['t', 'r', 'u', 'e'] s).map fun r => (.bool true, r.2)) <|>
  ((token ['f', 'a', 'l', 's', 'e'] s).map fun r => (.bool false, r.2)) <|>
  ((readText s).map fun r => (.string r.1, r.2)) <|>
  readNumber s

/-- A member of an object. -/
def readField (value : Reader Value) : Reader (String × Value) := fun s => do
  let (name, s) ← readText s
  let (_, s) ← token [':'] (skip s)
  let (v, s) ← value (skip s)
  pure ((name, v), s)

/-- A value, in which not more than `n` arrays and objects are in each other. -/
def readValue : ℕ → Reader Value
  | 0, s => readScalar s
  | _ + 1, [] => none
  | n + 1, c :: s =>
    if c = '[' then
      (readSequence ']' (spaced (readValue n)) (skip s)).map fun r => (.array r.1, r.2)
    else if c = '\x7b' then
      (readSequence '\x7d' (spaced (readField (readValue n))) (skip s)).map fun r =>
        (.object r.1, r.2)
    else readScalar (c :: s)

/-! ## What is written -/

/-- How a text is written, if that is how its characters are. -/
def quoteBy (escape : Char → List Char) (s : String) : List Char :=
  '"' :: s.toList.flatMap escape ++ ['"']

/-- How a member of an object is written, if that is how its value is. -/
def writeField (escape : Char → List Char) (name : String) (value : List Char) : List Char :=
  quoteBy escape name ++ ':' :: value

/-- The unit is one for the character. -/
inductive CodeUnit.IsFor (c : Char) : CodeUnit → Prop
  | char : IsFor c (.char c)
  | code : c.toNat < 0x10000 → IsFor c (.code c.toNat)

/-- A way to write characters, each of which is read as a unit. -/
def Escapes (escape : Char → List Char) : Prop :=
  ∀ c, ∃ u, CodeUnit.IsFor c u ∧ ∀ s, readUnits (escape c ++ s) =
    (readUnits s).map fun r => (u :: r.1, r.2)

/-- Units for characters are those characters. -/
theorem combine_cons {c : Char} {u : CodeUnit} (h : CodeUnit.IsFor c u) (us : List CodeUnit) :
    combine (u :: us) = c :: combine us := by
  cases h with
  | char => rfl
  | code hlt =>
    -- A character is no half of one.
    have hvalid : ¬ IsHigh c.toNat ∧ ¬ IsLow c.toNat := by
      have hc : c.toNat < 0xd800 ∨ 0xdfff < c.toNat ∧ c.toNat < 0x110000 := c.valid
      unfold IsHigh IsLow
      omega
    rw [combine.eq_def]
    dsimp only
    rw [if_neg hvalid.1, if_neg hvalid.2, Char.ofNat_toNat]

/-- A text is read back, if what it was escaped by escapes. -/
theorem reads_readText {escape : Char → List Char} (h : Escapes escape) (s : String) :
    Reads readText (quoteBy escape s) s := by
  have hunits : ∀ cs rest : List Char, ∃ us, combine us = cs ∧
      readUnits (cs.flatMap escape ++ '"' :: rest) = some (us, rest) := by
    intro cs rest
    induction cs with
    | nil => exact ⟨[], rfl, by rw [List.flatMap_nil, List.nil_append, readUnits.eq_def]; rfl⟩
    | cons c cs ih =>
      obtain ⟨us, hus, hread⟩ := ih
      obtain ⟨u, hu, hc⟩ := h c
      refine ⟨u :: us, by rw [combine_cons hu, hus], ?_⟩
      rw [List.flatMap_cons, List.append_assoc, hc, hread]
      rfl
  intro rest
  obtain ⟨us, hus, hread⟩ := hunits s.toList rest
  simp [readText, quoteBy, hread, hus]

/-- A hexadecimal digit as it is written. -/
theorem hexDigit_digit : ∀ n < 16, hexDigit (digit n) = some n := by decide

/-- An escape that is no number. -/
theorem readUnits_escaped {c e : Char} (hne : e ≠ 'u') (h : escaped e = some c) (s : List Char) :
    readUnits ('\\' :: e :: s) = (readUnits s).map fun r => (.char c :: r.1, r.2) := by
  rw [readUnits.eq_def]
  simp [hne, h]

/-- An escape that is a number. -/
theorem readUnits_code {n : ℕ} (hn : n < 0x10000) (s : List Char) :
    readUnits ('\\' :: 'u' :: digit (n / 4096) :: digit (n / 256 % 16) :: digit (n / 16 % 16) ::
      digit (n % 16) :: s) = (readUnits s).map fun r => (.code n :: r.1, r.2) := by
  have hcode : hexCode (digit (n / 4096)) (digit (n / 256 % 16)) (digit (n / 16 % 16))
      (digit (n % 16)) = some n := by
    simp only [hexCode, hexDigit_digit (n / 4096) (by omega),
      hexDigit_digit (n / 256 % 16) (by omega), hexDigit_digit (n / 16 % 16) (by omega),
      hexDigit_digit (n % 16) (by omega), Option.bind_eq_bind, Option.bind_some, Option.pure_def]
    congr 1
    omega
  rw [readUnits.eq_def]
  simp [hcode]

/-- A character that is not escaped. -/
theorem readUnits_self {c : Char} (hquote : c ≠ '"') (hescape : c ≠ '\\') (hc : 32 ≤ c.toNat)
    (s : List Char) : readUnits (c :: s) = (readUnits s).map fun r => (.char c :: r.1, r.2) := by
  rw [readUnits.eq_def]
  simp [hquote, hescape, Nat.not_lt.2 hc]

/-- Characters are escaped as JSON has it. -/
theorem escapes_escapeChar : Escapes escapeChar := by
  intro c
  unfold escapeChar
  split_ifs with h1 h2 h3 h4 h5 h6
  · exact ⟨_, .char, readUnits_escaped (by decide) (by rw [h1]; rfl)⟩
  · exact ⟨_, .char, readUnits_escaped (by decide) (by rw [h2]; rfl)⟩
  · exact ⟨_, .char, readUnits_escaped (by decide) (by rw [h3]; rfl)⟩
  · exact ⟨_, .char, readUnits_escaped (by decide) (by rw [h4]; rfl)⟩
  · exact ⟨_, .char, readUnits_escaped (by decide) (by rw [h5]; rfl)⟩
  · have hlt : c.toNat < 0x10000 := by
      rcases h6 with h6 | h6
      · omega
      · exact toNat_lt_of_isHtml h6
    exact ⟨_, .code hlt, readUnits_code hlt⟩
  · exact ⟨_, .char, readUnits_self h1 h2 (by omega)⟩

/-! ## Values as they are written -/

/-- A number does not go on with the text. -/
def EndsNumber (s : List Char) : Prop := ∀ c ∈ s.head?, isNumberChar c = false

/-- The text of a value starts with a character that is no space, and ends nothing. -/
def Starts (t : List Char) : Prop :=
  ∃ c t', t = c :: t' ∧ isSpace c = false ∧ c ≠ ']' ∧ c ≠ '\x7d'

/-- The text is read as the value, if what comes after it ends a number. -/
structure Written (n : ℕ) (t : List Char) (v : Value) : Prop where
  starts : Starts t
  reads : ∀ s, EndsNumber s → readValue n (t ++ s) = some (v, s)

/-- What does not begin with a space is not skipped. -/
theorem skip_cons {c : Char} (h : isSpace c = false) (s : List Char) : skip (c :: s) = c :: s :=
  List.dropWhile_cons_of_neg (by simp [h])

/-- So it is with what begins a value. -/
theorem skip_of_starts {t : List Char} (h : Starts t) (s : List Char) : skip (t ++ s) = t ++ s := by
  obtain ⟨c, t, rfl, hspace, -⟩ := h
  exact skip_cons hspace _

/-- The characters between values, and after them, are no spaces and end numbers. -/
theorem endsNumber_cons {c close : Char} (hclose : close = ']' ∨ close = '\x7d')
    (h : c = ',' ∨ c = close) (s : List Char) : EndsNumber (c :: s) ∧ isSpace c = false := by
  have hc : isNumberChar c = false ∧ isSpace c = false := by
    rcases h with rfl | rfl
    · decide
    · rcases hclose with rfl | rfl <;> decide
  exact ⟨by simpa [EndsNumber] using hc.1, hc.2⟩

/-- A value that starts neither an array nor an object. -/
theorem readValue_of_ne {c : Char} (harray : c ≠ '[') (hobject : c ≠ '\x7b') (n : ℕ)
    (s : List Char) : readValue n (c :: s) = readScalar (c :: s) := by
  cases n with
  | zero => rw [readValue]
  | succ n => rw [readValue, if_neg harray, if_neg hobject]

section

variable {n : ℕ}

/-- `null` is written as that. -/
theorem written_null : Written n ['n', 'u', 'l', 'l'] .null where
  starts := ⟨'n', _, rfl, by decide, by decide, by decide⟩
  reads s _ := by
    rw [List.cons_append, readValue_of_ne (by decide) (by decide)]
    simp [readScalar, token]

/-- A quoted text is a value. -/
theorem written_string {escape : Char → List Char} (h : Escapes escape) (s : String) :
    Written n (quoteBy escape s) (.string s) where
  starts := ⟨'"', _, rfl, by decide, by decide, by decide⟩
  reads rest _ := by
    have htext := reads_readText h s rest
    rw [quoteBy, List.cons_append, List.cons_append] at htext ⊢
    rw [readValue_of_ne (by decide) (by decide), readScalar, htext]
    simp [token]

/-! ### Numbers -/

/-- A positive number does not start with a zero. -/
theorem head_toDigits {k : ℕ} (hk : 0 < k) : (Nat.toDigits 10 k).head? ≠ some '0' := by
  have hsmall : ∀ k < 10, 0 < k → (Nat.toDigits 10 k).head? ≠ some '0' := by decide
  induction k using Nat.strongRecOn with
  | ind k ih =>
    by_cases hlt : k < 10
    · exact hsmall k hlt hk
    · rw [Nat.toDigits_of_base_le (by decide) (by omega),
        List.head?_append_of_ne_nil _ Nat.toDigits_ne_nil]
      exact ih (k / 10) (by omega) (by omega)

/-- A number is written in digits. -/
theorem isDigit_toDigits {k : ℕ} : ∀ c ∈ Nat.toDigits 10 k, c.isDigit = true := fun _ =>
  Nat.isDigit_of_mem_toDigits (by decide) (by decide)

/-- Decimal digits are a number. -/
theorem isNumber_toDigits (k : ℕ) : isNumber (Nat.toDigits 10 k) = true := by
  have hall : ∀ c ∈ Nat.toDigits 10 k, c.isDigit = true := isDigit_toDigits
  have hne : Nat.toDigits 10 k ≠ [] := Nat.toDigits_ne_nil
  have hhead : (Nat.toDigits 10 k).head? ≠ some '0' ∨ Nat.toDigits 10 k = ['0'] := by
    rcases Nat.eq_zero_or_pos k with rfl | hk
    · exact .inr (Nat.toDigits_zero 10)
    · exact .inl (head_toDigits hk)
  have hsign : (Nat.toDigits 10 k).head? ≠ some '-' := fun h =>
    absurd (hall '-' (List.mem_of_head? h)) (by decide)
  rw [isNumber, if_neg hsign, List.takeWhile_eq_self_iff.2 hall, List.dropWhile_eq_nil_iff.2 hall]
  simpa [isFraction, isExponent] using hhead

/-- A number is a value. -/
theorem written_number (k : ℕ) : Written n (Nat.toDigits 10 k) (.number (Nat.toDigits 10 k)) := by
  have hall : ∀ c ∈ Nat.toDigits 10 k, c.isDigit = true := isDigit_toDigits
  have hchars : ∀ c ∈ Nat.toDigits 10 k, isNumberChar c = true := fun c hc => by
    simp [isNumberChar, hall c hc]
  have hnumber := isNumber_toDigits k
  obtain ⟨c, ds, hds⟩ := List.exists_cons_of_ne_nil (Nat.toDigits_ne_nil (n := k) (b := 10))
  have hc : c.isDigit = true := hall c (by rw [hds]; exact List.mem_cons_self)
  have hne : ∀ c', c'.isDigit = false → c ≠ c' := by
    rintro c' hc' rfl
    cases hc.symm.trans hc'
  refine ⟨⟨c, ds, hds, ?_, hne _ (by decide), hne _ (by decide)⟩, fun s hends => ?_⟩
  · simp [isSpace, hne ' ' (by decide), hne '\t' (by decide), hne '\r' (by decide),
      hne '\n' (by decide)]
  · have hread : readNumber (Nat.toDigits 10 k ++ s) = some (.number (Nat.toDigits 10 k), s) := by
      -- What follows does not go on with the number.
      have hnone : s.takeWhile isNumberChar = [] ∧ s.dropWhile isNumberChar = s := by
        cases s with
        | nil => exact ⟨rfl, rfl⟩
        | cons c' s => simp [hends c' rfl]
      rw [readNumber, List.takeWhile_append_of_pos hchars, List.dropWhile_append_of_pos hchars,
        hnone.1, hnone.2, List.append_nil, if_pos hnumber]
    rw [hds, List.cons_append] at hread ⊢
    rw [readValue_of_ne (hne _ (by decide)) (hne _ (by decide)), readScalar, hread]
    simp [token, readText, Ne.symm (hne 'n' (by decide)), Ne.symm (hne 't' (by decide)),
      Ne.symm (hne 'f' (by decide)), Ne.symm (hne '"' (by decide))]

/-! ### Arrays and objects -/

/-- A value is read up to the comma or the closing bracket after it. -/
theorem spaced_readValue {t : List Char} {v : Value} (h : Written n t v) {c close : Char}
    (hclose : close = ']' ∨ close = '\x7d') (hc : c = ',' ∨ c = close) (s : List Char) :
    spaced (readValue n) (t ++ c :: s) = some (v, c :: s) := by
  obtain ⟨hends, hspace⟩ := endsNumber_cons hclose hc s
  rw [spaced, skip_of_starts h.starts, h.reads _ hends, Option.map_some, skip_cons hspace]

/-- An array of values is a value, one level deeper. -/
theorem written_array {α : Type} {write : α → List Char} {value : α → Value} {l : List α}
    (h : ∀ a ∈ l, Written n (write a) (value a)) :
    Written (n + 1) ('[' :: writeItems ']' (l.map write)) (.array (l.map value)) where
  starts := ⟨'[', _, rfl, by decide, by decide, by decide⟩
  reads s _ := by
    have hitems : Reads (readSequence ']' (spaced (readValue n))) (writeItems ']' (l.map write))
        (l.map value) :=
      readSequence_writeItems (by decide)
        (fun a ha c s hc => spaced_readValue (h a ha) (.inl rfl) hc s) fun a ha => by
          obtain ⟨c, t, ht, -, hc, -⟩ := (h a ha).starts
          exact ⟨c, t, ht, hc⟩
    -- What comes after the bracket is no space: an item, or the other bracket.
    have hskip : skip (writeItems ']' (l.map write) ++ s) = writeItems ']' (l.map write) ++ s := by
      cases l with
      | nil => exact skip_cons (by decide) _
      | cons a l =>
        obtain ⟨c, t, ht, hspace, -⟩ := (h a List.mem_cons_self).starts
        obtain ⟨t', ht'⟩ : ∃ t', writeItems ']' ((a :: l).map write) = c :: t' :=
          writeItems_eq_cons ht l
        rw [ht']
        exact skip_cons hspace _
    rw [List.cons_append, readValue, if_pos rfl, hskip, hitems s]
    rfl

/-- So is a field of an object. -/
theorem spaced_readField {escape : Char → List Char} (hescape : Escapes escape) {name : String}
    {t : List Char} {v : Value} (h : Written n t v) {c : Char} (hc : c = ',' ∨ c = '\x7d')
    (s : List Char) : spaced (readField (readValue n)) (writeField escape name t ++ c :: s) =
      some ((name, v), c :: s) := by
  obtain ⟨hends, hspace⟩ := endsNumber_cons (.inr rfl) hc s
  have hname := reads_readText hescape name (':' :: (t ++ c :: s))
  have hstart : skip (quoteBy escape name ++ ':' :: (t ++ c :: s)) =
      quoteBy escape name ++ ':' :: (t ++ c :: s) := skip_cons (by decide) _
  rw [spaced, writeField, List.append_assoc, List.cons_append, hstart, readField, hname]
  simp [skip_cons (show isSpace ':' = false by decide), skip_of_starts h.starts,
    h.reads _ hends, skip_cons hspace]

/-- An object of values is a value, one level deeper. -/
theorem written_object {escape : Char → List Char} (hescape : Escapes escape) {α : Type}
    {name : α → String} {write : α → List Char} {value : α → Value} {l : List α}
    (h : ∀ a ∈ l, Written n (write a) (value a)) :
    Written (n + 1)
      ('\x7b' :: writeItems '\x7d' (l.map fun a => writeField escape (name a) (write a)))
      (.object (l.map fun a => (name a, value a))) where
  starts := ⟨'\x7b', _, rfl, by decide, by decide, by decide⟩
  reads s _ := by
    have hitems : Reads (readSequence '\x7d' (spaced (readField (readValue n))))
        (writeItems '\x7d' (l.map fun a => writeField escape (name a) (write a)))
        (l.map fun a => (name a, value a)) :=
      readSequence_writeItems (by decide)
        (fun a ha c s hc => spaced_readField hescape (h a ha) hc s)
        fun a _ => ⟨'"', _, rfl, by decide⟩
    have hskip : skip (writeItems '\x7d' (l.map fun a => writeField escape (name a) (write a)) ++
        s) = writeItems '\x7d' (l.map fun a => writeField escape (name a) (write a)) ++ s := by
      cases l with
      | nil => exact skip_cons (by decide) _
      | cons a l =>
        obtain ⟨t', ht'⟩ : ∃ t', writeItems '\x7d' ((a :: l).map fun a =>
            writeField escape (name a) (write a)) = '"' :: t' := writeItems_eq_cons (a := a) rfl l
        rw [ht']
        exact skip_cons (by decide) _
    rw [List.cons_append, readValue, if_neg (by decide), if_pos rfl, hskip, hitems s]
    rfl

/-- An object whose members are texts. -/
theorem written_writeObject (members : List (String × String)) :
    Written (n + 1) (writeObject members) (.object (members.map fun m => (m.1, .string m.2))) :=
  written_object escapes_escapeChar fun m _ => written_string escapes_escapeChar m.2

end

/-! ## Decoding -/

/-- An error of the decoder, by its type. -/
inductive DecodeError
  /-- `json.SyntaxError`. -/
  | syntaxError
  /-- `json.UnmarshalTypeError`. -/
  | unmarshalType
  deriving DecidableEq

/-- The arrays and objects that may be in each other. -/
def maxNestingDepth : ℕ := 10000

/-- The value that a text denotes. -/
def parse (src : String) : Except DecodeError Value :=
  match spaced (readValue maxNestingDepth) src.toList with
  | some (v, []) => .ok v
  | _ => .error .syntaxError

/-- What is not nested too deep is parsed. -/
theorem parse_of_written {t : List Char} {v : Value} (h : Written maxNestingDepth t v) :
    parse (String.ofList t) = .ok v := by
  have hread := h.reads [] nofun
  have hskip := skip_of_starts h.starts []
  rw [List.append_nil] at hread hskip
  rw [parse, spaced, String.toList_ofList, hskip, hread]
  rfl

/-- There is no value in the empty text. -/
theorem readValue_nil (n : ℕ) : readValue n [] = none := by
  cases n <;> rfl

/-- Nothing is no value. -/
theorem parse_empty : parse "" = .error .syntaxError := by
  have hread : spaced (readValue maxNestingDepth) "".toList = none := by
    rw [spaced, show skip "".toList = [] from rfl, readValue_nil]
    rfl
  rw [parse, hread]

/-- A letter of a name without its case. Two other characters are taken for letters. -/
def foldChar (c : Char) : Char :=
  if c = 'ſ' then 's' else if c = '\u212a' then 'k' else c.toLower

/-- A name without case. -/
def foldName (name : String) : List Char := name.toList.map foldChar

/-- What a value makes of a field with a text. -/
def decodeString (old : String) : Value → Except DecodeError String
  | .null => .ok old
  | .string s => .ok s
  | _ => .error .unmarshalType

/-- The text that the members of an object, one after the other, make of the field of the
    name, which has the text `old`. -/
def setField (name : String) : List (String × Value) → String → Except DecodeError String
  | [], old => .ok old
  | m :: members, old =>
    if foldName m.1 = foldName name then
      match decodeString old m.2 with
      | .ok s => setField name members s
      | .error e => .error e
    else setField name members old

/-- The text that the members of an object give a field. -/
def stringField (name : String) (members : List (String × Value)) : Except DecodeError String :=
  setField name members ""

/-- A struct, of whose fields none is set yet: `zero`. -/
def decodeStruct {α : Type} (zero : α) (fields : List (String × Value) → Except DecodeError α) :
    Value → Except DecodeError α
  | .null => .ok zero
  | .object members => fields members
  | _ => .error .unmarshalType

/-- A slice. -/
def decodeSlice {α : Type} (item : Value → Except DecodeError α) :
    Value → Except DecodeError (List α)
  | .null => .ok []
  | .array vs => vs.mapM item
  | _ => .error .unmarshalType

/-- `json.Unmarshal`, given what the type makes of values. -/
def unmarshal {α : Type} (decode : Value → Except DecodeError α) (src : String) :
    Except DecodeError α :=
  parse src >>= decode

section

variable {name : String} {members : List (String × Value)}

/-- A field that is not there keeps its zero value. -/
theorem setField_of_forall_ne (h : ∀ m ∈ members, foldName m.1 ≠ foldName name) (old : String) :
    setField name members old = .ok old := by
  induction members with
  | nil => rfl
  | cons m members ih =>
    rw [setField, if_neg (h m List.mem_cons_self)]
    exact ih fun m hm => h m (List.mem_cons_of_mem _ hm)

/-- A field that no member has the name of. -/
theorem stringField_of_forall_ne (h : ∀ m ∈ members, foldName m.1 ≠ foldName name) :
    stringField name members = .ok "" :=
  setField_of_forall_ne h ""

/-- A field that a member has the name of, if the names are different. -/
theorem stringField_of_mem (hnodup : (members.map fun m => foldName m.1).Nodup) {s : String}
    (hmem : (name, .string s) ∈ members) : stringField name members = .ok s := by
  unfold stringField
  generalize "" = old
  induction members with
  | nil => exact absurd hmem List.not_mem_nil
  | cons m members ih =>
    rw [List.map_cons, List.nodup_cons] at hnodup
    rcases List.mem_cons.1 hmem with rfl | hmem
    · have hne : ∀ m ∈ members, foldName m.1 ≠ foldName name := fun m hm heq =>
        hnodup.1 (heq ▸ List.mem_map_of_mem (f := fun m => foldName m.1) hm)
      rw [setField, if_pos rfl]
      exact setField_of_forall_ne hne s
    · have hne : foldName m.1 ≠ foldName name := fun heq =>
        hnodup.1 (heq ▸ List.mem_map_of_mem (f := fun m => foldName m.1) hmem)
      rw [setField, if_neg hne]
      exact ih hnodup.2 hmem

/-- The same, of an object whose members are texts. -/
theorem stringField_of_mem_texts {texts : List (String × String)}
    (hnodup : (texts.map fun m => foldName m.1).Nodup) {s : String} (hmem : (name, s) ∈ texts) :
    stringField name (texts.map fun m => (m.1, .string m.2)) = .ok s := by
  refine stringField_of_mem ?_ (List.mem_map.2 ⟨_, hmem, rfl⟩)
  rw [List.map_map]
  exact hnodup

end

end Json
