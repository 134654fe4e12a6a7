import Mathlib.Data.List.Basic

/-!
# Texts, objects and lists in JSON

How texts are written in JSON (`Json.quote`), with the characters escaped that mean
something in JSON or in HTML; objects whose members are texts (`Json.writeObject`); and
lists of what is written already (`Json.writeList`). A reader takes a beginning of its
input, if it can make something of it, and leaves the rest; it reads a text as a value if
it takes the text, whatever comes after it (`Json.Reads`). What is written is read as what
it was (`reads_readString`, `reads_readObject`, `reads_readList`).
-/

namespace Json

/-! ## Writing -/

/-- A hexadecimal digit. -/
def digit (n : ℕ) : Char := if n < 10 then Char.ofNat (48 + n) else Char.ofNat (87 + n)

/-- The characters written by their numbers, other than those before the space. -/
def isHtml (c : Char) : Bool := c = '<' || c = '>' || c = '&' || c = '\u2028' || c = '\u2029'

/-- How a character is written. -/
def escapeChar (c : Char) : List Char :=
  if c = '"' then ['\\', '"']
  else if c = '\\' then ['\\', '\\']
  else if c = '\n' then ['\\', 'n']
  else if c = '\r' then ['\\', 'r']
  else if c = '\t' then ['\\', 't']
  else if c.toNat < 32 ∨ isHtml c = true then
    ['\\', 'u', digit (c.toNat / 4096), digit (c.toNat / 256 % 16), digit (c.toNat / 16 % 16),
      digit (c.toNat % 16)]
  else [c]

/-- How a text is written. -/
def quote (s : List Char) : List Char := '"' :: s.flatMap escapeChar ++ ['"']

/-- How the items of a sequence are written, and its end. -/
def writeItems (close : Char) : List (List Char) → List Char
  | [] => [close]
  | [t] => t ++ [close]
  | t :: ts => t ++ ',' :: writeItems close ts

/-- How a list is written. -/
def writeList (ts : List (List Char)) : List Char := '[' :: writeItems ']' ts

/-- How a member of an object is written. -/
def writeMember (m : String × String) : List Char :=
  quote m.1.toList ++ ':' :: quote m.2.toList

/-- How an object is written. -/
def writeObject (ms : List (String × String)) : List Char :=
  '\x7b' :: writeItems '\x7d' (ms.map writeMember)

/-! ## Reading -/

/-- What is read, and what is left. -/
abbrev Reader (α : Type) := List Char → Option (α × List Char)

/-- The value of a hexadecimal digit. -/
def digitValue (c : Char) : ℕ := if c.toNat < 58 then c.toNat - 48 else c.toNat - 87

/-- The character that one stands for behind a backslash. -/
def unescape (c : Char) : Option Char :=
  if c = '"' ∨ c = '\\' ∨ c = '/' then some c
  else if c = 'n' then some '\n'
  else if c = 'r' then some '\r'
  else if c = 't' then some '\t'
  else none

/-- The characters up to the end of a text. -/
def readChars : Reader (List Char)
  | [] => none
  | c :: cs =>
    if c = '"' then some ([], cs)
    else if c = '\\' then
      match cs with
      | 'u' :: d₃ :: d₂ :: d₁ :: d₀ :: cs =>
        (readChars cs).map fun r => (Char.ofNat (4096 * digitValue d₃ + 256 * digitValue d₂ +
          16 * digitValue d₁ + digitValue d₀) :: r.1, r.2)
      | e :: cs => (unescape e).bind fun c => (readChars cs).map fun r => (c :: r.1, r.2)
      | [] => none
    else (readChars cs).map fun r => (c :: r.1, r.2)

/-- What is left after the text `t`. -/
def token : (t : List Char) → Reader Unit
  | [], s => some ((), s)
  | c :: t, c' :: s => if c = c' then token t s else none
  | _ :: _, [] => none

/-- A text. -/
def readString : Reader String := fun s => do
  let (_, s) ← token ['"'] s
  let (cs, s) ← readChars s
  pure (String.ofList cs, s)

/-- The items of a sequence, as far as `n` of them. -/
def readItems {α : Type} (close : Char) (item : Reader α) : ℕ → Reader (List α)
  | 0, _ => none
  | n + 1, s => (item s).bind fun r =>
    match r.2 with
    | [] => none
    | c :: s =>
      if c = ',' then (readItems close item n s).map fun r' => (r.1 :: r'.1, r'.2)
      else if c = close then some ([r.1], s)
      else none

/-- A sequence, after its beginning. -/
def readSequence {α : Type} (close : Char) (item : Reader α) : Reader (List α)
  | [] => none
  | c :: s => if c = close then some ([], s) else readItems close item (c :: s).length (c :: s)

/-- A list. -/
def readList {α : Type} (item : Reader α) : Reader (List α) := fun s => do
  let (_, s) ← token ['['] s
  readSequence ']' item s

/-- A member of an object. -/
def readMember : Reader (String × String) := fun s => do
  let (name, s) ← readString s
  let (_, s) ← token [':'] s
  let (value, s) ← readString s
  pure ((name, value), s)

/-- An object. -/
def readObject : Reader (List (String × String)) := fun s => do
  let (_, s) ← token ['\x7b'] s
  readSequence '\x7d' readMember s

/-- The reader reads the text as the value, whatever comes after it. -/
def Reads {α : Type} (r : Reader α) (t : List Char) (a : α) : Prop :=
  ∀ s, r (t ++ s) = some (a, s)

/-- A token is read as it is written. -/
theorem reads_token (t : List Char) : Reads (token t) t () := by
  intro s
  induction t with
  | nil => rfl
  | cons c t ih => simp [token, ih]

@[simp] theorem token_singleton (c : Char) (s : List Char) : token [c] (c :: s) = some ((), s) :=
  reads_token [c] s

/-- Digits are read as their values. -/
theorem digitValue_digit : ∀ n < 16, digitValue (digit n) = n := by decide

/-- The characters that are escaped for HTML need four digits only. -/
theorem toNat_lt_of_isHtml {c : Char} (h : isHtml c = true) : c.toNat < 65536 := by
  simp only [isHtml, Bool.or_eq_true, decide_eq_true_eq] at h
  rcases h with (((rfl | rfl) | rfl) | rfl) | rfl <;> decide

/-- A character is read as it is written. -/
theorem readChars_escapeChar (c : Char) (s : List Char) :
    readChars (escapeChar c ++ s) = (readChars s).map fun r => (c :: r.1, r.2) := by
  unfold escapeChar
  split_ifs with h1 h2 h3 h4 h5 h6
  · subst h1; simp [readChars, unescape]
  · subst h2; simp [readChars, unescape]
  · subst h3; simp [readChars, unescape]
  · subst h4; simp [readChars, unescape]
  · subst h5; simp [readChars, unescape]
  · -- The four digits of an escape give the character back: it is below `0x10000`.
    have hlt : c.toNat < 65536 := by
      rcases h6 with h6 | h6
      · omega
      · exact toNat_lt_of_isHtml h6
    have hchar : Char.ofNat (4096 * (c.toNat / 4096) + 256 * (c.toNat / 256 % 16) +
        16 * (c.toNat / 16 % 16) + c.toNat % 16) = c := by
      rw [show 4096 * (c.toNat / 4096) + 256 * (c.toNat / 256 % 16) +
        16 * (c.toNat / 16 % 16) + c.toNat % 16 = c.toNat by omega]
      exact Char.ofNat_toNat c
    have h₃ := digitValue_digit (c.toNat / 4096) (by omega)
    have h₂ := digitValue_digit (c.toNat / 256 % 16) (by omega)
    have h₁ := digitValue_digit (c.toNat / 16 % 16) (by omega)
    have h₀ := digitValue_digit (c.toNat % 16) (by omega)
    simp only [List.cons_append, List.nil_append]
    rw [readChars]
    simp only [Char.reduceEq, if_false, if_true, h₃, h₂, h₁, h₀, hchar]
  · rw [List.singleton_append, readChars.eq_def]
    simp [h1, h2]

/-- Characters are read back one by one, up to the quote. -/
theorem readChars_flatMap (cs s : List Char) :
    readChars (cs.flatMap escapeChar ++ '"' :: s) = some (cs, s) := by
  induction cs with
  | nil =>
    rw [List.flatMap_nil, List.nil_append, readChars.eq_def]
    rfl
  | cons c cs ih =>
    rw [List.flatMap_cons, List.append_assoc, readChars_escapeChar, ih]
    rfl

/-- A string is read back, whatever its characters. -/
theorem reads_readString (s : String) : Reads readString (quote s.toList) s := by
  intro rest
  simp [readString, quote, readChars_flatMap s.toList rest]

section

variable {α β : Type} {close : Char} {item : Reader β} {write : α → List Char} {value : α → β}

/-- The items of a sequence are read, if there are not more of them than are allowed. -/
theorem readItems_writeItems (hclose : close ≠ ',') {l : List α}
    (hitem : ∀ a ∈ l, ∀ c s, c = ',' ∨ c = close →
      item (write a ++ c :: s) = some (value a, c :: s))
    (hl : l ≠ []) {n : ℕ} (hn : l.length ≤ n) (s : List Char) :
    readItems close item n (writeItems close (l.map write) ++ s) = some (l.map value, s) := by
  induction l generalizing n with
  | nil => exact absurd rfl hl
  | cons a l ih =>
    obtain ⟨n, rfl⟩ : ∃ k, n = k + 1 := ⟨n - 1, by simp at hn; omega⟩
    have ha := hitem a List.mem_cons_self
    cases l with
    | nil => simp [writeItems, readItems, ha close s (.inr rfl), hclose]
    | cons b l =>
      have htail := ih (fun a ha => hitem a (List.mem_cons_of_mem _ ha)) (List.cons_ne_nil b l)
        (Nat.le_of_succ_le_succ hn)
      rw [List.map_cons] at htail
      simp [writeItems, readItems, ha ',' _ (.inl rfl), htail]

/-- There are at most as many items as characters, which is fuel enough. -/
theorem length_le_writeItems {l : List α} (hwrite : ∀ a ∈ l, write a ≠ []) :
    l.length ≤ (writeItems close (l.map write)).length := by
  induction l with
  | nil => exact Nat.zero_le _
  | cons a l ih =>
    have ha := List.length_pos_iff.2 (hwrite a List.mem_cons_self)
    have ih := ih fun a ha => hwrite a (List.mem_cons_of_mem _ ha)
    cases l with
    | nil => simp [writeItems]
    | cons b l =>
      rw [List.map_cons] at ih
      simp only [List.map_cons, writeItems, List.length_append, List.length_cons] at ih ⊢
      omega

/-- The items of a sequence that has some start as the first of them does. -/
theorem writeItems_eq_cons {a : α} {c : Char} {t : List Char} (hwrite : write a = c :: t)
    (l : List α) : ∃ t', writeItems close ((a :: l).map write) = c :: t' := by
  cases l with
  | nil => exact ⟨t ++ [close], by simp [writeItems, hwrite]⟩
  | cons b l =>
    exact ⟨t ++ ',' :: writeItems close ((b :: l).map write), by simp [writeItems, hwrite]⟩

/-- A sequence is read, if its items are, and none of them is taken for the end. -/
theorem readSequence_writeItems (hclose : close ≠ ',') {l : List α}
    (hitem : ∀ a ∈ l, ∀ c s, c = ',' ∨ c = close →
      item (write a ++ c :: s) = some (value a, c :: s))
    (hwrite : ∀ a ∈ l, ∃ c t, write a = c :: t ∧ c ≠ close) :
    Reads (readSequence close item) (writeItems close (l.map write)) (l.map value) := by
  intro s
  have hne : ∀ a ∈ l, write a ≠ [] := fun a ha h => by
    obtain ⟨c, t, ht, -⟩ := hwrite a ha
    cases ht.symm.trans h
  have hlength : l.length ≤ (writeItems close (l.map write)).length := length_le_writeItems hne
  cases l with
  | nil => simp [readSequence, writeItems]
  | cons a l =>
    obtain ⟨c, t, ht, hc⟩ := hwrite a List.mem_cons_self
    obtain ⟨t', ht'⟩ := writeItems_eq_cons ht l
    have hitems := readItems_writeItems hclose hitem (List.cons_ne_nil a l)
      (n := (writeItems close ((a :: l).map write) ++ s).length) (by
        rw [List.length_append]
        omega) s
    rw [ht', List.cons_append] at hitems ⊢
    rw [readSequence, if_neg hc, hitems]

end

section

variable {α : Type} {item : Reader α} {write : α → List Char}

/-- A list is read, if its items are. -/
theorem reads_readList (hitem : ∀ a, Reads item (write a) a)
    (hwrite : ∀ a, ∃ c t, write a = c :: t ∧ c ≠ ']') (l : List α) :
    Reads (readList item) (writeList (l.map write)) l := by
  intro s
  have hsequence := readSequence_writeItems (by decide)
    (fun a _ c s _ => hitem a (c :: s)) (fun a _ => hwrite a) (l := l) s
  simpa [readList, writeList] using hsequence

end

/-- A member is read back. -/
theorem reads_readMember (m : String × String) : Reads readMember (writeMember m) m := by
  intro s
  have hname := reads_readString m.1 (':' :: (quote m.2.toList ++ s))
  simp [readMember, writeMember, hname, reads_readString m.2 s]

/-- An object is read as it was written. -/
theorem reads_readObject (ms : List (String × String)) :
    Reads readObject (writeObject ms) ms := by
  intro s
  have hsequence : Reads (readSequence '\x7d' readMember)
      (writeItems '\x7d' (ms.map writeMember)) (ms.map id) :=
    readSequence_writeItems (by decide) (fun m _ c s _ => reads_readMember m (c :: s))
      fun m _ => ⟨'"', _, rfl, by decide⟩
  simpa [readObject, writeObject] using hsequence s

end Json
