import Mathlib.Data.List.Basic

/-!
# Escaped HTML

How text is written in HTML: five characters are replaced by references to them
(`Html.escape`). A text that has none of them is still there when it is escaped; and so
is one that has an ampersand, if the text happens to go on as the reference does. These
are all: a text that is escaped, and occurs in what it is escaped to, is such a one
(`survives_of_infix`, `Survives.prefix_escape`).
-/

namespace Html

/-- How a character is written. -/
def escapeChar : Char → List Char
  | '&' => ['&', 'a', 'm', 'p', ';']
  | '<' => ['&', 'l', 't', ';']
  | '>' => ['&', 'g', 't', ';']
  | '"' => ['&', '#', '3', '4', ';']
  | '\'' => ['&', '#', '3', '9', ';']
  | c => [c]

/-- How a text is written. -/
def escape (s : List Char) : List Char := s.flatMap escapeChar

/-- The text that is written so. -/
def unescape : List Char → List Char
  | [] => []
  | '&' :: 'a' :: 'm' :: 'p' :: ';' :: cs => '&' :: unescape cs
  | '&' :: 'l' :: 't' :: ';' :: cs => '<' :: unescape cs
  | '&' :: 'g' :: 't' :: ';' :: cs => '>' :: unescape cs
  | '&' :: '#' :: '3' :: '4' :: ';' :: cs => '"' :: unescape cs
  | '&' :: '#' :: '3' :: '9' :: ';' :: cs => '\'' :: unescape cs
  | c :: cs => c :: unescape cs

/-- The characters that are replaced, other than the ampersand. -/
def isMarkup (c : Char) : Bool := c = '<' || c = '>' || c = '"' || c = '\''

/-- What comes after the ampersand in its reference. -/
def amp : List Char := ['a', 'm', 'p', ';']

variable {s t : List Char} {c : Char}

/-- Plain characters are not escaped. -/
theorem escapeChar_of_plain (hamp : c ≠ '&') (hc : isMarkup c = false) : escapeChar c = [c] := by
  simp only [isMarkup, Bool.or_eq_false_iff, decide_eq_false_iff_not] at hc
  obtain ⟨⟨⟨h1, h2⟩, h3⟩, h4⟩ := hc
  unfold escapeChar
  split <;> first | rfl | contradiction

/-- Texts are escaped one after the other. -/
theorem escape_append : escape (s ++ t) = escape s ++ escape t := List.flatMap_append

/-- Text without markup and ampersands is escaped to itself. -/
theorem escape_of_plain (hamp : '&' ∉ s) (hs : ∀ c ∈ s, isMarkup c = false) : escape s = s := by
  induction s with
  | nil => rfl
  | cons c s ih =>
    rw [List.mem_cons, not_or] at hamp
    have htail := ih hamp.2 fun c hc => hs c (List.mem_cons_of_mem _ hc)
    rw [escape, List.flatMap_cons, escapeChar_of_plain (Ne.symm hamp.1) (hs c List.mem_cons_self),
      ← escape, htail]
    rfl

/-- An ampersand is escaped, so that another one comes of it. -/
theorem escape_cons_amp : escape ('&' :: s) = '&' :: (amp ++ escape s) := rfl

/-- Escaped text has no markup. -/
theorem isMarkup_of_mem_escapeChar {d : Char} (h : c ∈ escapeChar d) : isMarkup c = false := by
  unfold escapeChar at h
  split at h
  case h_6 _ hlt hgt hquote hapostrophe =>
    rw [List.mem_singleton.1 h]
    simp only [isMarkup, Bool.or_eq_false_iff, decide_eq_false_iff_not]
    exact ⟨⟨⟨hlt, hgt⟩, hquote⟩, hapostrophe⟩
  all_goals
    have hall := List.all_eq_true (p := fun c => !isMarkup c) |>.1 rfl c h
    simpa using hall

/-- None of the characters that are replaced is left, but for ampersands. -/
theorem isMarkup_of_mem_escape (h : c ∈ escape s) : isMarkup c = false := by
  obtain ⟨d, -, hd⟩ := List.mem_flatMap.1 h
  exact isMarkup_of_mem_escapeChar hd

/-- Escaping plain text adds no ampersands. -/
theorem count_escape (hs : ∀ c ∈ s, isMarkup c = false) : (escape s).count '&' = s.count '&' := by
  induction s with
  | nil => rfl
  | cons c s ih =>
    have hc := hs c List.mem_cons_self
    have htail := ih fun c hc => hs c (List.mem_cons_of_mem _ hc)
    by_cases hamp : c = '&'
    · subst hamp
      have hzero : amp.count '&' = 0 := rfl
      rw [escape_cons_amp, List.count_cons_self, List.count_cons_self, List.count_append, hzero,
        Nat.zero_add, htail]
    · rw [escape, List.flatMap_cons, escapeChar_of_plain hamp hc, ← escape, List.singleton_append,
        List.count_cons, List.count_cons, htail]

/-- Only an ampersand starts what is unescaped. -/
theorem unescape_cons (hc : c ≠ '&') : unescape (c :: s) = c :: unescape s := by
  simp [unescape, hc]

/-- What was escaped is unescaped to what it was. -/
theorem unescape_escape (s : List Char) : unescape (escape s) = s := by
  induction s with
  | nil => rfl
  | cons c s ih =>
    rw [escape, List.flatMap_cons, ← escape]
    unfold escapeChar
    split
    case h_6 hamp _ _ _ _ => rw [List.singleton_append, unescape_cons hamp, ih]
    all_goals simp [unescape, ih]

/-! ## What survives -/

/-- What comes after the first ampersand. -/
def afterAmp (s : List Char) : List Char := (s.dropWhile (· ≠ '&')).tail

/-- No character but an ampersand is replaced, and what comes after it goes on as its
    reference does. -/
def Survives (s : List Char) : Prop :=
  (∀ c ∈ s, isMarkup c = false) ∧ '&' ∉ afterAmp s ∧ afterAmp s <+: amp ++ afterAmp s

instance (s : List Char) : Decidable (Survives s) :=
  have := List.decidableBAll (fun c => isMarkup c = false) s
  inferInstanceAs (Decidable (_ ∧ _ ∧ _))

/-- The text after the first ampersand. -/
theorem afterAmp_append (hs : '&' ∉ s) (t : List Char) : afterAmp (s ++ '&' :: t) = t := by
  rw [afterAmp, List.dropWhile_append_of_pos fun c hc => ?_]
  · simp
  · simpa using fun heq : c = '&' => hs (heq ▸ hc)

/-- Without an ampersand there is nothing after one. -/
theorem afterAmp_of_not_mem (hs : '&' ∉ s) : afterAmp s = [] := by
  rw [afterAmp, ← List.append_nil s, List.dropWhile_append_of_pos fun c hc => ?_]
  · rfl
  · simpa using fun heq : c = '&' => hs (heq ▸ hc)

/-- It is at the beginning of what it is escaped to. -/
theorem Survives.prefix_escape (h : Survives s) : s <+: escape s := by
  obtain ⟨hmarkup, hafter, hprefix⟩ := h
  by_cases hs : '&' ∈ s
  · obtain ⟨p, q, rfl, hp⟩ := List.eq_append_cons_of_mem hs
    rw [afterAmp_append hp] at hafter hprefix
    rw [escape_append, escape_of_plain hp fun c hc => hmarkup c (by simp [hc]), escape_cons_amp,
      escape_of_plain hafter fun c hc => hmarkup c (by simp [hc])]
    obtain ⟨r, hr⟩ := hprefix
    exact ⟨r, by simp [← hr]⟩
  · exact ⟨[], by rw [List.append_nil, escape_of_plain hs hmarkup]⟩

/-- A text that occurs in what it is escaped to, after a line end, survives. -/
theorem survives_of_infix (h : s <:+: '\n' :: escape s) : Survives s := by
  have hmarkup : ∀ c ∈ s, isMarkup c = false := by
    intro c hc
    rcases List.mem_cons.1 (h.subset hc) with rfl | hmem
    · rfl
    · exact isMarkup_of_mem_escape hmem
  by_cases hs : '&' ∈ s
  · obtain ⟨p, q, rfl, hp⟩ := List.eq_append_cons_of_mem hs
    have hmarkup' : ∀ c ∈ q, isMarkup c = false := fun c hc => hmarkup c (by simp [hc])
    rw [Survives, afterAmp_append hp]
    refine ⟨hmarkup, ?_⟩
    obtain ⟨pre, post, heq⟩ := h
    -- All ampersands are in the occurrence of the text, so its first one is the first one.
    have hpre : '&' ∉ pre := by
      have hcount := congrArg (List.count '&') heq
      rw [List.count_append, List.count_append, List.count_cons_of_ne (by decide),
        count_escape hmarkup] at hcount
      exact List.count_eq_zero.1 (by omega)
    have hescape : escape (p ++ '&' :: q) = p ++ '&' :: (amp ++ escape q) := by
      rw [escape_append, escape_of_plain hp fun c hc => hmarkup c (by simp [hc]), escape_cons_amp]
    have hafter : q ++ post = amp ++ escape q := by
      have h := congrArg afterAmp heq
      rw [hescape, ← List.cons_append, ← List.append_assoc, List.append_assoc, List.cons_append,
        afterAmp_append (by simp [hpre, hp]), afterAmp_append (by simp [hp])] at h
      exact h
    have hq : '&' ∉ q := by
      intro hq
      obtain ⟨p', q', rfl, hp'⟩ := List.eq_append_cons_of_mem hq
      -- The second ones are not as far from the first ones.
      have hescape' : escape (p' ++ '&' :: q') = p' ++ '&' :: (amp ++ escape q') := by
        rw [escape_append, escape_of_plain hp' fun c hc => hmarkup' c (by simp [hc]),
          escape_cons_amp]
      have hafter' : q' ++ post = amp ++ escape q' := by
        have h := congrArg afterAmp hafter
        rw [hescape', List.append_assoc, List.cons_append, ← List.append_assoc,
          afterAmp_append hp', afterAmp_append (by simp [hp', amp])] at h
        exact h
      have hlength := congrArg List.length hafter
      have hlength' := congrArg List.length hafter'
      rw [hescape'] at hlength
      simp only [List.length_append, List.length_cons, amp, List.length_nil] at hlength hlength'
      omega
    rw [escape_of_plain hq hmarkup'] at hafter
    exact ⟨hq, post, hafter⟩
  · rw [Survives, afterAmp_of_not_mem hs]
    exact ⟨hmarkup, List.not_mem_nil, List.nil_prefix⟩

end Html
