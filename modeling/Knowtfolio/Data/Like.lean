import Mathlib.Data.Finset.Max
import Mathlib.Data.List.Infix

/-!
# Patterns of `LIKE`

A pattern of SQL's `LIKE` is read as tokens: `%` is any run of characters, `_` any one
character, a backslash takes the next character as it is (`Like.parse`). Whether two
characters are the same is left to the collation (`same`).

To look for a piece of text, one writes `%piece%`. This finds the texts that contain the
piece if it has none of the three special characters (`isMatch_pattern`), and only then:
for pieces of which one has a special character, there is a text that contains all of
them but is not found, or is found though it does not contain all of them
(`exists_differs`).

The matcher is a function of the tokens of a pattern and the characters of a text, and of what
counts as the same character. For the converse a text is made up of samples of the patterns, in
which plain characters stand for the special ones: every pattern matches it, and the number of its
special characters tells that not all of the keywords are in it (`exists_differs`).
-/

namespace Like

/-- What a pattern consists of. -/
inductive Token (α : Type)
  | run
  | one
  | char (a : α)

section

variable {α : Type} {same : α → α → Bool} {ts : List (Token α)} {xs ys : List α} {p : List α}

/-- Whether a text matches a pattern. -/
def isMatch (same : α → α → Bool) : List (Token α) → List α → Bool
  | [], xs => xs.isEmpty
  | .run :: ts, xs => xs.tails.any (isMatch same ts)
  | .one :: ts, xs =>
    match xs with
    | [] => false
    | _ :: xs => isMatch same ts xs
  | .char a :: ts, xs =>
    match xs with
    | [] => false
    | x :: xs => same x a && isMatch same ts xs

/-- A text contains a piece, up to collation. -/
def Contains (same : α → α → Bool) (p xs : List α) : Prop :=
  ∃ mid, mid <:+: xs ∧ List.Forall₂ (fun x a => same x a = true) mid p

/-- A run matches any beginning of the text, also the empty one. -/
theorem isMatch_run : isMatch same (.run :: ts) xs = true ↔
    ∃ ys, ys <:+ xs ∧ isMatch same ts ys = true := by
  simp [isMatch, List.any_eq_true]

/-- Plain characters stand for themselves at the beginning, and the run after them for the rest. -/
theorem isMatch_chars : isMatch same (p.map .char ++ [.run]) xs = true ↔
    ∃ mid, mid <+: xs ∧ List.Forall₂ (fun x a => same x a = true) mid p := by
  induction p generalizing xs with
  | nil =>
    simp only [List.map_nil, List.nil_append, isMatch_run, List.forall₂_nil_right_iff]
    exact ⟨fun _ => ⟨[], List.nil_prefix, rfl⟩, fun _ => ⟨[], List.nil_suffix, rfl⟩⟩
  | cons a p ih =>
    cases xs with
    | nil =>
      simp only [List.map_cons, List.cons_append, isMatch, Bool.false_eq_true, false_iff]
      rintro ⟨mid, hmid, hsame⟩
      rw [List.prefix_nil.1 hmid] at hsame
      cases hsame
    | cons x xs =>
      simp only [List.map_cons, List.cons_append, isMatch, Bool.and_eq_true, ih]
      constructor
      · rintro ⟨hx, mid, hmid, hsame⟩
        exact ⟨x :: mid, (List.prefix_cons_inj x).2 hmid, .cons hx hsame⟩
      · rintro ⟨_, hmid, hsame⟩
        cases hsame with
        | cons hx hsame =>
          obtain ⟨rfl, hmid'⟩ := List.cons_prefix_cons.1 hmid
          exact ⟨hx, _, hmid', hsame⟩

/-- The pattern of a piece between two runs is matched by the texts that contain the
    piece. -/
theorem isMatch_run_chars : isMatch same (.run :: (p.map .char ++ [.run])) xs = true ↔
    Contains same p xs := by
  simp only [isMatch_run, isMatch_chars, Contains]
  constructor
  · rintro ⟨ys, hys, mid, hmid, hsame⟩
    exact ⟨mid, hmid.isInfix.trans hys.isInfix, hsame⟩
  · rintro ⟨mid, ⟨pre, post, rfl⟩, hsame⟩
    exact ⟨mid ++ post, ⟨pre, by simp⟩, mid, List.prefix_append _ _, hsame⟩

/-- A text that matches the tokens: runs are empty, and the character `o` stands for any
    one. -/
def sample (o : α) : List (Token α) → List α
  | [] => []
  | .run :: ts => sample o ts
  | .one :: ts => o :: sample o ts
  | .char a :: ts => a :: sample o ts

/-- A sample of a pattern is matched by it, whatever comes after. -/
theorem isMatch_sample (hrefl : ∀ a, same a a = true) (o : α) (ts : List (Token α)) (ys : List α) :
    isMatch same (ts ++ [.run]) (sample o ts ++ ys) = true := by
  induction ts with
  | nil => exact isMatch_run.2 ⟨[], List.nil_suffix, rfl⟩
  | cons t ts ih =>
    cases t with
    | run => exact isMatch_run.2 ⟨_, List.suffix_refl _, ih⟩
    | one => simpa [sample, isMatch] using ih
    | char a => simpa [sample, isMatch, hrefl] using ih

/-- A text that matches a pattern that ends with a character ends with one that is the
    same. -/
theorem exists_last_of_isMatch {a : α} (h : isMatch same (ts ++ [.char a]) xs = true) :
    ∃ x, xs.getLast? = some x ∧ same x a = true := by
  -- Each token of the pattern matches a part before the last character.
  induction ts generalizing xs with
  | nil =>
    cases xs with
    | nil => cases h
    | cons x xs =>
      simp only [List.nil_append, isMatch, Bool.and_eq_true, List.isEmpty_iff] at h
      obtain ⟨hx, rfl⟩ := h
      exact ⟨x, rfl, hx⟩
  | cons t ts ih =>
    cases t with
    | run =>
      obtain ⟨ys, ⟨pre, rfl⟩, hys⟩ := isMatch_run.1 h
      obtain ⟨x, hx, hsame⟩ := ih hys
      exact ⟨x, by rw [List.getLast?_append, hx]; rfl, hsame⟩
    | one =>
      cases xs with
      | nil => cases h
      | cons y xs =>
        obtain ⟨x, hx, hsame⟩ := ih h
        exact ⟨x, by rw [List.getLast?_cons, hx]; rfl, hsame⟩
    | char b =>
      cases xs with
      | nil => cases h
      | cons y xs =>
        obtain ⟨x, hx, hsame⟩ := ih (Bool.and_eq_true_iff.1 h).2
        exact ⟨x, by rw [List.getLast?_cons, hx]; rfl, hsame⟩

end

/-! ## Patterns as text -/

/-- The tokens of a pattern. -/
def parse : List Char → List (Token Char)
  | [] => []
  | '\\' :: c :: cs => .char c :: parse cs
  | '%' :: cs => .run :: parse cs
  | '_' :: cs => .one :: parse cs
  | c :: cs => .char c :: parse cs

/-- `LIKE`. -/
def like (same : Char → Char → Bool) (text pattern : String) : Bool :=
  isMatch same (parse pattern.toList) text.toList

/-- The characters that have a meaning in patterns. -/
def isSpecial (c : Char) : Bool := c = '%' || c = '_' || c = '\\'

/-- That no character is special can be evaluated. -/
theorem isSpecial_of_all {p : List Char} (h : p.all (fun c => !isSpecial c) = true) :
    ∀ c ∈ p, isSpecial c = false := by
  simpa using h

/-- A character that is not special stands for itself. -/
theorem parse_cons {c : Char} (hc : isSpecial c = false) (cs : List Char) :
    parse (c :: cs) = .char c :: parse cs := by
  simp only [isSpecial, Bool.or_eq_false_iff, decide_eq_false_iff_not] at hc
  obtain ⟨⟨hpercent, hunderscore⟩, hbackslash⟩ := hc
  rw [parse.eq_def]
  split <;> simp_all

/-- A piece without special characters stands for itself. -/
theorem parse_plain {p : List Char} (hp : ∀ c ∈ p, isSpecial c = false) (cs : List Char) :
    parse (p ++ cs) = p.map .char ++ parse cs := by
  induction p with
  | nil => rfl
  | cons c p ih =>
    rw [List.cons_append, parse_cons (hp c List.mem_cons_self),
      ih fun c hc => hp c (List.mem_cons_of_mem _ hc)]
    rfl

/-- A pattern ends with the run that is at its end, unless a backslash before it takes it
    for a character. What the tokens before it stand for has at most half as many
    special characters as the piece: a backslash, and what it takes. -/
theorem parse_append (o : Char) (ho : isSpecial o = false) (p : List Char) :
    ∃ ts, 2 * (sample o ts).countP isSpecial ≤ p.countP isSpecial ∧
      (parse (p ++ ['%']) = ts ++ [.run] ∨ parse (p ++ ['%']) = ts ++ [.char '%']) := by
  -- As the piece is parsed: what is at its end decides how the run after it is read.
  fun_induction parse p with
  | case1 => exact ⟨[], by simp [sample], .inl rfl⟩
  | case2 c cs ih =>
    obtain ⟨ts, hcount, hparse⟩ := ih
    refine ⟨.char c :: ts, ?_, by simpa [parse] using hparse⟩
    have hbackslash : isSpecial '\\' = true := rfl
    simp only [sample, List.countP_cons, hbackslash, if_true]
    split_ifs <;> omega
  | case3 cs ih =>
    obtain ⟨ts, hcount, hparse⟩ := ih
    refine ⟨.run :: ts, ?_, by simpa [parse] using hparse⟩
    rw [sample, List.countP_cons]
    omega
  | case4 cs ih =>
    obtain ⟨ts, hcount, hparse⟩ := ih
    refine ⟨.one :: ts, ?_, by simpa [parse] using hparse⟩
    simp only [sample, List.countP_cons, ho, Bool.false_eq_true, if_false]
    omega
  | case5 c cs h1 h2 h3 ih =>
    by_cases hbackslash : c = '\\'
    · -- A backslash at the end takes the run after the piece.
      cases cs with
      | nil => exact ⟨[], Nat.zero_le _, .inr (by rw [hbackslash]; rfl)⟩
      | cons d cs => exact (h1 d cs hbackslash rfl).elim
    · have hc : isSpecial c = false := by
        simp only [isSpecial, Bool.or_eq_false_iff, decide_eq_false_iff_not]
        exact ⟨⟨h2, h3⟩, hbackslash⟩
      obtain ⟨ts, hcount, hparse⟩ := ih
      refine ⟨.char c :: ts, ?_, ?_⟩
      · simpa [sample, List.countP_cons, hc] using hcount
      · rw [List.cons_append, parse_cons hc]
        simpa using hparse

/-! ## Looking for pieces -/

section

variable {same : Char → Char → Bool}

/-- The pattern to look for a piece. -/
def pattern (p : List Char) : List Char := '%' :: (p ++ ['%'])

/-- The pattern of a text without special characters is matched by what contains the text. -/
theorem isMatch_pattern {p xs : List Char} (hp : ∀ c ∈ p, isSpecial c = false) :
    isMatch same (parse (pattern p)) xs = true ↔ Contains same p xs := by
  have hparse : parse (pattern p) = .run :: (p.map .char ++ [.run]) := by
    rw [pattern, parse, parse_plain hp]
    rfl
  rw [hparse, isMatch_run_chars]

/-- If characters are the same as themselves, what contains a text literally contains it. -/
theorem contains_of_infix (hrefl : ∀ c, same c c = true) {p xs : List Char} (h : p <:+: xs) :
    Contains same p xs :=
  ⟨p, h, List.forall₂_same.2 fun c _ => hrefl c⟩

/-- Characters that are the same are both special, or both not. -/
theorem Contains.exists_part (hspecial : ∀ c d, same c d = true → isSpecial c = isSpecial d)
    {p xs : List Char} (h : Contains same p xs) :
    ∃ mid, mid <:+: xs ∧ mid.length = p.length ∧ mid.countP isSpecial = p.countP isSpecial := by
  obtain ⟨mid, hmid, hsame⟩ := h
  refine ⟨mid, hmid, hsame.length_eq, ?_⟩
  clear hmid
  induction hsame with
  | nil => rfl
  | cons hx _ ih => rw [List.countP_cons, List.countP_cons, ih, hspecial _ _ hx]

/-- A short part of the sample has no special character: it lies within a separator. -/
theorem countP_eq_zero_of_prefix {sep tail : List Char} (hsep : sep.countP isSpecial = 0)
    (htail : tail.countP isSpecial = 0) {texts : List (List Char)} {m : List Char}
    (hlen : m.length ≤ sep.length) (h : m <+: texts.flatMap (sep ++ ·) ++ tail) :
    m.countP isSpecial = 0 := by
  cases texts with
  | nil => exact Nat.le_zero.1 (htail ▸ h.sublist.countP_le)
  | cons text texts =>
    rw [List.flatMap_cons, List.append_assoc, List.append_assoc] at h
    have hm : m <+: sep := List.prefix_of_prefix_length_le h (List.prefix_append _ _) hlen
    exact Nat.le_zero.1 (hsep ▸ hm.sublist.countP_le)

/-- If texts are kept apart by long separators, what is short has special characters of
    one of them only. -/
theorem countP_infix_le {sep tail : List Char} (hsep : sep.countP isSpecial = 0)
    (htail : tail.countP isSpecial = 0) {texts : List (List Char)} {mid : List Char}
    (hlen : mid.length ≤ sep.length) (h : mid <:+: texts.flatMap (sep ++ ·) ++ tail) :
    mid.countP isSpecial = 0 ∨
      ∃ text ∈ texts, mid.countP isSpecial ≤ text.countP isSpecial := by
  induction texts with
  | nil => exact .inl (Nat.le_zero.1 (htail ▸ h.sublist.countP_le))
  | cons text texts ih =>
    have hcount : (sep ++ text).countP isSpecial = text.countP isSpecial := by
      rw [List.countP_append, hsep, Nat.zero_add]
    rw [List.flatMap_cons, List.append_assoc] at h
    rcases List.infix_append_iff.1 h with h | h | ⟨m₁, m₂, rfl, h₁, h₂⟩
    · exact .inr ⟨text, List.mem_cons_self, hcount ▸ h.sublist.countP_le⟩
    · rcases ih h with hzero | ⟨text', htext', hle⟩
      · exact .inl hzero
      · exact .inr ⟨text', List.mem_cons_of_mem _ htext', hle⟩
    · -- The infix goes on after the text, but not beyond the next separator.
      rw [List.length_append] at hlen
      have hzero := countP_eq_zero_of_prefix hsep htail (by omega) h₂
      refine .inr ⟨text, List.mem_cons_self, ?_⟩
      rw [List.countP_append, hzero, Nat.add_zero]
      exact hcount ▸ h₁.sublist.countP_le

/-- Where a piece has a special character, some text with the end `tail` is found without
    containing all pieces, or contains them and is not found. -/
theorem exists_differs (hrefl : ∀ c, same c c = true)
    (hspecial : ∀ c d, same c d = true → isSpecial c = isSpecial d) {pieces : List (List Char)}
    (h : ∃ p ∈ pieces, ∃ c ∈ p, isSpecial c = true) {tail : List Char} (hne : tail ≠ [])
    (htail : tail.countP isSpecial = 0) :
    ∃ text, ¬((∀ p ∈ pieces, isMatch same (parse (pattern p)) (text ++ tail) = true) ↔
      ∀ p ∈ pieces, Contains same p (text ++ tail)) := by
  have ho : isSpecial 'a' = false := rfl
  choose ts hcount hparse using parse_append 'a' ho
  by_cases hdangling : ∃ p ∈ pieces, parse (p ++ ['%']) = ts p ++ [.char '%']
  · -- A text with all pieces in it does not end with the percent sign.
    obtain ⟨p, hp, hdangling⟩ := hdangling
    refine ⟨pieces.flatten, fun hiff => ?_⟩
    have hcontains : ∀ p ∈ pieces, Contains same p (pieces.flatten ++ tail) := fun p hp =>
      contains_of_infix hrefl
        ((List.infix_of_mem_flatten hp).trans (List.prefix_append _ _).isInfix)
    have hmatch := hiff.2 hcontains p hp
    rw [pattern, parse, hdangling, ← List.cons_append] at hmatch
    obtain ⟨x, hx, hsame⟩ := exists_last_of_isMatch hmatch
    have hmem : x ∈ tail := by
      rw [List.getLast?_append_of_ne_nil _ hne] at hx
      exact List.mem_of_getLast? hx
    have hzero : ¬ isSpecial x = true := List.countP_eq_zero.1 htail x hmem
    exact hzero ((hspecial x '%' hsame).trans rfl)
  · -- The samples match, but of special characters they have too few to contain the
    -- piece that has most of them.
    push Not at hdangling
    have hrun : ∀ p ∈ pieces, parse (p ++ ['%']) = ts p ++ [.run] := fun p hp =>
      (hparse p).resolve_right (hdangling p hp)
    let sep : List Char := List.replicate pieces.flatten.length 'a'
    have hsep : sep.countP isSpecial = 0 := List.countP_eq_zero.2 fun c hc => by
      rw [List.eq_of_mem_replicate hc, ho]; nofun
    refine ⟨(pieces.map fun p => sample 'a' (ts p)).flatMap (sep ++ ·), fun hiff => ?_⟩
    have hmatch : ∀ p ∈ pieces, isMatch same (parse (pattern p))
        ((pieces.map fun p => sample 'a' (ts p)).flatMap (sep ++ ·) ++ tail) = true := by
      intro p hp
      have hmem : sep ++ sample 'a' (ts p) ∈
          (pieces.map fun p => sample 'a' (ts p)).map (sep ++ ·) :=
        List.mem_map_of_mem (List.mem_map_of_mem hp)
      obtain ⟨pre, post, heq⟩ := List.infix_of_mem_flatten hmem
      rw [pattern, parse, hrun p hp, List.flatMap_def, ← heq, isMatch_run]
      exact ⟨_, ⟨pre ++ sep, by simp⟩, isMatch_sample hrefl 'a' (ts p) (post ++ tail)⟩
    obtain ⟨q, hq, c, hc, hspecial'⟩ := h
    have hcountq : 0 < q.countP isSpecial := List.countP_pos_iff.2 ⟨c, hc, hspecial'⟩
    obtain ⟨p, hp, hmax⟩ := pieces.toFinset.exists_max_image (·.countP isSpecial)
      ⟨q, List.mem_toFinset.2 hq⟩
    rw [List.mem_toFinset] at hp
    have hcountp := hmax q (List.mem_toFinset.2 hq)
    obtain ⟨mid, hmid, hlength, hmidcount⟩ := (hiff.1 hmatch p hp).exists_part hspecial
    have hlen : mid.length ≤ sep.length := by
      rw [hlength, List.length_replicate]
      exact (List.infix_of_mem_flatten hp).length_le
    rcases countP_infix_le hsep htail hlen hmid with hzero | ⟨text, htext, hle⟩
    · omega
    · obtain ⟨p', hp', rfl⟩ := List.mem_map.1 htext
      have hsample := hcount p'
      have hcountp' := hmax p' (List.mem_toFinset.2 hp')
      omega

end

end Like
