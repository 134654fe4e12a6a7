import Mathlib.Data.List.TakeWhile
import Knowtfolio.Data.Hex

/-!
# Addresses and their paths

Bytes that have a meaning in an address are written by their digits: `encodeURI` writes so all
but those of a whole address, and `percentDecode` reads them. The path of an address ends at
the first `?` or `#`; its segments are what is between the slashes, of which those that are
dots are not taken as they are (`removeDots`).

So the path of an encoded text denotes the text exactly if this has neither a `?` nor a `#`,
and no segment of it is one or two dots (`plainPath_eq_iff`).

Encoding commutes with every step of the way to the path, from the bytes up: cutting at `?` and `#`
(`takeWhile_escaped`), splitting at the slashes (`splitOnP_escaped`), and taking the dots away
(`removeDots_escaped`). What is left is a fact about plain texts, which the lengths of the paths
decide (`length_removeDots`).
-/

namespace Url

open Hex

/-! ## Bytes that are written by their digits -/

/-- The bytes that `encodeURI` leaves as they are: letters, digits, those that have a meaning
    in an address, and some marks. -/
def isUnescaped (b : UInt8) : Bool :=
  (48 ≤ b && b ≤ 57) || (65 ≤ b && b ≤ 90) || (97 ≤ b && b ≤ 122) ||
    b ∈ [59, 44, 47, 63, 58, 64, 38, 61, 43, 36, 45, 95, 46, 33, 126, 42, 39, 40, 41, 35]

/-- A byte, written by its digits if it is to be. -/
def escape (b : UInt8) : List UInt8 :=
  if isUnescaped b then [b] else [37, digit true (b.toNat / 16), digit true (b.toNat % 16)]

/-- The bytes of an encoded text. -/
def escaped (bs : List UInt8) : List UInt8 := bs.flatMap escape

/-- `encodeURI`. -/
def encodeURI (s : String) : String := ascii (escaped (utf8 s))

/-- The byte that is written by two digits after the sign. -/
def unescape (b x y : UInt8) : Option UInt8 :=
  if b = 37 then
    (value x).bind fun m => (value y).map fun n => UInt8.ofNat (16 * m + n)
  else none

/-- The bytes that are meant. A sign without two digits is meant by itself. -/
def percentDecode : List UInt8 → List UInt8
  | b :: x :: y :: bs =>
    match unescape b x y with
    | some d => d :: percentDecode bs
    | none => b :: percentDecode (x :: y :: bs)
  | bs => bs

@[simp] theorem escaped_nil : escaped [] = [] := rfl
@[simp] theorem escaped_cons (b : UInt8) (bs : List UInt8) :
    escaped (b :: bs) = escape b ++ escaped bs := rfl

/-- Bytes are encoded one after the other. -/
theorem escaped_append (bs bs' : List UInt8) : escaped (bs ++ bs') = escaped bs ++ escaped bs' :=
  List.flatMap_append

/-- Some bytes are encoded as themselves. -/
theorem escape_of_isUnescaped {b : UInt8} (h : isUnescaped b = true) : escape b = [b] := if_pos h

/-- A text of characters that stand for themselves is escaped to itself. -/
theorem escaped_of_isUnescaped {bs : List UInt8} (h : ∀ b ∈ bs, isUnescaped b = true) :
    escaped bs = bs := by
  induction bs with
  | nil => rfl
  | cons b bs ih =>
    rw [List.forall_mem_cons] at h
    rw [escaped_cons, escape_of_isUnescaped h.1, ih h.2]
    rfl

/-- Neither digits nor the percent sign end a path or a segment of it. -/
theorem isUnescaped_digit {n : ℕ} (hn : n < 16) : isUnescaped (digit true n) = true ∧
    digit true n ∉ ([35, 47, 63] : List UInt8) := by
  interval_cases n <;> decide

/-- What is written for a byte is the byte, or has no meaning but that of a sign and digits. -/
theorem mem_escape {b x : UInt8} (hx : x ∈ escape b) :
    (x = b ∧ isUnescaped b = true) ∨
      ((x = 37 ∨ isUnescaped x = true) ∧ x ∉ ([35, 47, 63] : List UInt8) ∧
        isUnescaped b = false) := by
  rw [escape] at hx
  split at hx
  next hb => exact .inl ⟨List.mem_singleton.1 hx, hb⟩
  next hb =>
    have hb : isUnescaped b = false := by simpa using hb
    have := b.toNat_lt
    simp only [List.mem_cons, List.not_mem_nil, or_false] at hx
    rcases hx with rfl | rfl | rfl
    · exact .inr ⟨.inl rfl, by decide, hb⟩
    · obtain ⟨h, h'⟩ := isUnescaped_digit (n := b.toNat / 16) (by omega)
      exact .inr ⟨.inr h, h', hb⟩
    · obtain ⟨h, h'⟩ := isUnescaped_digit (n := b.toNat % 16) (by omega)
      exact .inr ⟨.inr h, h', hb⟩

/-- What stands for itself is visible ASCII, and no backslash. -/
theorem range_of_isUnescaped {b : UInt8} (h : isUnescaped b = true) :
    32 < b ∧ b < 128 ∧ b ≠ 92 := by
  have hall : ∀ n < 256, isUnescaped (UInt8.ofNat n) = true →
      32 < UInt8.ofNat n ∧ UInt8.ofNat n < 128 ∧ UInt8.ofNat n ≠ 92 := by decide +kernel
  have hb := hall b.toNat b.toNat_lt
  rw [UInt8.ofNat_toNat] at hb
  exact hb h

/-- The bytes of an encoded text are printable, and no backslashes. -/
theorem range_of_mem_escaped {b : UInt8} {bs : List UInt8} (h : b ∈ escaped bs) :
    32 < b ∧ b < 128 ∧ b ≠ 92 := by
  obtain ⟨b', -, hb⟩ := List.mem_flatMap.1 h
  rcases mem_escape hb with ⟨rfl, hb'⟩ | ⟨rfl | hx, -⟩
  · exact range_of_isUnescaped hb'
  · decide
  · exact range_of_isUnescaped hx

/-- What is encoded is ASCII, so that its bytes are its characters. -/
theorem utf8_encodeURI (s : String) : utf8 (encodeURI s) = escaped (utf8 s) :=
  utf8_ascii fun _ hb => (range_of_mem_escaped hb).2.1

/-- A byte that is no percent sign stands for itself. -/
theorem percentDecode_cons_of_ne {b : UInt8} (hb : b ≠ 37) (bs : List UInt8) :
    percentDecode (b :: bs) = b :: percentDecode bs := by
  match bs with
  | [] => rfl
  | [x] => rfl
  | x :: y :: bs => rw [percentDecode, unescape, if_neg hb]

/-- What was escaped is decoded to what it was. -/
theorem percentDecode_escape_append (b : UInt8) (bs : List UInt8) :
    percentDecode (escape b ++ bs) = b :: percentDecode bs := by
  rw [escape]
  split
  next hb =>
    have hne : b ≠ 37 := fun heq => by
      rw [heq] at hb
      exact absurd hb (by decide)
    exact percentDecode_cons_of_ne hne bs
  next =>
    have := b.toNat_lt
    simp only [List.cons_append, List.nil_append, percentDecode, unescape, if_pos]
    rw [value_digit (by omega), value_digit (by omega)]
    simp only [Option.bind_some, Option.map_some]
    rw [Nat.div_add_mod, UInt8.ofNat_toNat]

/-- What was encoded is what is meant. -/
theorem percentDecode_escaped (bs : List UInt8) : percentDecode (escaped bs) = bs := by
  induction bs with
  | nil => rfl
  | cons b bs ih => rw [escaped_cons, percentDecode_escape_append, ih]

/-! ## Paths -/

/-- A part of a path, between two slashes. -/
abbrev Segment := List UInt8

/-- The bytes between which segments are. -/
def isSlash (b : UInt8) : Bool := b = 47 || b = 92

/-- A byte of the path, which ends where the query or the fragment begins. -/
def isPathByte (b : UInt8) : Bool := b ≠ 63 && b ≠ 35

/-- The segment is one dot, however that is written. -/
def isSingleDot (s : Segment) : Bool := s ∈ [utf8 ".", utf8 "%2e", utf8 "%2E"]

/-- The segment is two dots, however they are written. -/
def isDoubleDot (s : Segment) : Bool :=
  s ∈ [utf8 "..", utf8 ".%2e", utf8 ".%2E", utf8 "%2e.", utf8 "%2E.", utf8 "%2e%2e",
    utf8 "%2e%2E", utf8 "%2E%2e", utf8 "%2E%2E"]

/-- The segments of a path, after those before them, the last of which comes first. One dot is
    left out, and two dots with the segment before them, but the path stays one of a
    directory. -/
def removeDots (single double : Segment → Bool) : List Segment → List Segment → List Segment
  | before, [] => before.reverse
  | before, [s] =>
    if double s then ([] :: before.tail).reverse
    else if single s then ([] :: before).reverse
    else (s :: before).reverse
  | before, s :: s' :: rest =>
    if double s then removeDots single double before.tail (s' :: rest)
    else if single s then removeDots single double before (s' :: rest)
    else removeDots single double (s :: before) (s' :: rest)

/-- A path as it is written. -/
def serialize (segments : List Segment) : List UInt8 := segments.flatMap (47 :: ·)

/-- The path of an address, by what comes after its host. -/
def path (rest : List UInt8) : List UInt8 :=
  serialize (removeDots isSingleDot isDoubleDot []
    (((rest.takeWhile isPathByte).drop 1).splitOnP isSlash))

/-- An address without the white space around it, and without tabs and the ends of lines. -/
def clean (bs : List UInt8) : List UInt8 :=
  ((bs.dropWhile (· ≤ 32)).reverse.dropWhile (· ≤ 32)).reverse.filter fun b => b ∉ [9, 10, 13]

/-- The path of an address, if it begins with the origin given. -/
def pathOf (origin url : String) : Option (List UInt8) :=
  let bs := clean (utf8 url)
  let rest := bs.drop (utf8 origin).length
  if (utf8 origin).isPrefixOf bs ∧ rest.head? ∈ [none, some 47, some 92, some 63, some 35] then
    some (path rest)
  else none

/-! ## Segments -/

section

variable {p : UInt8 → Bool} {l bs : List UInt8}

/-- What has no separator goes to the first part. -/
theorem splitOnP_append_of_forall (hl : ∀ b ∈ l, p b = false) :
    (l ++ bs).splitOnP p = (bs.splitOnP p).modifyHead (l ++ ·) := by
  induction l with
  | nil =>
    rw [List.nil_append]
    cases bs.splitOnP p <;> rfl
  | cons b l ih =>
    rw [List.forall_mem_cons] at hl
    rw [List.cons_append, List.splitOnP_cons_eq_if_modifyHead, hl.1, if_neg Bool.false_ne_true,
      ih hl.2]
    cases bs.splitOnP p <;> rfl

/-- Segments are the path without its slashes. -/
theorem serialize_splitOnP : serialize (bs.splitOnP (· = 47)) = 47 :: bs := by
  induction bs with
  | nil => rfl
  | cons b bs ih =>
    rw [List.splitOnP_cons_eq_if_modifyHead]
    split
    next hb =>
      have hb : b = 47 := by simpa using hb
      rw [serialize, List.flatMap_cons, ← serialize, ih, hb]
      rfl
    next =>
      obtain ⟨s, rest, hs⟩ := List.exists_cons_of_ne_nil (List.splitOnP_ne_nil (· = 47) bs)
      rw [hs] at ih ⊢
      simp only [serialize, List.flatMap_cons, List.cons_append, List.cons.injEq, true_and,
        List.modifyHead_cons] at ih ⊢
      rw [ih]

/-- What is encoded has its slashes where the text has them. -/
theorem splitOnP_escaped :
    (escaped bs).splitOnP isSlash = (bs.splitOnP (· = 47)).map escaped := by
  induction bs with
  | nil => rfl
  | cons b bs ih =>
    by_cases hb : b = 47
    · subst hb
      rw [escaped_cons, escape_of_isUnescaped (by decide), List.cons_append, List.nil_append,
        List.splitOnP_cons_eq_if_modifyHead, List.splitOnP_cons_eq_if_modifyHead,
        if_pos (by decide), if_pos (by decide), ih]
      rfl
    · -- The escape of any other byte has neither a slash nor a backslash in it.
      have hslash : ∀ x ∈ escape b, isSlash x = false := by
        intro x hx
        have hescaped : x ∈ escaped [b] := by simpa using hx
        have hx92 : x ≠ 92 := (range_of_mem_escaped hescaped).2.2
        have hx47 : x ≠ 47 := by
          rcases mem_escape hx with ⟨rfl, -⟩ | ⟨-, hmarks, -⟩
          · exact hb
          · exact fun heq => hmarks (by simp [heq])
        simp [isSlash, hx47, hx92]
      rw [escaped_cons, splitOnP_append_of_forall hslash, ih,
        List.splitOnP_cons_eq_if_modifyHead, if_neg (by simpa using hb)]
      cases bs.splitOnP (· = 47) <;> rfl

/-- What is encoded has its path where the text has it. -/
theorem takeWhile_escaped :
    (escaped bs).takeWhile isPathByte = escaped (bs.takeWhile isPathByte) := by
  induction bs with
  | nil => rfl
  | cons b bs ih =>
    by_cases hb : isPathByte b = true
    · have hpath : ∀ x ∈ escape b, isPathByte x = true := by
        intro x hx
        rcases mem_escape hx with ⟨rfl, -⟩ | ⟨-, hmarks, -⟩
        · exact hb
        · simp only [List.mem_cons, not_or] at hmarks
          simp [isPathByte, hmarks.1, hmarks.2.2.1]
      rw [escaped_cons, List.takeWhile_append_of_pos hpath, ih, List.takeWhile_cons_of_pos hb]
      rfl
    · -- The bytes that end a path, `?` and `#`, are left as they are.
      have hunescaped : isUnescaped b = true := by
        have : b = 63 ∨ b = 35 := by
          simp only [isPathByte, Bool.and_eq_true, decide_eq_true_eq] at hb
          tauto
        rcases this with rfl | rfl <;> decide
      rw [escaped_cons, escape_of_isUnescaped hunescaped, List.cons_append,
        List.takeWhile_cons_of_neg hb, List.takeWhile_cons_of_neg hb]
      rfl

end

/-! ## Dots -/

/-- A segment is dots exactly if it is them when it is decoded. -/
theorem isSingleDot_escaped {s : Segment} : isSingleDot (escaped s) = decide (s = [46]) := by
  by_cases hs : s = [46]
  · subst hs
    decide
  · rw [decide_eq_false hs, Bool.eq_false_iff]
    intro hdot
    have hdecode : ∀ x ∈ [utf8 ".", utf8 "%2e", utf8 "%2E"], percentDecode x = [46] := by decide
    have hmem : escaped s ∈ [utf8 ".", utf8 "%2e", utf8 "%2E"] := of_decide_eq_true hdot
    exact hs (percentDecode_escaped s ▸ hdecode _ hmem)

/-- Of the spellings of the double dot, escaping gives only the plain one: it escapes no dot, and
    percent signs are escaped again. -/
theorem isDoubleDot_escaped {s : Segment} : isDoubleDot (escaped s) = decide (s = [46, 46]) := by
  by_cases hs : s = [46, 46]
  · subst hs
    decide
  · rw [decide_eq_false hs, Bool.eq_false_iff]
    intro hdots
    have hdecode : ∀ x ∈ [utf8 "..", utf8 ".%2e", utf8 ".%2E", utf8 "%2e.", utf8 "%2E.",
        utf8 "%2e%2e", utf8 "%2e%2E", utf8 "%2E%2e", utf8 "%2E%2E"],
        percentDecode x = [46, 46] := by decide
    exact hs (percentDecode_escaped s ▸ hdecode _ (of_decide_eq_true hdots))

/-- Dots that are removed after encoding are those of the text. -/
theorem removeDots_escaped (before segments : List Segment) :
    removeDots isSingleDot isDoubleDot (before.map escaped) (segments.map escaped) =
      (removeDots (· = [46]) (· = [46, 46]) before segments).map escaped := by
  induction before, segments using removeDots.induct (· = [46]) (· = [46, 46]) with
  | case1 before => simp [removeDots]
  | case2 before s hdouble => simp [removeDots, isDoubleDot_escaped, hdouble]
  | case3 before s hdouble hsingle =>
    simp [removeDots, isDoubleDot_escaped, isSingleDot_escaped, hdouble, hsingle]
  | case4 before s hdouble hsingle =>
    simp [removeDots, isDoubleDot_escaped, isSingleDot_escaped, hdouble, hsingle]
  | case5 before s s' rest hdouble ih =>
    rw [List.map_cons, List.map_cons, removeDots, removeDots, isDoubleDot_escaped, if_pos hdouble,
      if_pos hdouble, ← List.map_tail]
    exact ih
  | case6 before s s' rest hdouble hsingle ih =>
    rw [List.map_cons, List.map_cons, removeDots, removeDots, isDoubleDot_escaped,
      isSingleDot_escaped, if_neg hdouble, if_neg hdouble, if_pos hsingle, if_pos hsingle]
    exact ih
  | case7 before s s' rest hdouble hsingle ih =>
    rw [List.map_cons, List.map_cons, removeDots, removeDots, isDoubleDot_escaped,
      isSingleDot_escaped, if_neg hdouble, if_neg hdouble, if_neg hsingle, if_neg hsingle]
    exact ih

/-- The path of a text, as `path` would have it, if nothing in it were encoded. -/
def plainPath (bs : List UInt8) : List UInt8 :=
  serialize (removeDots (· = [46]) (· = [46, 46]) []
    ((bs.takeWhile isPathByte).splitOnP (· = 47)))

/-- A path starts with a slash. -/
theorem eq_slash_of_serialize {segments : List Segment} {b : UInt8} {bs : List UInt8}
    (h : serialize segments = b :: bs) : b = 47 := by
  cases segments with
  | nil => cases h
  | cons s rest =>
    cases h
    rfl

/-- Slashes are not escaped. -/
theorem serialize_map_escaped (segments : List Segment) :
    serialize (segments.map escaped) = escaped (serialize segments) := by
  induction segments with
  | nil => rfl
  | cons s rest ih =>
    have hslash : escape 47 = [47] := by decide
    simp only [serialize, List.map_cons, List.flatMap_cons] at ih ⊢
    rw [escaped_append, escaped_cons, hslash, ih]
    rfl

/-- The path of an escaped text is that of the text, escaped. -/
theorem path_escaped (bs : List UInt8) : path (47 :: escaped bs) = escaped (plainPath bs) := by
  have hcut : ((47 :: escaped bs).takeWhile isPathByte).drop 1 =
      escaped (bs.takeWhile isPathByte) := by
    rw [List.takeWhile_cons_of_pos (by decide), takeWhile_escaped]
    rfl
  rw [path, hcut, splitOnP_escaped, plainPath, ← serialize_map_escaped]
  exact congrArg serialize (removeDots_escaped [] _)

/-- Addresses of printable bytes have no white space. -/
theorem clean_eq {bs : List UInt8} (h : ∀ b ∈ bs, 32 < b) : clean bs = bs := by
  have hnot : ∀ {l : List UInt8}, (∀ b ∈ l, 32 < b) → l.dropWhile (· ≤ 32) = l := by
    intro l hl
    cases l with
    | nil => rfl
    | cons b l =>
      have hb : ¬ b ≤ 32 := UInt8.not_le.2 (hl b List.mem_cons_self)
      rw [List.dropWhile_cons_of_neg (by simpa using hb)]
  rw [clean, hnot h, hnot fun b hb => h b (List.mem_reverse.1 hb), List.reverse_reverse,
    List.filter_eq_self]
  intro b hb
  have hrange := h b hb
  rw [decide_eq_true_eq]
  intro hmem
  simp only [List.mem_cons, List.not_mem_nil, or_false] at hmem
  rcases hmem with rfl | rfl | rfl <;> exact absurd hrange (by decide)

/-- The path of an encoded address is that of its text, encoded. -/
theorem pathOf_encodeURI {origin : String} (horigin : ∀ b ∈ utf8 origin, isUnescaped b = true)
    (s : String) :
    pathOf origin (encodeURI (origin ++ "/" ++ s)) = some (escaped (plainPath (utf8 s))) := by
  have hbytes : utf8 (encodeURI (origin ++ "/" ++ s)) =
      utf8 origin ++ 47 :: escaped (utf8 s) := by
    have hslash : escaped (utf8 "/") = [47] := by decide
    rw [utf8_encodeURI, utf8_append, utf8_append, escaped_append, escaped_append,
      escaped_of_isUnescaped horigin, hslash, List.append_assoc]
    rfl
  have hclean : clean (utf8 (encodeURI (origin ++ "/" ++ s))) =
      utf8 origin ++ 47 :: escaped (utf8 s) := by
    rw [clean_eq, hbytes]
    intro b hb
    rw [utf8_encodeURI] at hb
    exact (range_of_mem_escaped hb).1
  rw [pathOf, hclean]
  rw [List.drop_left, if_pos, path_escaped]
  exact ⟨by simp, by simp⟩

/-! ## Texts that are paths by themselves -/

/-- The text is a path, to its end, and has no segments that are dots. -/
def IsPlain (bs : List UInt8) : Prop :=
  (∀ b ∈ bs, isPathByte b = true) ∧ ∀ s ∈ bs.splitOnP (· = 47), s ≠ [46] ∧ s ≠ [46, 46]

instance : DecidablePred IsPlain := fun bs =>
  inferInstanceAs (Decidable ((∀ b ∈ bs, isPathByte b = true) ∧
    ∀ s ∈ bs.splitOnP (· = 47), s ≠ [46] ∧ s ≠ [46, 46]))

section

variable {segments before : List Segment}

@[simp] theorem length_serialize_nil : (serialize []).length = 0 := rfl

@[simp] theorem length_serialize_cons (s : Segment) :
    (serialize (s :: segments)).length = s.length + 1 + (serialize segments).length := by
  rw [serialize, List.flatMap_cons, List.length_append]
  rfl

@[simp] theorem length_serialize_append :
    (serialize (before ++ segments)).length =
      (serialize before).length + (serialize segments).length := by
  rw [serialize, List.flatMap_append, List.length_append]
  rfl

@[simp] theorem length_serialize_reverse :
    (serialize segments.reverse).length = (serialize segments).length := by
  simp [serialize, List.length_flatMap, List.sum_reverse]

/-- A path from which a segment was taken is not longer. -/
theorem length_serialize_tail : (serialize segments.tail).length ≤ (serialize segments).length := by
  cases segments with
  | nil => exact Nat.le_refl _
  | cons s rest =>
    rw [length_serialize_cons]
    exact Nat.le_add_left _ _

/-- Where dots are removed, the path gets shorter. -/
theorem length_removeDots (before segments : List Segment) :
    (serialize (removeDots (· = [46]) (· = [46, 46]) before segments)).length ≤
        (serialize before).length + (serialize segments).length ∧
      ((∃ s ∈ segments, s = [46] ∨ s = [46, 46]) →
        (serialize (removeDots (· = [46]) (· = [46, 46]) before segments)).length <
          (serialize before).length + (serialize segments).length) := by
  have htail := @length_serialize_tail
  -- A single dot goes by itself; a double dot takes the segment before it, if there is one.
  induction before, segments using removeDots.induct (· = [46]) (· = [46, 46]) with
  | case1 before => simp [removeDots]
  | case2 before s hdouble =>
    have hs : s = [46, 46] := of_decide_eq_true hdouble
    have := @htail before
    simp [removeDots, hs]
    omega
  | case3 before s hdouble hsingle =>
    have hs : s = [46] := of_decide_eq_true hsingle
    simp [removeDots, hs]
  | case4 before s hdouble hsingle =>
    simp only [decide_eq_true_eq] at hdouble hsingle
    simp [removeDots, hdouble, hsingle]
  | case5 before s s' rest hdouble ih =>
    have hs : s = [46, 46] := of_decide_eq_true hdouble
    have := @htail before
    rw [removeDots, if_pos hdouble, length_serialize_cons s, hs]
    simp only [List.length_cons, List.length_nil]
    omega
  | case6 before s s' rest hdouble hsingle ih =>
    have hs : s = [46] := of_decide_eq_true hsingle
    rw [removeDots, if_neg hdouble, if_pos hsingle, length_serialize_cons s, hs]
    simp only [List.length_cons, List.length_nil]
    omega
  | case7 before s s' rest hdouble hsingle ih =>
    simp only [decide_eq_true_eq] at hdouble hsingle
    obtain ⟨hle, hlt⟩ := ih
    rw [length_serialize_cons] at hle hlt
    rw [removeDots, if_neg (by simpa using hdouble), if_neg (by simpa using hsingle),
      length_serialize_cons s]
    refine ⟨by omega, fun ⟨t, ht, hdots⟩ => ?_⟩
    rcases List.mem_cons.1 ht with rfl | ht
    · exact absurd hdots (not_or.2 ⟨hsingle, hdouble⟩)
    · have := hlt ⟨t, ht, hdots⟩
      omega

/-- Where there are no dots, nothing is removed. -/
theorem removeDots_of_forall (h : ∀ s ∈ segments, s ≠ [46] ∧ s ≠ [46, 46]) :
    removeDots (· = [46]) (· = [46, 46]) before segments = before.reverse ++ segments := by
  induction segments generalizing before with
  | nil => simp [removeDots]
  | cons s rest ih =>
    rw [List.forall_mem_cons] at h
    cases rest with
    | nil => simp [removeDots, h.1.1, h.1.2]
    | cons s' rest =>
      rw [removeDots, if_neg (by simpa using h.1.2), if_neg (by simpa using h.1.1), ih h.2]
      simp

end

/-- The path of a text is the text itself exactly if it is one to its end, without dots. -/
theorem plainPath_eq_iff {bs : List UInt8} : plainPath bs = 47 :: bs ↔ IsPlain bs := by
  constructor
  · intro h
    obtain ⟨hle, hlt⟩ := length_removeDots [] ((bs.takeWhile isPathByte).splitOnP (· = 47))
    rw [← plainPath, h, serialize_splitOnP] at hle hlt
    simp only [length_serialize_nil, List.length_cons, Nat.zero_add] at hle hlt
    have hwhole : bs.takeWhile isPathByte = bs :=
      (List.takeWhile_prefix _).eq_of_length_le (Nat.le_of_succ_le_succ hle)
    rw [hwhole] at hlt
    refine ⟨List.takeWhile_eq_self_iff.1 hwhole, fun s hs => ?_⟩
    rw [← not_or]
    exact fun hdots => Nat.lt_irrefl _ (hlt ⟨s, hs, hdots⟩)
  · rintro ⟨hbytes, hdots⟩
    rw [plainPath, List.takeWhile_eq_self_iff.2 hbytes, removeDots_of_forall hdots]
    exact serialize_splitOnP

end Url
