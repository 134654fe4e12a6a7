import Mathlib.Data.List.Basic

/-!
# Text

The functions of Go's `strings` that the server uses, on the characters of a
text.
-/

namespace Text

/-- `strings.TrimPrefix`. -/
def trimPrefix (s pre : String) : String :=
  match s.toList.dropPrefix? pre.toList with
  | some rest => String.ofList rest
  | none => s

/-- The prefix of a text that has it is all that is trimmed. -/
@[simp] theorem trimPrefix_append (pre s : String) : trimPrefix (pre ++ s) pre = s := by
  have h : (pre ++ s).toList.dropPrefix? pre.toList = some s.toList :=
    List.dropPrefix?_eq_some_iff.2 ⟨pre.toList, String.toList_append, beq_self_eq_true _⟩
  simp only [trimPrefix, h, String.ofList_toList]

/-- `strings.Split` at the character `sep`: the pieces between the separators,
    which are empty where two of them meet. -/
def split (s : String) (sep : Char) : List String := (s.toList.splitOn sep).map String.ofList

/-- The pieces have the characters of the text, but for the separator. -/
theorem mem_split {s : String} {sep c : Char} (hc : c ≠ sep) :
    (∃ piece ∈ split s sep, c ∈ piece.toList) ↔ c ∈ s.toList := by
  simp only [split, List.mem_map, exists_exists_and_eq_and, String.toList_ofList]
  induction s.toList with
  | nil => simp
  | cons x xs ih =>
    rw [List.splitOn_cons_eq_if_modifyHead, List.mem_cons, ← ih]
    cases hpieces : xs.splitOn sep with
    | nil => exact absurd hpieces (List.splitOn_ne_nil _ _)
    | cons p ps =>
      by_cases hx : x = sep
      · subst hx
        simp [hc]
      · simp [hx, or_assoc]

end Text
