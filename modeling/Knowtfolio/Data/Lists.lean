import Mathlib.Data.List.Forall2
import Mathlib.Data.List.Nodup

/-!
# Lists

What a development about histories needs of `List.filterMap`, a history being a list
of events of which some count, and one about loops of `List.Forall₂`, which relates
the elements of a list to what the loop makes of them; and that the pages of a list
cover it.
-/

namespace Lists

/-- A history of which every element satisfies `p` gets longer by one that does. -/
theorem forall_mem_concat {α : Type*} {p : α → Prop} {l : List α} {a : α} (hl : ∀ x ∈ l, p x)
    (ha : p a) : ∀ x ∈ l ++ [a], p x :=
  List.forall_mem_append.2 ⟨hl, List.forall_mem_singleton.2 ha⟩

variable {α β : Type} {f g : α → Option β}

/-- If what counts has no repetition, nothing counts at two places. -/
theorem getElem?_inj_of_nodup {l : List α} (h : (l.filterMap f).Nodup) {k k' : ℕ} {x y : α}
    (hx : l[k]? = some x) (hy : l[k']? = some y) {b : β} (hfx : f x = some b)
    (hfy : f y = some b) : k = k' := by
  induction l generalizing k k' with
  | nil => simp at hx
  | cons z l ih =>
    have hl : (l.filterMap f).Nodup := h.sublist ((List.sublist_cons_self z l).filterMap f)
    -- What counts as `b` later does not count as `b` at the head.
    have hhead : ∀ {w : α} {j : ℕ}, l[j]? = some w → f w = some b → f z ≠ some b := by
      intro w j hw hfw hz
      rw [List.filterMap_cons_some hz, List.nodup_cons] at h
      exact h.1 (List.mem_filterMap.2 ⟨w, List.mem_of_getElem? hw, hfw⟩)
    cases k with
    | zero => cases k' with
      | zero => rfl
      | succ k' =>
        cases hx
        exact absurd hfx (hhead (List.getElem?_cons_succ ▸ hy) hfy)
    | succ k => cases k' with
      | zero =>
        cases hy
        exact absurd hfy (hhead (List.getElem?_cons_succ ▸ hx) hfx)
      | succ k' =>
        rw [List.getElem?_cons_succ] at hx hy
        rw [ih hl hx hy]

/-- Where no value is taken twice, what has the value is one element. -/
theorem eq_of_nodup {l : List α} (h : (l.filterMap f).Nodup) {x y : α} (hx : x ∈ l) (hy : y ∈ l)
    {b : β} (hfx : f x = some b) (hfy : f y = some b) : x = y := by
  obtain ⟨k, hk⟩ := List.getElem?_of_mem hx
  obtain ⟨k', hk'⟩ := List.getElem?_of_mem hy
  cases getElem?_inj_of_nodup h hk hk' hfx hfy
  exact Option.some.inj (hk.symm.trans hk')

/-- When less counts. -/
theorem filterMap_sublist (h : ∀ a b, f a = some b → g a = some b) (l : List α) :
    (l.filterMap f).Sublist (l.filterMap g) := by
  induction l with
  | nil => exact .slnil
  | cons a l ih =>
    cases hf : f a with
    | none =>
      rw [List.filterMap_cons_none hf]
      exact ih.trans ((List.sublist_cons_self a l).filterMap g)
    | some b =>
      rw [List.filterMap_cons_some hf, List.filterMap_cons_some (h a b hf)]
      exact ih.cons_cons b

/-- The elements of a list from an index on, looked up one by one. -/
theorem filterMap_drop (l : List α) (n : ℕ) (f : α → Option β) :
    (l.drop n).filterMap f =
      (List.range' n (l.length - n)).filterMap fun i => (l[i]?).bind f := by
  have hl : (List.range' n (l.length - n)).map (l[·]?) = (l.drop n).map some := by
    apply List.ext_getElem (by simp)
    intro i h₁ h₂
    have hi : n + i < l.length := by simp at h₁; omega
    simp [hi]
  calc (l.drop n).filterMap f
      = ((l.drop n).map some).filterMap (·.bind f) := by rw [List.filterMap_map]; rfl
    _ = _ := by rw [← hl, List.filterMap_map]; rfl

/-- Two lists with the same elements, as far as they count. -/
theorem filterMap_perm {l l' : List α} (hl : l.Nodup) (hl' : l'.Nodup)
    (h : ∀ a, (f a).isSome = true → (a ∈ l ↔ a ∈ l')) :
    (l.filterMap f).Perm (l'.filterMap f) := by
  have hfilter : ∀ l : List α, l.filterMap f = (l.filter fun a => (f a).isSome).filterMap f :=
    fun l => by
      rw [List.filterMap_filter]
      refine List.filterMap_congr fun a _ => ?_
      cases f a <;> rfl
  rw [hfilter l, hfilter l']
  refine List.Perm.filterMap f
    ((List.perm_ext_iff_of_nodup (hl.filter _) (hl'.filter _)).2 fun a => ?_)
  simp only [List.mem_filter]
  exact and_congr_left (h a)

/-- The pages of a list cover it. -/
theorem mem_take_drop {l : List α} {n i : ℕ} (hn : 0 < n) {a : α} (h : l[i]? = some a) :
    a ∈ (l.drop (i / n * n)).take n := by
  refine List.mem_of_getElem? (i := i % n) ?_
  rw [List.getElem?_take_of_lt (Nat.mod_lt i hn), List.getElem?_drop, Nat.div_add_mod', h]

/-- Two parts of a list without repetition are the same only if they begin at the same
    place, or after its end. -/
theorem take_drop_inj {l : List α} (hl : l.Nodup) {n i j : ℕ} (hn : 0 < n) :
    (l.drop i).take n = (l.drop j).take n ↔ i = j ∨ l.length ≤ i ∧ l.length ≤ j := by
  constructor
  · intro h
    have hhead : l[i]? = l[j]? := by
      have h0 : ((l.drop i).take n)[0]? = ((l.drop j).take n)[0]? := by rw [h]
      simpa only [List.getElem?_take_of_lt hn, List.getElem?_drop, Nat.add_zero] using h0
    by_cases hi : i < l.length
    · exact .inl ((List.getElem?_inj hi hl).1 hhead)
    · rw [List.getElem?_eq_none (by omega), eq_comm, List.getElem?_eq_none_iff] at hhead
      exact .inr ⟨by omega, hhead⟩
  · rintro (rfl | ⟨hi, hj⟩)
    · rfl
    · rw [List.drop_eq_nil_of_le hi, List.drop_eq_nil_of_le hj]

/-! ## Related lists -/

section

variable {R : α → β → Prop} {l : List α} {l' : List β}

/-- What is on the right has something on the left. -/
theorem exists_left (h : List.Forall₂ R l l') {b : β} (hb : b ∈ l') : ∃ a ∈ l, R a b := by
  induction h with
  | nil => cases hb
  | cons hab _ ih =>
    rcases List.mem_cons.1 hb with rfl | hb
    · exact ⟨_, List.mem_cons_self, hab⟩
    · obtain ⟨a, ha, hr⟩ := ih hb
      exact ⟨a, List.mem_cons_of_mem _ ha, hr⟩

/-- What is on the left has something on the right. -/
theorem exists_right (h : List.Forall₂ R l l') {a : α} (ha : a ∈ l) : ∃ b ∈ l', R a b :=
  exists_left (R := flip R) (List.Forall₂.flip h) ha

/-- If all are related to something, so is the list. -/
theorem exists_forall₂ (h : ∀ a ∈ l, ∃ b, R a b) : ∃ l', List.Forall₂ R l l' := by
  induction l with
  | nil => exact ⟨[], .nil⟩
  | cons a l ih =>
    obtain ⟨b, hb⟩ := h a List.mem_cons_self
    obtain ⟨l', hl'⟩ := ih fun a ha => h a (List.mem_cons_of_mem _ ha)
    exact ⟨b :: l', .cons hb hl'⟩

end

theorem filterMap_concat {f : α → Option β} {l : List α} {a : α} :
    (l ++ [a]).filterMap f = l.filterMap f ++ (f a).toList := by
  rw [List.filterMap_append]
  cases h : f a <;> simp [h]

end Lists
