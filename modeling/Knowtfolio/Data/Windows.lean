import Mathlib.Data.List.Nodup
import Mathlib.Data.List.Sort

/-!
# Windows of sorted lists

A list is read in windows of `s` elements, each window of a list of its own: they are
the arrangements of one list that are sorted by a key, and may differ in the order of
the elements with the same key. Together, the windows are the list again, unless the
end of one of them cuts between two elements with the same key (`Tie`,
`perm_flatMap_window`); where this is so, there is an arrangement of which the next
window begins with an element already read (`exists_of_tie`).
-/

namespace Windows

variable {α κ : Type} [LinearOrder κ] {key : α → κ} {l l' : List α} {s q b : ℕ}

/-- The list is sorted by the key. -/
def Sorted (key : α → κ) (l : List α) : Prop := l.Pairwise fun a b => key a ≤ key b

/-- The keys of a list, sorted. -/
def keys (key : α → κ) (l : List α) : List κ := (l.map key).insertionSort (· ≤ ·)

@[simp] theorem length_keys : (keys key l).length = l.length := by simp [keys]

/-- However a list is sorted by the key, its keys are the same. -/
theorem map_key_eq (hp : l'.Perm l) (hs : Sorted key l') : l'.map key = keys key l := by
  refine List.Perm.eq_of_pairwise' ?_ (List.pairwise_insertionSort _ _)
    ((hp.map key).trans (List.perm_insertionSort _ _).symm)
  exact List.pairwise_map.2 hs

/-- The keys do not depend on the order. -/
theorem keys_congr (hp : l'.Perm l) : keys key l' = keys key l :=
  List.Perm.eq_of_pairwise' (List.pairwise_insertionSort _ _) (List.pairwise_insertionSort _ _)
    (((List.perm_insertionSort _ _).trans (hp.map key)).trans (List.perm_insertionSort _ _).symm)

/-- The cut before the place `b` is between two equal keys. -/
def Tie (ks : List κ) (b : ℕ) : Prop := 0 < b ∧ b < ks.length ∧ ks[b - 1]? = ks[b]?

instance (ks : List κ) (b : ℕ) : Decidable (Tie ks b) := inferInstanceAs (Decidable (_ ∧ _ ∧ _))

/-- What is before a cut that is no tie are the elements of smaller keys. -/
theorem take_eq_filter (hs : Sorted key l) {i : ℕ} {k : κ} (hi : i + 1 < l.length)
    (hlt : key l[i] < k) (heq : key l[i + 1] = k) :
    l.take (i + 1) = l.filter fun a => key a < k := by
  -- The keys go up: those before the cut are smaller, those after it are not.
  have hle : ∀ {j j' : ℕ} (h : j ≤ j') (hj' : j' < l.length), key l[j] ≤ key l[j'] := by
    intro j j' h hj'
    rcases h.eq_or_lt with rfl | h
    · exact le_rfl
    · exact List.pairwise_iff_getElem.1 hs j j' _ hj' h
  have htake : (l.take (i + 1)).filter (fun a => key a < k) = l.take (i + 1) := by
    refine List.filter_eq_self.2 fun a ha => ?_
    obtain ⟨j, hj, rfl⟩ := List.mem_take_iff_getElem.1 ha
    exact decide_eq_true ((hle (by omega) (Nat.lt_of_succ_lt hi)).trans_lt hlt)
  have hdrop : (l.drop (i + 1)).filter (fun a => key a < k) = [] := by
    refine List.filter_eq_nil_iff.2 fun a ha => ?_
    obtain ⟨j, hj, rfl⟩ := List.mem_drop_iff_getElem.1 ha
    have hge := hle (show i + 1 ≤ j + (i + 1) by omega) hj
    rw [heq] at hge
    simpa [Nat.add_comm] using hge
  calc l.take (i + 1) = (l.take (i + 1) ++ l.drop (i + 1)).filter fun a => key a < k := by
        rw [List.filter_append, htake, hdrop, List.append_nil]
    _ = l.filter fun a => key a < k := by rw [List.take_append_drop]

/-- A cut that is no tie has the same elements before it, however the list is sorted. -/
theorem take_perm_take (hp : l'.Perm l) (hs : Sorted key l) (hs' : Sorted key l')
    (hb : ¬ Tie (keys key l) b) : (l'.take b).Perm (l.take b) := by
  -- However the list is sorted, the keys are at the same places.
  have hkeys : l'.map key = l.map key := by rw [map_key_eq hp hs', map_key_eq (.refl l) hs]
  have hkey : ∀ {j : ℕ} (hj : j < l.length) (hj' : j < l'.length), key l'[j] = key l[j] := by
    intro j hj hj'
    simpa [hj, hj'] using congrArg (·[j]?) hkeys
  have hlen := hp.length_eq
  cases b with
  | zero => rw [List.take_zero, List.take_zero]
  | succ i =>
    by_cases hi : i + 1 < l.length
    · rw [← map_key_eq (.refl l) hs] at hb
      have hne : key l[i] ≠ key l[i + 1] := fun h => hb ⟨i.succ_pos, by simpa using hi, by
        simp [hi, Nat.lt_of_succ_lt hi, h]⟩
      have hlt : key l[i] < key l[i + 1] :=
        (List.pairwise_iff_getElem.1 hs i (i + 1) _ hi i.lt_succ_self).lt_of_ne hne
      rw [take_eq_filter hs hi hlt rfl, take_eq_filter hs' (hlen ▸ hi)
        ((hkey (Nat.lt_of_succ_lt hi) _).trans_lt hlt) (hkey hi _)]
      exact hp.filter _
    · -- The cut is at the end of the list, or after it.
      rw [List.take_of_length_le (by omega), List.take_of_length_le (by omega)]
      exact hp

/-! ## Windows -/

/-- The window of the number `q`, of `s` elements. -/
def window (s q : ℕ) (l : List α) : List α := (l.drop (q * s)).take s

/-- The windows follow on one another. -/
theorem take_append_window : l.take (q * s) ++ window s q l = l.take ((q + 1) * s) := by
  rw [window, Nat.succ_mul, List.take_add]

/-- The place of an element says which window it is in. -/
theorem mem_window {i : ℕ} {a : α} (hi : l[i]? = some a) (hle : q * s ≤ i) (hlt : i < (q + 1) * s) :
    a ∈ window s q l := by
  rw [Nat.succ_mul] at hlt
  refine List.mem_of_getElem? (i := i - q * s) ?_
  rw [window, List.getElem?_take_of_lt (by omega), List.getElem?_drop, Nat.add_sub_cancel' hle, hi]

/-- Windows of lists of one length are together as long as what comes before the end of the last
    one. -/
theorem length_flatMap_window {L : ℕ → List α} {n : ℕ} (hL : ∀ q, (L q).length = n) (p : ℕ) :
    ((List.range p).flatMap fun q => window s q (L q)).length = min (p * s) n := by
  induction p with
  | zero => simp
  | succ p ih =>
    rw [List.range_succ, List.flatMap_append, List.flatMap_singleton, List.length_append, ih, window,
      List.length_take, List.length_drop, hL, Nat.succ_mul]
    omega

/-- Lists that together have no repetition have no element in common. -/
theorem not_mem_of_nodup_flatMap {f : ℕ → List α} {p i j : ℕ} (h : ((List.range p).flatMap f).Nodup)
    (hij : i < j) (hj : j < p) {a : α} (ha : a ∈ f i) : a ∉ f j := by
  have hdisjoint := List.pairwise_iff_getElem.1 (List.nodup_flatMap.1 h).2 i j
    (by simpa using hij.trans hj) (by simpa using hj) hij
  simp only [List.getElem_range] at hdisjoint
  exact List.disjoint_left.1 hdisjoint ha

/-- Windows of several arrangements, none of which ends at a tie, make up what comes
    before the end of the last one. -/
theorem perm_flatMap_window {L : ℕ → List α} (hL : ∀ q, (L q).Perm l)
    (hs : ∀ q, Sorted key (L q)) {p : ℕ} (hcut : ∀ q ≤ p, ¬ Tie (keys key l) (q * s))
    (hp' : l'.Perm l) (hs' : Sorted key l') :
    ((List.range p).flatMap fun q => window s q (L q)).Perm (l'.take (p * s)) := by
  induction p generalizing l' with
  | zero => simp
  | succ p ih =>
    have hkeys : keys key l' = keys key l := by
      rw [← map_key_eq hp' hs', map_key_eq (.refl l') hs']
    rw [List.range_succ, List.flatMap_append, List.flatMap_singleton]
    -- What has been read is what comes before the window in its own arrangement.
    calc _ ++ window s p (L p) |>.Perm ((L p).take (p * s) ++ window s p (L p)) :=
          (ih (fun q hq => hcut q (hq.trans p.le_succ)) (hL p) (hs p)).append_right _
      _ = (L p).take ((p + 1) * s) := take_append_window
      _ |>.Perm (l'.take ((p + 1) * s)) :=
          take_perm_take ((hL p).trans hp'.symm) hs' (hs p) (hkeys ▸ hcut _ le_rfl)

/-- At a tie, the list can be rearranged so that what comes first after the cut is what
    came last before it. -/
theorem exists_of_tie (hs : Sorted key l) (hb : Tie (keys key l) b) :
    ∃ l' a, l'.Perm l ∧ Sorted key l' ∧ l[b - 1]? = some a ∧ l'[b]? = some a := by
  obtain ⟨hpos, hlt, htie⟩ := hb
  obtain ⟨i, rfl⟩ := Nat.exists_eq_succ_of_ne_zero hpos.ne'
  rw [← map_key_eq (.refl l) hs] at hlt htie
  rw [List.length_map] at hlt
  have hi : i < l.length := Nat.lt_of_succ_lt hlt
  have hkey : key l[i] = key l[i + 1] := by simpa [hlt, hi] using htie
  -- The two elements next to the cut have the same key: they can change places.
  have hl : l = l.take i ++ l[i] :: l[i + 1] :: l.drop (i + 2) := by
    rw [← List.drop_eq_getElem_cons hlt, ← List.drop_eq_getElem_cons hi, List.take_append_drop]
  refine ⟨l.take i ++ l[i + 1] :: l[i] :: l.drop (i + 2), l[i], ?_, ?_, by simp [hi], ?_⟩
  · conv_rhs => rw [hl]
    exact (List.Perm.swap _ _ _).append_left _
  · refine List.pairwise_map.1 ?_
    have hmap : (l.take i ++ l[i + 1] :: l[i] :: l.drop (i + 2)).map key = l.map key := by
      conv_rhs => rw [hl]
      simp only [List.map_append, List.map_cons, hkey]
    rw [hmap]
    exact List.pairwise_map.2 hs
  · rw [List.getElem?_append_right (by simp [hi.le])]
    simp [hi.le]

end Windows
