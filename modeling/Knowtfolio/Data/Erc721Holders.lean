import Mathlib.Algebra.BigOperators.Group.Finset.Basic
import Knowtfolio.Data.Erc721

/-!
# The holders of an ERC-721 ledger

What an account can rely on, in any ledger. If it has approved nobody, it holds its tokens by
itself (`Erc721.Ledger.Held`): no operation of another account takes one from it, nor approves
anybody for one, and it gives a token away only by transferring that very token
(`Held.mint`, `Held.transferFrom`, `Held.approve`, `Held.setApprovalForAll`).

The balances of the holders add up to the number of tokens (`sum_length_tokensOf`).
-/

namespace Erc721.Ledger

variable {A : Type} [Zero A]

/-! ## Custody -/

/-- The account has approved nobody, neither for a token nor for all of them. Nor is there an
    approval for a token that does not exist. -/
structure Held (a : A) (L : Ledger A) : Prop where
  approved : ∀ t, L.owners t = none ∨ L.owners t = some a → L.approved t = none
  operators : ∀ b, L.operators a b = false

/-- The account has kept its tokens, but for those that it has given away, and still has
    approved nobody. -/
structure Holds (a : A) (given : ℕ → Prop) (L L' : Ledger A) : Prop where
  owners : ∀ t, L.owners t = some a → L'.owners t = some a ∨ given t
  held : Held a L'

/-- Nobody has approved anybody at first. -/
theorem held_empty (a : A) : Held a (empty : Ledger A) := ⟨fun _ _ => rfl, fun _ => rfl⟩

/-- Nothing is taken where nothing happens. -/
theorem Held.refl {a : A} {given : ℕ → Prop} {L : Ledger A} (h : L.Held a) : Holds a given L L :=
  ⟨fun _ ht => .inl ht, h⟩

/-- Two changes, one after the other. -/
theorem Holds.trans {a : A} {given : ℕ → Prop} {L₁ L₂ L₃ : Ledger A} (h : Holds a given L₁ L₂)
    (h' : Holds a given L₂ L₃) : Holds a given L₁ L₃ where
  owners t ht := by
    rcases h.owners t ht with ht | ht
    · exact h'.owners t ht
    · exact .inr ht
  held := h'.held

/-- What an account gives away may be bounded more loosely. -/
theorem Holds.mono {a : A} {given given' : ℕ → Prop} {L L' : Ledger A} (h : Holds a given L L')
    (hg : ∀ t, given t → given' t) : Holds a given' L L' :=
  ⟨fun t ht => (h.owners t ht).imp_right (hg t), h.held⟩

variable [DecidableEq A] {a : A} {given : ℕ → Prop} {E : Enumeration} {L L' : Ledger A}

/-- A mint takes no token away. -/
theorem Held.mint (h : L.Held a) {dest : A} {t : ℕ} (hl : L.mint dest t = some L') :
    Holds a given L L' := by
  unfold Ledger.mint at hl
  split_ifs at hl with hdest ht
  cases hl
  refine ⟨fun t' ht' => .inl ?_, ⟨fun t' ht' => ?_, h.operators⟩⟩
  · have hne : t' ≠ t := fun heq => by
      rw [heq, ht] at ht'
      cases ht'
    simpa [Function.update_of_ne hne] using ht'
  · -- The new token was not there, and so nobody was approved for it.
    by_cases heq : t' = t
    · exact h.approved t' (.inl (heq ▸ ht))
    · exact h.approved t' (by simpa [Function.update_of_ne heq] using ht')

/-- Who may transfer a token: its owner, an operator of the owner, or the account approved. -/
theorem of_transferFrom {spender old new : A} {t : ℕ}
    (hl : L.transferFrom E spender old new t = some L') :
    L.owners t = some old ∧ L.isApprovedOrOwner spender old t = true ∧
      L'.owners = Function.update L.owners t (some new) ∧
      L'.approved = Function.update L.approved t none ∧ L'.operators = L.operators := by
  unfold Ledger.transferFrom at hl
  split_ifs at hl with hnew ht hmay
  cases hl
  exact ⟨ht, hmay, rfl, rfl, rfl⟩

/-- A transfer takes a token from the account only if the account itself makes it. -/
theorem Held.transferFrom (h : L.Held a) {spender old new : A} {t : ℕ}
    (hgiven : spender = a → old = a → given t)
    (hl : L.transferFrom E spender old new t = some L') : Holds a given L L' := by
  obtain ⟨ht, hmay, howners, happroved, hoperators⟩ := of_transferFrom hl
  refine ⟨fun t' ht' => ?_, ⟨fun t' ht' => ?_, fun b => ?_⟩⟩
  · -- Of the account's own token, only the account itself may be the spender.
    by_cases heq : t' = t
    · subst heq
      rw [ht'] at ht
      cases ht
      have hspender : spender = a := by
        simpa [isApprovedOrOwner, h.operators, h.approved t' (.inr ht')] using hmay
      exact .inr (hgiven hspender rfl)
    · rw [howners, Function.update_of_ne heq]
      exact .inl ht'
  · rw [happroved]
    by_cases heq : t' = t
    · rw [heq, Function.update_self]
    · rw [howners, Function.update_of_ne heq] at ht'
      rw [Function.update_of_ne heq]
      exact h.approved t' ht'
  · rw [hoperators]
    exact h.operators b

/-- Who may approve for a token: its owner, or an operator of the owner. -/
theorem of_approve {sender dest : A} {t : ℕ} (hl : L.approve sender dest t = some L') :
    ∃ owner, L.owners t = some owner ∧ (sender = owner || L.operators owner sender) = true ∧
      L' = { L with
        approved := Function.update L.approved t (if dest = 0 then none else some dest) } := by
  unfold Ledger.approve at hl
  split at hl
  · cases hl
  next owner ht =>
    split at hl
    · cases hl
    · split at hl
      next hmay =>
        cases hl
        exact ⟨owner, ht, hmay, rfl⟩
      · cases hl

/-- An approval by somebody else is of a token of somebody else. -/
theorem Held.approve (h : L.Held a) {sender dest : A} {t : ℕ} (hsender : sender ≠ a)
    (hl : L.approve sender dest t = some L') : Holds a given L L' := by
  obtain ⟨owner, ht, hmay, hl⟩ := of_approve hl
  have howner : owner ≠ a := by
    rintro rfl
    simp [hsender, h.operators] at hmay
  rw [hl]
  refine ⟨fun t' ht' => .inl ht', ⟨fun t' ht' => ?_, h.operators⟩⟩
  have hne : t' ≠ t := by
    rintro rfl
    have ht' : L.owners t' = none ∨ L.owners t' = some a := ht'
    rw [ht] at ht'
    rcases ht' with ht' | ht'
    · cases ht'
    · exact howner (Option.some.inj ht')
  exact (Function.update_of_ne hne _ _).trans (h.approved t' ht')

/-- Operators are approved by their principals only. -/
theorem Held.setApprovalForAll (h : L.Held a) {sender operator : A} {b : Bool}
    (hsender : sender ≠ a) (hl : L.setApprovalForAll sender operator b = some L') :
    Holds a given L L' := by
  unfold Ledger.setApprovalForAll at hl
  split_ifs at hl
  cases hl
  refine ⟨fun _ ht => .inl ht, ⟨h.approved, fun b' => ?_⟩⟩
  exact (congrFun (Function.update_of_ne hsender.symm _ _) b').trans (h.operators b')

/-! ## Minting -/

/-- A token that does not exist can be minted for any account but the zero one. -/
theorem exists_mint {dest : A} {t : ℕ} (hdest : dest ≠ 0) (ht : L.owners t = none) :
    ∃ L', L.mint dest t = some L' ∧ L'.owners t = some dest := by
  refine ⟨_, by rw [Ledger.mint, dif_neg hdest, dif_pos ht], Function.update_self _ _ _⟩

/-! ## Balances -/

omit [DecidableEq A] in
/-- The balances of the holders add up to the number of tokens. -/
theorem sum_length_tokensOf (tokens : Finset ℕ) {holders : Finset A}
    (htokens : ∀ t, t ∈ tokens ↔ L.owners t ≠ none)
    (hholders : ∀ t a, L.owners t = some a → a ∈ holders) :
    ∑ a ∈ holders, (L.tokensOf a).length = tokens.card := by
  -- The tokens are those of the holders taken together.
  have hunion : tokens = holders.biUnion fun a => (L.tokensOf a).toFinset := by
    ext t
    simp only [htokens, Finset.mem_biUnion, List.mem_toFinset, L.mem_tokensOf]
    constructor
    · intro h
      obtain ⟨a, ha⟩ := Option.ne_none_iff_exists'.1 h
      exact ⟨a, hholders t a ha, ha⟩
    · rintro ⟨a, -, ha⟩
      rw [ha]
      nofun
  rw [hunion, Finset.card_biUnion]
  · exact Finset.sum_congr rfl fun a _ => (List.toFinset_card_of_nodup (L.nodup a)).symm
  · -- A token has one owner.
    intro a _ b _ hab
    rw [Function.onFun, Finset.disjoint_left]
    intro t hta htb
    rw [List.mem_toFinset, L.mem_tokensOf] at hta htb
    exact hab (Option.some.inj (hta.symm.trans htb))

end Erc721.Ledger
