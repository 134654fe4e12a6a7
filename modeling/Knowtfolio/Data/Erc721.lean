import Mathlib.Algebra.Group.Defs
import Mathlib.Data.List.Nodup
import Mathlib.Logic.Function.Basic

/-!
# An ERC-721 ledger with enumeration

Who owns which token, and for every account the list of its tokens, as
`balanceOf` and `tokenOfOwnerByIndex` show it. That the two agree is part of a
ledger (`Erc721.Ledger`): an account's list holds exactly the tokens it owns,
each once, and no token is owned by the zero account.

The operations are those of the standard: minting, transferring, approving.
Each is defined only where the standard lets it go through, and its effect on
the owners is an update at one token (`owners_mint`, `owners_transferFrom`).
How an implementation takes a token out of a list is left open (`Enumeration`);
it may reorder the list.
-/

namespace Erc721

/-- How a token is taken out of an account's list, in whatever order the others
    are left. -/
structure Enumeration where
  removeToken : List ℕ → ℕ → List ℕ
  removeToken_perm : ∀ l t, (removeToken l t).Perm (l.erase t)

/-- The tokens: their owners, the list of each account, and the approvals. -/
structure Ledger (A : Type) [Zero A] where
  /-- The owner of each token that exists. -/
  owners : ℕ → Option A
  /-- The tokens of an account, by their index. -/
  tokensOf : A → List ℕ
  /-- The account approved for a token. -/
  approved : ℕ → Option A
  /-- The operators of an account. -/
  operators : A → A → Bool
  nodup : ∀ a, (tokensOf a).Nodup
  mem_tokensOf : ∀ a t, t ∈ tokensOf a ↔ owners t = some a
  owner_ne_zero : ∀ t a, owners t = some a → a ≠ 0

namespace Ledger

variable {A : Type} [Zero A]

/-- No token exists yet. -/
def empty : Ledger A where
  owners _ := none
  tokensOf _ := []
  approved _ := none
  operators _ _ := false
  nodup _ := List.nodup_nil
  mem_tokensOf _ _ := by simp
  owner_ne_zero _ _ h := by cases h

variable [DecidableEq A]

/-- The lists after the token `t` of `old` has become one of `new`. -/
def moved (E : Enumeration) (L : Ledger A) (old new : A) (t : ℕ) : A → List ℕ :=
  if old = new then L.tokensOf
  else fun a =>
    if a = old then E.removeToken (L.tokensOf old) t
    else if a = new then L.tokensOf new ++ [t]
    else L.tokensOf a

/-- After a transfer, the tokens of an account are those that it owns. -/
theorem mem_moved {E : Enumeration} {L : Ledger A} {old new : A} {t : ℕ}
    (h : L.owners t = some old) (a : A) (t' : ℕ) :
    t' ∈ L.moved E old new t a ↔ Function.update L.owners t (some new) t' = some a := by
  -- By the account: it keeps its own token, gives the token, gets it, or is none of the two.
  unfold moved
  by_cases hon : old = new
  · rw [if_pos hon, L.mem_tokensOf]
    by_cases ht : t' = t
    · rw [ht, Function.update_self, h, hon]
    · rw [Function.update_of_ne ht]
  rw [if_neg hon]
  by_cases ha : a = old
  · rw [if_pos ha, (E.removeToken_perm _ _).mem_iff, (L.nodup old).mem_erase_iff, L.mem_tokensOf]
    by_cases ht : t' = t
    · rw [ht, Function.update_self, ha]
      simp [Ne.symm hon]
    · rw [Function.update_of_ne ht, ha]
      simp [ht]
  rw [if_neg ha]
  by_cases ha' : a = new
  · rw [if_pos ha', List.mem_append, List.mem_singleton, L.mem_tokensOf, ha']
    by_cases ht : t' = t
    · simp [ht]
    · simp [ht]
  · rw [if_neg ha', L.mem_tokensOf]
    by_cases ht : t' = t
    · rw [ht, Function.update_self, h]
      simp [Ne.symm ha, Ne.symm ha']
    · rw [Function.update_of_ne ht]

/-- No token is listed twice. -/
theorem nodup_moved {E : Enumeration} {L : Ledger A} {old new : A} {t : ℕ}
    (h : L.owners t = some old) (a : A) : (L.moved E old new t a).Nodup := by
  unfold moved
  by_cases hon : old = new
  · rw [if_pos hon]; exact L.nodup a
  rw [if_neg hon]
  split_ifs
  · exact (E.removeToken_perm _ _).nodup_iff.2 ((L.nodup old).erase t)
  · refine List.nodup_append.2 ⟨L.nodup new, List.nodup_singleton t, ?_⟩
    rintro t' ht' t'' ht'' rfl
    rw [List.mem_singleton] at ht''
    rw [ht'', L.mem_tokensOf, h] at ht'
    exact hon (Option.some.inj ht')
  · exact L.nodup a

/-- The token `t` comes to exist, owned by `dest`. -/
def mint (L : Ledger A) (dest : A) (t : ℕ) : Option (Ledger A) :=
  if hdest : dest = 0 then none
  else if ht : L.owners t = none then some {
    owners := Function.update L.owners t (some dest)
    tokensOf := Function.update L.tokensOf dest (L.tokensOf dest ++ [t])
    approved := L.approved
    operators := L.operators
    nodup := fun a => by
      by_cases ha : a = dest
      · rw [ha, Function.update_self]
        refine List.nodup_append.2 ⟨L.nodup dest, List.nodup_singleton t, ?_⟩
        rintro t' ht' t'' ht'' rfl
        rw [List.mem_singleton] at ht''
        rw [ht'', L.mem_tokensOf, ht] at ht'
        cases ht'
      · rw [Function.update_of_ne ha]; exact L.nodup a
    mem_tokensOf := fun a t' => by
      by_cases ha : a = dest <;> by_cases ht' : t' = t
      · simp [ha, ht']
      · simp [ha, ht', L.mem_tokensOf]
      · rw [Function.update_of_ne ha, L.mem_tokensOf, ht', ht, Function.update_self]
        simp [Ne.symm ha]
      · rw [Function.update_of_ne ha, Function.update_of_ne ht', L.mem_tokensOf]
    owner_ne_zero := fun t' a h => by
      by_cases ht' : t' = t
      · rw [ht', Function.update_self] at h
        exact Option.some.inj h ▸ hdest
      · rw [Function.update_of_ne ht'] at h
        exact L.owner_ne_zero t' a h }
  else none

/-- Whether `spender` may move the token `t` of `owner`. -/
def isApprovedOrOwner (L : Ledger A) (spender owner : A) (t : ℕ) : Bool :=
  spender = owner || L.operators owner spender || L.approved t = some spender

/-- `spender` moves the token `t` from `old` to `new`, which ends its approval. -/
def transferFrom (E : Enumeration) (L : Ledger A) (spender old new : A) (t : ℕ) :
    Option (Ledger A) :=
  if hnew : new = 0 then none
  else if h : L.owners t = some old then
    if L.isApprovedOrOwner spender old t then some {
      owners := Function.update L.owners t (some new)
      tokensOf := L.moved E old new t
      approved := Function.update L.approved t none
      operators := L.operators
      nodup := nodup_moved h
      mem_tokensOf := mem_moved h
      owner_ne_zero := fun t' a h' => by
        by_cases ht' : t' = t
        · rw [ht', Function.update_self] at h'
          exact Option.some.inj h' ▸ hnew
        · rw [Function.update_of_ne ht'] at h'
          exact L.owner_ne_zero t' a h' }
    else none
  else none

/-- `sender` approves `dest` for the token `t`. -/
def approve (L : Ledger A) (sender dest : A) (t : ℕ) : Option (Ledger A) :=
  match L.owners t with
  | none => none
  | some owner =>
    if dest = owner then none
    else if sender = owner || L.operators owner sender then
      some { L with approved := Function.update L.approved t (if dest = 0 then none else some dest) }
    else none

/-- `sender` makes `operator` one of its operators, or ends that. -/
def setApprovalForAll (L : Ledger A) (sender operator : A) (approved : Bool) :
    Option (Ledger A) :=
  if sender = operator then none
  else some { L with
    operators := Function.update L.operators sender
      (Function.update (L.operators sender) operator approved) }

variable {E : Enumeration} {L L' : Ledger A}

/-- A mint gives a token that there was not to its recipient. -/
theorem owners_mint {dest : A} {t : ℕ} (h : L.mint dest t = some L') :
    dest ≠ 0 ∧ L.owners t = none ∧ L'.owners = Function.update L.owners t (some dest) := by
  unfold mint at h
  split_ifs at h with hdest ht
  cases h
  exact ⟨hdest, ht, rfl⟩

/-- A transfer gives the token from its owner to an account that is not zero. -/
theorem owners_transferFrom {spender old new : A} {t : ℕ}
    (h : L.transferFrom E spender old new t = some L') :
    new ≠ 0 ∧ L.owners t = some old ∧ L'.owners = Function.update L.owners t (some new) := by
  unfold transferFrom at h
  split_ifs at h with hnew ht ha
  cases h
  exact ⟨hnew, ht, rfl⟩

/-- An approval moves nothing. -/
theorem owners_approve {sender dest : A} {t : ℕ} (h : L.approve sender dest t = some L') :
    L'.owners = L.owners := by
  unfold approve at h
  split at h
  · cases h
  · split_ifs at h <;> cases h <;> rfl

/-- Nor does the approval of an operator. -/
theorem owners_setApprovalForAll {sender operator : A} {b : Bool}
    (h : L.setApprovalForAll sender operator b = some L') : L'.owners = L.owners := by
  unfold setApprovalForAll at h
  split_ifs at h
  cases h
  rfl

end Ledger

/-- The enumeration that leaves the other tokens in their order. -/
def Enumeration.inOrder : Enumeration := ⟨List.erase, fun _ _ => .refl _⟩

end Erc721
