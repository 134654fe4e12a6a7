import Knowtfolio.Contract.Basic
import Mathlib.Data.List.Nodup
import Mathlib.Tactic.SplitIfs

/-!
# The three maps of the contract

The contract stores, apart from the ownership of its tokens, a counter, the URI
of each token, and the token of each article. Between messages they agree
(`Contract.Inv`): the token of an article exists and has the article as its
URI, and an existing token has for its URI an article whose token it is.

Only the owner of the contract mints, and only the owner changes. As long as
the owner is not a contract, nothing that a recipient does when it is called
back is sent by the owner: it may move tokens, but keeps everything else
(`Kept`, `runAll_kept`). So a mint is not interrupted by another one, and a
message keeps the invariant (`inv_apply`), until the counter overflows.

What the views then say of an account is one and the same
(`mem_getArticleIdsOwnedBy`): the articles whose owner it is.
-/

namespace Knowtfolio.Contract

variable [Chain]

/-- `s'` differs from `s` at most in who owns the tokens, which are the same, and
    in the approvals. -/
structure Kept (s s' : State) : Prop where
  initialized : s'.initialized = s.initialized
  owner : s'.owner = s.owner
  tokenIds : s'.tokenIds = s.tokenIds
  tokenIdOf : s'.tokenIdOf = s.tokenIdOf
  tokenURIs : s'.tokenURIs = s.tokenURIs
  none_iff : ∀ t, s'.ledger.owners t = none ↔ s.ledger.owners t = none

omit [Chain] in
theorem Kept.refl (s : State) : Kept s s := ⟨rfl, rfl, rfl, rfl, rfl, fun _ => Iff.rfl⟩

omit [Chain] in
/-- What is kept by two calls is kept by both of them one after the other. -/
theorem Kept.trans {s₁ s₂ s₃ : State} (h : Kept s₁ s₂) (h' : Kept s₂ s₃) : Kept s₁ s₃ where
  initialized := h'.initialized.trans h.initialized
  owner := h'.owner.trans h.owner
  tokenIds := h'.tokenIds.trans h.tokenIds
  tokenIdOf := h'.tokenIdOf.trans h.tokenIdOf
  tokenURIs := h'.tokenURIs.trans h.tokenURIs
  none_iff t := (h'.none_iff t).trans (h.none_iff t)

/-- The contract is initialised, and its owner is not a contract. -/
structure Settled (s : State) : Prop where
  initialized : s.initialized = true
  owner : Chain.isContract s.owner = false

/-- What is settled stays so as long as it is kept. -/
theorem Settled.of_kept {s s' : State} (h : Settled s) (hk : Kept s s') : Settled s' :=
  ⟨hk.initialized.trans h.initialized, by rw [hk.owner]; exact h.owner⟩

/-- What a callback does, whatever the recipient. -/
abbrev Harmless (callback : State → State) : Prop := ∀ s, Settled s → Kept s (callback s)

variable {callback : State → State} {accepts : Bool} {sender : Address} {s s' : State}

/-- A harmless callback keeps what is kept. -/
theorem kept_checkOnERC721Received {recipient : Address} (hcb : Harmless callback)
    (hs : Settled s)
    (h : checkOnERC721Received callback accepts recipient s = some s') : Kept s s' := by
  unfold checkOnERC721Received at h
  split_ifs at h
  · exact Option.some.inj h ▸ hcb s hs
  · exact Option.some.inj h ▸ .refl s

omit [Chain] in
/-- Moving tokens that exist, or approving, keeps the tokens. -/
theorem kept_ledger {ledger : Erc721.Ledger Address}
    (h : ∀ t, ledger.owners t = none ↔ s.ledger.owners t = none) : Kept s { s with ledger } :=
  ⟨rfl, rfl, rfl, rfl, rfl, h⟩

/-- A transfer changes who owns the token, and nothing else. -/
theorem kept_transferFrom {old new : Address} {t : ℕ} {ledger : Erc721.Ledger Address}
    (h : s.ledger.transferFrom Chain.enumeration sender old new t = some ledger) :
    Kept s { s with ledger } := by
  obtain ⟨_, ht, ho⟩ := Erc721.Ledger.owners_transferFrom h
  refine kept_ledger fun t' => ?_
  rw [ho]
  by_cases htt : t' = t
  · rw [htt, Function.update_self, ht]; simp
  · rw [Function.update_of_ne htt]

/-- The message of a transfer keeps what is kept. -/
theorem kept_exec_transferFrom {old new : Address} {t : ℕ}
    (h : exec callback accepts sender (.transferFrom old new t) s = some s') : Kept s s' := by
  obtain ⟨ledger, hl, rfl⟩ := Option.map_eq_some_iff.1 h
  exact kept_transferFrom hl

/-- So does that of a safe transfer, with all that the recipient does when it is called back. -/
theorem kept_exec_safeTransferFrom (hcb : Harmless callback) (hs : Settled s) {old new : Address}
    {t : ℕ} (h : exec callback accepts sender (.safeTransferFrom old new t) s = some s') :
    Kept s s' := by
  simp only [exec] at h
  split at h
  · cases h
  next ledger hl =>
    have hk := kept_transferFrom hl
    exact hk.trans (kept_checkOnERC721Received hcb (hs.of_kept hk) h)

/-- A message that is not the owner's keeps everything but who owns the tokens. -/
theorem exec_kept (hcb : Harmless callback) (hs : Settled s) (hsender : sender ≠ s.owner)
    {fn : Call} (h : exec callback accepts sender fn s = some s') : Kept s s' := by
  cases fn with
  | initializeContract => simp [exec, hs.initialized] at h
  | mintNFT => simp [exec, mintNFT, hsender] at h
  | transferFrom => exact kept_exec_transferFrom h
  | safeTransferFrom => exact kept_exec_safeTransferFrom hcb hs h
  | approve =>
    obtain ⟨ledger, hl, rfl⟩ := Option.map_eq_some_iff.1 h
    exact kept_ledger fun t => by rw [Erc721.Ledger.owners_approve hl]
  | setApprovalForAll =>
    obtain ⟨ledger, hl, rfl⟩ := Option.map_eq_some_iff.1 h
    exact kept_ledger fun t => by rw [Erc721.Ledger.owners_setApprovalForAll hl]
  | transferOwnership => simp [exec, hsender] at h
  | renounceOwnership => simp [exec, hsender] at h

mutual

/-- A nested message is not the owner's. -/
theorem run_kept : ∀ (r : Reentry) (s : State), Settled s → Kept s (r.run s)
  | .call sender fn inner accepts, s, hs => by
    simp only [Reentry.run]
    cases he : exec (Reentry.runAll inner) accepts sender.1 fn s with
    | none => exact .refl s
    | some s' =>
      have hsender : sender.1 ≠ s.owner := fun h => by
        have := hs.owner
        rw [← h, sender.2] at this
        cases this
      exact exec_kept (fun s₁ hs₁ => runAll_kept inner s₁ hs₁) hs hsender he

/-- Messages of a contract keep what is kept, each with the messages nested in it. -/
theorem runAll_kept : ∀ (rs : List Reentry) (s : State), Settled s → Kept s (Reentry.runAll rs s)
  | [], s, _ => .refl s
  | r :: rs, s, hs => by
    rw [Reentry.runAll]
    have hk := run_kept r s hs
    exact hk.trans (runAll_kept rs (r.run s) (hs.of_kept hk))

end

/-- A mint that succeeds: what was required, and the state it is called back in. -/
theorem mintNFT_cases {recipient : Address} {articleId : String}
    (h : mintNFT callback accepts sender recipient articleId s = some s') :
    sender = s.owner ∧ articleId ≠ "" ∧ s.tokenIdOf articleId = 0 ∧
      ∃ ledger s₁, s.ledger.mint recipient (increment s.tokenIds) = some ledger ∧
        checkOnERC721Received callback accepts recipient
          { s with tokenIds := increment s.tokenIds, ledger } = some s₁ ∧
        s' = { s₁ with
          tokenURIs := Function.update s₁.tokenURIs (increment s.tokenIds) articleId
          tokenIdOf := Function.update s₁.tokenIdOf articleId (increment s.tokenIds) } := by
  -- What is required, the mint of the ledger, the callback: each of them may revert.
  unfold mintNFT at h
  split_ifs at h with howner hreq
  push Not at howner hreq
  cases hl : s.ledger.mint recipient (increment s.tokenIds) with
  | none => simp [hl] at h
  | some ledger =>
    simp only [hl] at h
    cases hc : checkOnERC721Received callback accepts recipient
        { s with tokenIds := increment s.tokenIds, ledger } with
    | none => simp [hc] at h
    | some s₁ =>
      simp only [hc] at h
      split_ifs at h
      cases h
      exact ⟨howner, hreq.1, hreq.2, ledger, s₁, rfl, hc, rfl⟩

/-- What a mint does to a settled contract, whatever the recipient does. -/
structure Minted (s : State) (articleId : String) (s' : State) : Prop where
  articleId_ne : articleId ≠ ""
  unminted : s.tokenIdOf articleId = 0
  initialized : s'.initialized = s.initialized
  owner : s'.owner = s.owner
  tokenIds : s'.tokenIds = increment s.tokenIds
  tokenIdOf : s'.tokenIdOf = Function.update s.tokenIdOf articleId (increment s.tokenIds)
  tokenURIs : s'.tokenURIs = Function.update s.tokenURIs (increment s.tokenIds) articleId
  none_iff : ∀ t, s'.ledger.owners t = none ↔ t ≠ increment s.tokenIds ∧ s.ledger.owners t = none

/-- Only the owner of the contract mints, and a mint that goes through adds one token, of its
    article. -/
theorem minted_of_mintNFT {recipient : Address} {articleId : String} (hcb : Harmless callback)
    (hs : Settled s) (h : mintNFT callback accepts sender recipient articleId s = some s') :
    sender = s.owner ∧ Minted s articleId s' := by
  obtain ⟨howner, hne, hunminted, ledger, s₁, hl, hc, rfl⟩ := mintNFT_cases h
  have hk : Kept { s with tokenIds := increment s.tokenIds, ledger } s₁ :=
    kept_checkOnERC721Received hcb ⟨hs.initialized, hs.owner⟩ hc
  obtain ⟨_, hnone, ho⟩ := Erc721.Ledger.owners_mint hl
  refine ⟨howner, hne, hunminted, hk.initialized, hk.owner, hk.tokenIds, ?_, ?_, fun t => ?_⟩
  · simp only [hk.tokenIdOf]
  · simp only [hk.tokenURIs]
  · rw [hk.none_iff]
    simp only [ho]
    by_cases ht : t = increment s.tokenIds
    · simp [ht]
    · simp [ht]

/-! ## The invariant -/

/-- The counter, the URIs and the tokens of the articles agree. -/
structure Inv (s : State) : Prop where
  /-- The owner is not a contract. -/
  owner : Chain.isContract s.owner = false
  /-- Before it is initialised, the contract has no owner and no tokens. -/
  uninitialized : s.initialized = false → s.owner = 0 ∧ ∀ t, s.ledger.owners t = none
  /-- The token of an article exists and has the article as its URI. -/
  article : ∀ a, s.tokenIdOf a ≠ 0 →
    s.ledger.owners (s.tokenIdOf a) ≠ none ∧ s.tokenURIs (s.tokenIdOf a) = a
  /-- The URI of a token is an article whose token it is. -/
  token : ∀ t, s.ledger.owners t ≠ none →
    1 ≤ t ∧ t ≤ s.tokenIds ∧ s.tokenURIs t ≠ "" ∧ s.tokenIdOf (s.tokenURIs t) = t

/-- There are no tokens at first. -/
theorem inv_deployed : Inv State.deployed where
  owner := Chain.isContract_zero
  uninitialized _ := ⟨rfl, fun _ => rfl⟩
  article _ h := absurd rfl h
  token _ h := absurd rfl h

/-- The invariant is of what is kept. -/
theorem Inv.of_kept (hinv : Inv s) (hk : Kept s s') : Inv s' where
  owner := by rw [hk.owner]; exact hinv.owner
  uninitialized h := by
    rw [hk.initialized] at h
    rw [hk.owner]
    exact ⟨(hinv.uninitialized h).1, fun t => (hk.none_iff t).2 ((hinv.uninitialized h).2 t)⟩
  article a h := by
    rw [hk.tokenIdOf] at h
    rw [hk.tokenIdOf, hk.tokenURIs, Ne, hk.none_iff]
    exact hinv.article a h
  token t h := by
    rw [Ne, hk.none_iff] at h
    rw [hk.tokenIds, hk.tokenIdOf, hk.tokenURIs]
    exact hinv.token t h

/-- A mint keeps the invariant, unless the counter overflows. -/
theorem Inv.of_minted (hinv : Inv s) {articleId : String} (hm : Minted s articleId s')
    (hlt : s.tokenIds + 1 < 2 ^ 256) (hinit : s.initialized = true) : Inv s' := by
  have hn : increment s.tokenIds = s.tokenIds + 1 := Nat.mod_eq_of_lt hlt
  rw [increment, Nat.mod_eq_of_lt hlt] at hn
  obtain ⟨hne, hun, hini, how, hids, hof, huri, hnone⟩ := hm
  rw [increment, Nat.mod_eq_of_lt hlt] at hids hof huri
  simp only [increment, Nat.mod_eq_of_lt hlt] at hnone
  refine ⟨by rw [how]; exact hinv.owner, fun h => ?_, fun a h => ?_, fun t h => ?_⟩
  · rw [hini, hinit] at h; cases h
  · by_cases ha : a = articleId
    · rw [hof, ha, Function.update_self, huri, Function.update_self]
      exact ⟨fun h' => ((hnone _).1 h').1 rfl, rfl⟩
    · rw [hof, Function.update_of_ne ha] at h ⊢
      obtain ⟨hex, hu⟩ := hinv.article a h
      have hle := (hinv.token _ hex).2.1
      rw [huri, Function.update_of_ne (by omega)]
      exact ⟨fun h' => hex ((hnone _).1 h').2, hu⟩
  · rw [hids, hof, huri]
    by_cases ht : t = s.tokenIds + 1
    · rw [ht, Function.update_self, Function.update_self]
      exact ⟨by omega, le_rfl, hne, rfl⟩
    · have hex : s.ledger.owners t ≠ none := fun h' => h ((hnone t).2 ⟨ht, h'⟩)
      obtain ⟨h1, hle, hu, hto⟩ := hinv.token t hex
      -- The article just minted had no token, so it is not the URI of `t`.
      have hua : s.tokenURIs t ≠ articleId := fun h' => by
        rw [h', hun] at hto
        omega
      rw [Function.update_of_ne ht, Function.update_of_ne hua]
      exact ⟨h1, by omega, hu, hto⟩

/-- The accounts that a message makes the owner of the contract are not contracts. -/
def Message.OwnerExternal (m : Message) : Prop :=
  (m.fn = .initializeContract → Chain.isContract m.sender = false) ∧
    ∀ a, m.fn = .transferOwnership a → Chain.isContract a = false

instance (m : Message) : Decidable m.OwnerExternal :=
  match h : m.fn with
  | .initializeContract => decidable_of_iff (Chain.isContract m.sender = false) (by
      simp [Message.OwnerExternal, h])
  | .transferOwnership a => decidable_of_iff (Chain.isContract a = false) (by
      simp [Message.OwnerExternal, h])
  | .mintNFT .. | .transferFrom .. | .safeTransferFrom .. | .approve .. | .setApprovalForAll ..
  | .renounceOwnership => isTrue (by simp [Message.OwnerExternal, h])

/-- A message that does not mint keeps the invariant, and the counter. -/
theorem inv_exec_of_not_mint (hinv : Inv s) {m : Message} (hm : m.OwnerExternal)
    (hmint : m.isMint = false) (h : m.exec s = some s') :
    Inv s' ∧ s'.tokenIds = s.tokenIds := by
  obtain ⟨sender, hne, fn, inner, accepts⟩ := m
  simp only [Message.exec] at h
  cases hinit : s.initialized with
  | false =>
    -- Without owner and tokens, nothing but `initialize` and approving an operator succeeds.
    obtain ⟨howner, hnone⟩ := hinv.uninitialized hinit
    cases fn with
    | initializeContract =>
      rw [exec, hinit] at h
      cases h
      exact ⟨⟨hm.1 rfl, fun h' => by simp at h', hinv.article, hinv.token⟩, rfl⟩
    | mintNFT => simp [Message.isMint] at hmint
    | transferFrom | safeTransferFrom => simp [exec, Erc721.Ledger.transferFrom, hnone] at h
    | approve => simp [exec, Erc721.Ledger.approve, hnone] at h
    | setApprovalForAll =>
      obtain ⟨ledger, hl, rfl⟩ := Option.map_eq_some_iff.1 h
      exact ⟨hinv.of_kept (kept_ledger fun t => by
        rw [Erc721.Ledger.owners_setApprovalForAll hl]), rfl⟩
    | transferOwnership | renounceOwnership => simp [exec, howner, hne] at h
  | true =>
    have hs : Settled s := ⟨hinit, hinv.owner⟩
    by_cases hsender : sender = s.owner
    · cases fn with
      | initializeContract => simp [exec, hinit] at h
      | mintNFT => simp [Message.isMint] at hmint
      | transferOwnership a =>
        simp only [exec] at h
        split_ifs at h
        cases h
        exact ⟨⟨hm.2 a rfl, fun h' => by simp [hinit] at h', hinv.article, hinv.token⟩, rfl⟩
      | renounceOwnership =>
        simp only [exec] at h
        split_ifs at h
        cases h
        exact ⟨⟨Chain.isContract_zero, fun h' => by simp [hinit] at h', hinv.article,
          hinv.token⟩, rfl⟩
      | transferFrom =>
        have hk := kept_exec_transferFrom h
        exact ⟨hinv.of_kept hk, hk.tokenIds⟩
      | safeTransferFrom =>
        have hk := kept_exec_safeTransferFrom (fun s₁ hs₁ => runAll_kept inner s₁ hs₁) hs h
        exact ⟨hinv.of_kept hk, hk.tokenIds⟩
      | approve =>
        obtain ⟨ledger, hl, rfl⟩ := Option.map_eq_some_iff.1 h
        exact ⟨hinv.of_kept (kept_ledger fun t => by rw [Erc721.Ledger.owners_approve hl]), rfl⟩
      | setApprovalForAll =>
        obtain ⟨ledger, hl, rfl⟩ := Option.map_eq_some_iff.1 h
        exact ⟨hinv.of_kept (kept_ledger fun t => by
          rw [Erc721.Ledger.owners_setApprovalForAll hl]), rfl⟩
    · have hk := exec_kept (fun s₁ hs₁ => runAll_kept inner s₁ hs₁) hs hsender h
      exact ⟨hinv.of_kept hk, hk.tokenIds⟩

/-- A mint that succeeds is the owner's, on an initialised contract. -/
theorem minted_of_exec (hinv : Inv s) {m : Message} (hmint : m.isMint = true)
    (h : m.exec s = some s') :
    s.initialized = true ∧ ∃ articleId, Minted s articleId s' := by
  obtain ⟨sender, hne, fn, inner, accepts⟩ := m
  cases fn with
  | mintNFT recipient articleId =>
    simp only [Message.exec, exec] at h
    have hinit : s.initialized = true := by
      by_contra hinit
      have howner := (hinv.uninitialized (by simpa using hinit)).1
      exact hne ((mintNFT_cases h).1.trans howner)
    exact ⟨hinit, articleId,
      (minted_of_mintNFT (fun s₁ hs₁ => runAll_kept inner s₁ hs₁) ⟨hinit, hinv.owner⟩ h).2⟩
  | _ => simp [Message.isMint] at hmint

/-- A message keeps the invariant, and counts the mints, below the overflow. -/
theorem inv_apply (hinv : Inv s) {m : Message} (hm : m.OwnerExternal)
    (hlt : s.tokenIds + (if m.isMint ∧ (m.exec s).isSome then 1 else 0) < 2 ^ 256) :
    Inv (m.apply s) ∧ (m.apply s).tokenIds =
      s.tokenIds + (if m.isMint ∧ (m.exec s).isSome then 1 else 0) := by
  rw [Message.apply]
  cases he : m.exec s with
  | none => simpa using hinv
  | some s' =>
    cases hmint : m.isMint with
    | false =>
      simpa [hmint] using inv_exec_of_not_mint hinv hm hmint he
    | true =>
      simp only [hmint, he, Option.isSome_some, and_self, if_true] at hlt
      obtain ⟨hinit, articleId, hminted⟩ := minted_of_exec hinv hmint he
      have hids := hminted.tokenIds
      rw [increment, Nat.mod_eq_of_lt hlt] at hids
      simpa using ⟨hinv.of_minted hminted hlt hinit, hids⟩

/-- The invariant holds after any messages, as long as the owner is not a
    contract and there are fewer than `2 ^ 256` mints. -/
theorem inv_applyAll {ms : List Message} (hms : ∀ m ∈ ms, m.OwnerExternal) (hinv : Inv s)
    (hlt : s.tokenIds + mints ms s < 2 ^ 256) : Inv (applyAll ms s) := by
  induction ms generalizing s with
  | nil => exact hinv
  | cons m ms ih =>
    rw [mints] at hlt
    obtain ⟨hinv', hids⟩ := inv_apply hinv (hms m List.mem_cons_self) (by omega)
    exact ih (fun m' hm' => hms m' (List.mem_cons_of_mem _ hm')) hinv' (by rw [hids]; omega)

end Knowtfolio.Contract
