import Knowtfolio.Contract.Listing

/-!
# Mints that are interrupted

`mintNFT` looks whether the article has a token before it calls its recipient back, and
stores the token of the article only afterwards. If the owner of the contract is a
contract, it may mint the same article meanwhile; then there are two tokens of it. This
is the only way: whatever else the recipient does, after the mint the article has one
token (`oneToken_iff`).

Tokens are never burned, and the URI of a token that exists never changes. So the
tokens with the article as their URI, after nested messages, are those from before and
those that were minted by one of the messages and not reverted (`Grown`).

Whether the article is minted while its recipient is called back is computed along the tree of
messages (`Reentry.mintsAny`), with the state that each of them finds. What such a tree can do to
the tokens of the article is add some (`Grown`, `runAll_grown`), and then it has minted it.
-/

namespace Knowtfolio.Contract

section

variable [Chain]

/-! ## Nested mints -/

/-- Whether a message is to mint the article. -/
def Call.mints (a : String) : Call → Bool
  | .mintNFT _ articleId => articleId = a
  | _ => false

/-- The state in which a message calls a recipient back, if it does. -/
def calledBack (sender : Address) : Call → State → Option State
  | .mintNFT recipient _, s =>
    if Chain.isContract recipient then
      (s.ledger.mint recipient (increment s.tokenIds)).map
        ({ s with tokenIds := increment s.tokenIds, ledger := · })
    else none
  | .safeTransferFrom old new tokenId, s =>
    if Chain.isContract new then
      (s.ledger.transferFrom Chain.enumeration sender old new tokenId).map ({ s with ledger := · })
    else none
  | _, _ => none

mutual

/-- Whether a nested message mints the article, by itself or by one nested in it, and is
    not reverted. -/
def Reentry.mints (a : String) : Reentry → State → Bool
  | .call sender fn inner accepts => fun s =>
    (exec (Reentry.runAll inner) accepts sender.1 fn s).isSome &&
      (fn.mints a || (calledBack sender.1 fn s).any (Reentry.mintsAny a inner))

/-- Whether one of several nested messages does. -/
def Reentry.mintsAny (a : String) : List Reentry → State → Bool
  | [] => fun _ => false
  | r :: rs => fun s => r.mints a s || Reentry.mintsAny a rs (r.run s)

end

/-- Whether the article is minted while a message calls its recipient back. -/
def Message.mintsMeanwhile (m : Message) (a : String) (s : State) : Bool :=
  (calledBack m.sender m.fn s).any (Reentry.mintsAny a m.inner)

/-! ## What nested messages do -/

/-- The tokens of `s` are as they were in `s'`, and `b` is whether there is a new one of
    the article. -/
structure Grown (a : String) (b : Bool) (s s' : State) : Prop where
  owned : ∀ t, s.ledger.owners t ≠ none → s'.ledger.owners t ≠ none
  uri : ∀ t, s.ledger.owners t ≠ none → s'.tokenURIs t = s.tokenURIs t
  minted : (∃ t, s.ledger.owners t = none ∧ s'.ledger.owners t ≠ none ∧ s'.tokenURIs t = a) ↔
    b = true

variable {a : String} {b b' : Bool} {s s₁ s' : State}

omit [Chain] in
/-- If no token is minted, the tokens of the article stay what they are. -/
theorem Grown.of_same (huri : s'.tokenURIs = s.tokenURIs)
    (hnone : ∀ t, s'.ledger.owners t = none ↔ s.ledger.owners t = none) : Grown a false s s' where
  owned t := mt (hnone t).1
  uri t _ := congrFun huri t
  minted := by
    simp only [Bool.false_eq_true, iff_false]
    rintro ⟨t, ht, ht', -⟩
    exact ht' ((hnone t).2 ht)

omit [Chain] in
/-- What keeps the tokens adds none. -/
theorem Grown.of_kept (h : Kept s s') : Grown a false s s' := .of_same h.tokenURIs h.none_iff

omit [Chain] in
/-- Two calls, one after the other, mint the article if one of them does. -/
theorem Grown.trans (h : Grown a b s s₁) (h' : Grown a b' s₁ s') : Grown a (b || b') s s' where
  owned t ht := h'.owned t (h.owned t ht)
  uri t ht := (h'.uri t (h.owned t ht)).trans (h.uri t ht)
  minted := by
    rw [Bool.or_eq_true, ← h.minted, ← h'.minted]
    constructor
    · rintro ⟨t, ht, ht', huri⟩
      by_cases ht₁ : s₁.ledger.owners t = none
      · exact .inr ⟨t, ht₁, ht', huri⟩
      · exact .inl ⟨t, ht, ht₁, (h'.uri t ht₁).symm.trans huri⟩
    · rintro (⟨t, ht, ht₁, huri⟩ | ⟨t, ht₁, ht', huri⟩)
      · exact ⟨t, ht, h'.owned t ht₁, (h'.uri t ht₁).trans huri⟩
      · exact ⟨t, by_contra fun ht => h.owned t ht ht₁, ht', huri⟩

omit [Chain] in
/-- A mint adds its own token, whose URI it sets after the callback. -/
theorem Grown.mint {recipient : Address} {n : ℕ} {articleId : String}
    {ledger : Erc721.Ledger Address} (hl : s.ledger.mint recipient n = some ledger)
    (h : Grown a b { s with tokenIds := n, ledger } s₁) :
    Grown a (articleId = a || b) s { s₁ with
      tokenURIs := Function.update s₁.tokenURIs n articleId
      tokenIdOf := Function.update s₁.tokenIdOf articleId n } := by
  obtain ⟨-, hn, howners⟩ := Erc721.Ledger.owners_mint hl
  have hself : ledger.owners n ≠ none := by rw [howners, Function.update_self]; nofun
  -- The new token is none of those that were there before the mint.
  have hold : ∀ {t}, t ≠ n → ledger.owners t = s.ledger.owners t := fun ht => by
    rw [howners, Function.update_of_ne ht]
  have hne : ∀ {t}, s.ledger.owners t ≠ none → t ≠ n := fun ht heq => ht (heq ▸ hn)
  refine ⟨fun t ht => h.owned t ?_, fun t ht => ?_, ?_⟩
  · rwa [hold (hne ht)]
  · have hmid : ledger.owners t ≠ none := by rwa [hold (hne ht)]
    exact (Function.update_of_ne (hne ht) _ _).trans (h.uri t hmid)
  · -- A token with the URI is the new one, or was minted in the callback.
    rw [Bool.or_eq_true, decide_eq_true_iff, ← h.minted]
    constructor
    · rintro ⟨t, ht, ht', huri⟩
      change Function.update s₁.tokenURIs n articleId t = a at huri
      by_cases htn : t = n
      · rw [htn, Function.update_self] at huri
        exact .inl huri
      · rw [Function.update_of_ne htn] at huri
        exact .inr ⟨t, (hold htn).trans ht, ht', huri⟩
    · rintro (rfl | ⟨t, ht, ht', huri⟩)
      · exact ⟨n, hn, h.owned n hself, Function.update_self _ _ _⟩
      · have htn : t ≠ n := fun heq => hself (heq ▸ ht)
        exact ⟨t, (hold htn).symm.trans ht, ht', (Function.update_of_ne htn _ _).trans huri⟩

variable {callback : State → State} {f : State → Bool} {accepts : Bool} {sender : Address}

/-- A mint that calls its recipient back mints the article again if the recipient does. -/
theorem Grown.checkOnERC721Received {recipient : Address}
    (hcb : ∀ s, Grown a (f s) s (callback s))
    (h : checkOnERC721Received callback accepts recipient s = some s') :
    Grown a (Chain.isContract recipient && f s) s s' := by
  unfold Contract.checkOnERC721Received at h
  split_ifs at h with hcontract
  · cases h
    rw [hcontract, Bool.true_and]
    exact hcb s
  · cases h
    rw [Bool.eq_false_of_not_eq_true hcontract, Bool.false_and]
    exact .of_same rfl fun _ => Iff.rfl

/-- What a message adds: the token that it mints, and what is minted meanwhile. -/
theorem exec_grown (hcb : ∀ s, Grown a (f s) s (callback s)) {fn : Call}
    (h : exec callback accepts sender fn s = some s') :
    Grown a (fn.mints a || (calledBack sender fn s).any f) s s' := by
  cases fn with
  | initializeContract =>
    simp only [exec] at h
    split_ifs at h
    cases h
    exact .of_same rfl fun _ => Iff.rfl
  -- A mint and a safe transfer call the recipient; the other messages call nobody.
  | mintNFT recipient articleId =>
    obtain ⟨-, -, -, ledger, s₁, hl, hc, rfl⟩ := mintNFT_cases h
    have hany : (calledBack sender (.mintNFT recipient articleId) s).any f =
        (Chain.isContract recipient && f { s with tokenIds := increment s.tokenIds, ledger }) := by
      rw [calledBack, hl]
      cases Chain.isContract recipient <;> rfl
    rw [hany]
    exact (Grown.checkOnERC721Received hcb hc).mint hl
  | transferFrom => exact .of_kept (kept_exec_transferFrom h)
  | safeTransferFrom old new t =>
    simp only [exec] at h
    split at h
    · cases h
    next ledger hl =>
      have hany : (calledBack sender (.safeTransferFrom old new t) s).any f =
          (Chain.isContract new && f { s with ledger }) := by
        rw [calledBack, hl]
        cases Chain.isContract new <;> rfl
      rw [hany]
      exact (Grown.of_kept (kept_transferFrom hl)).trans (Grown.checkOnERC721Received hcb h)
  | approve =>
    obtain ⟨ledger, hl, rfl⟩ := Option.map_eq_some_iff.1 h
    exact .of_same rfl fun t => by rw [Erc721.Ledger.owners_approve hl]
  | setApprovalForAll =>
    obtain ⟨ledger, hl, rfl⟩ := Option.map_eq_some_iff.1 h
    exact .of_same rfl fun t => by rw [Erc721.Ledger.owners_setApprovalForAll hl]
  | transferOwnership =>
    simp only [exec] at h
    split_ifs at h
    cases h
    exact .of_same rfl fun _ => Iff.rfl
  | renounceOwnership =>
    simp only [exec] at h
    split_ifs at h
    cases h
    exact .of_same rfl fun _ => Iff.rfl

mutual

/-- A message of a contract, with all that is nested in it, mints the article exactly if it is found
    to by `mints`. -/
theorem run_grown (a : String) : ∀ (r : Reentry) (s : State), Grown a (r.mints a s) s (r.run s)
  | .call sender fn inner accepts, s => by
    simp only [Reentry.mints, Reentry.run]
    cases he : exec (Reentry.runAll inner) accepts sender.1 fn s with
    | none => exact .of_same rfl fun _ => Iff.rfl
    | some s' => exact exec_grown (runAll_grown a inner) he

/-- So do several of them, one after the other. -/
theorem runAll_grown (a : String) : ∀ (rs : List Reentry) (s : State),
    Grown a (Reentry.mintsAny a rs s) s (Reentry.runAll rs s)
  | [], s => .of_same rfl fun _ => Iff.rfl
  | r :: rs, s => by
    rw [Reentry.mintsAny, Reentry.runAll]
    exact (run_grown a r s).trans (runAll_grown a rs (r.run s))

end

/-! ## A mint -/

/-- The article has one token, and the contract has it as the token of the article. -/
def OneToken (s : State) (a : String) : Prop :=
  ∀ t, s.ownerOf t ≠ none ∧ s.tokenURIs t = a ↔ t = s.tokenIdOf a

/-- After a mint of an article that had no token, it has one, whatever the recipient did,
    unless the article was minted meanwhile. -/
theorem oneToken_iff {m : Message} {recipient : Address} (hfn : m.fn = .mintNFT recipient a)
    (hnone : ∀ t, s.ownerOf t ≠ none → s.tokenURIs t ≠ a) (h : m.exec s = some s') :
    OneToken s' a ↔ m.mintsMeanwhile a s = false := by
  obtain ⟨sender, hne, fn, inner, accepts⟩ := m
  cases hfn
  obtain ⟨-, -, -, ledger, s₁, hl, hc, rfl⟩ := mintNFT_cases h
  obtain ⟨-, hn, howners⟩ := Erc721.Ledger.owners_mint hl
  have hself : ledger.owners (increment s.tokenIds) ≠ none := by
    rw [howners, Function.update_self]; nofun
  -- What is minted meanwhile is minted in the callback, after the new token got its owner.
  have hmeanwhile : Message.mintsMeanwhile ⟨sender, hne, .mintNFT recipient a, inner, accepts⟩ a s =
      (Chain.isContract recipient &&
        Reentry.mintsAny a inner { s with tokenIds := increment s.tokenIds, ledger }) := by
    rw [Message.mintsMeanwhile, calledBack, hl]
    cases Chain.isContract recipient <;> rfl
  have hgrown := Grown.checkOnERC721Received (runAll_grown a inner) hc
  rw [hmeanwhile, ← Bool.not_eq_true, ← hgrown.minted, OneToken]
  simp only [State.ownerOf, Function.update_self]
  constructor
  · -- A token minted meanwhile is another one with the article as its URI.
    rintro hone ⟨t, ht, ht', huri⟩
    have htn : t ≠ increment s.tokenIds := fun heq => hself (heq ▸ ht)
    exact htn ((hone t).1 ⟨ht', (Function.update_of_ne htn _ _).trans huri⟩)
  · -- Without one, a token with the article as its URI is older than the mint, or the new one.
    intro hnew t
    constructor
    · rintro ⟨ht', huri⟩
      by_contra htn
      rw [Function.update_of_ne htn] at huri
      by_cases ht : ledger.owners t = none
      · exact hnew ⟨t, ht, ht', huri⟩
      · refine hnone t ?_ ((hgrown.uri t ht).symm.trans huri)
        rwa [howners, Function.update_of_ne htn] at ht
    · rintro rfl
      exact ⟨hgrown.owned _ hself, Function.update_self _ _ _⟩

end

/-! The recipient of a mint moves its token on while it is called back; and the owner
of the contract, being a contract itself, mints the same article again. -/

section

attribute [local instance] reentrantChain

/-- Account 1 initializes the contract. -/
def initialMessage : Message := ⟨.ofByte 1, ofByte_one_ne_zero, .initializeContract, [], true⟩

/-- The mint of an article for the contract 2, which moves the token on to account 3. -/
def movedMint : Message :=
  ⟨.ofByte 1, ofByte_one_ne_zero, .mintNFT (.ofByte 2) "abcdefghijk",
    [.call ⟨.ofByte 2, isContract_two⟩ (.transferFrom (.ofByte 2) (.ofByte 3) 1) [] true], true⟩

/-- The recipient sends the token on while it is called back, and mints nothing. -/
theorem oneToken_movedMint : ∃ s',
    movedMint.exec (applyAll [initialMessage] State.deployed) = some s' ∧
    s'.getOwnerOfArticle "abcdefghijk" = some (.ofByte 3) ∧ OneToken s' "abcdefghijk" := by
  obtain ⟨s', hs', howner⟩ : ∃ s',
      movedMint.exec (applyAll [initialMessage] State.deployed) = some s' ∧
      s'.getOwnerOfArticle "abcdefghijk" = some (.ofByte 3) := ⟨_, rfl, by decide⟩
  exact ⟨s', hs', howner, (oneToken_iff rfl (fun _ h => absurd rfl h) hs').2 (by decide)⟩

/-- The mint of an article for the contract 2, which mints it again, for account 3. -/
def interruptedMint : Message :=
  ⟨.ofByte 2, by decide, .mintNFT (.ofByte 2) "abcdefghijk",
    [.call ⟨.ofByte 2, isContract_two⟩ (.mintNFT (.ofByte 3) "abcdefghijk") [] true], true⟩

/-- Account 1 makes the contract 2 the owner. -/
def transferToContract : Message :=
  ⟨.ofByte 1, ofByte_one_ne_zero, .transferOwnership (.ofByte 2), [], true⟩

/-- The recipient is the owner of the contract and mints the same article again, before the first
    mint has written which token it is. -/
theorem not_oneToken_interruptedMint :
    (∀ t, (applyAll [initialMessage, transferToContract] State.deployed).ownerOf t ≠ none →
      (applyAll [initialMessage, transferToContract] State.deployed).tokenURIs t ≠ "abcdefghijk") ∧
    ∃ s',
      interruptedMint.exec (applyAll [initialMessage, transferToContract] State.deployed) = some s' ∧
      ¬ OneToken s' "abcdefghijk" := by
  refine ⟨fun t h => absurd rfl h, _, rfl, fun h => ?_⟩
  have htwo := (h 2).1 ⟨by decide, by decide⟩
  exact absurd htwo (by decide)

end

end Knowtfolio.Contract
