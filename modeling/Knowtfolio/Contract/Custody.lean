import Knowtfolio.Contract.Reentrancy
import Knowtfolio.Data.Erc721Holders
import Mathlib.Order.Interval.Finset.Nat

/-!
# What an account and an article can rely on

Of the contract as a whole. An account that is no contract and approves nobody loses a token
only by transferring it itself, whatever the other accounts send, and whatever is sent while
recipients are called back (`given_of_lost`).

And the contract stores nothing but the list of the articles that were minted, in the order of
their mints (`mintedArticles`, `Registered`): the tokens are the places of the list, their URIs
its articles, and the balances of the holders add up to its length (`registered_applyAll`).

Both are proved by induction on the messages, and within a message on those that are nested in it:
`exec_holds` and `runAll_holds` for the account, `Registered.apply` for the list. A mint that goes
through adds its own article after all that was minted within it, of which there is nothing as long
as the owner of the contract is not called back.
-/

namespace Knowtfolio.Contract

section

variable [Chain]

/-! ## Custody -/

/-- Whether a message approves somebody. -/
def Call.approves : Call → Bool
  | .approve _ _ | .setApprovalForAll _ _ => true
  | _ => false

/-- Whether a message transfers the token away from the account. -/
def Call.gives (a : Address) (t : ℕ) : Call → Bool
  | .transferFrom old _ tokenId | .safeTransferFrom old _ tokenId => old = a ∧ tokenId = t
  | _ => false

/-- What a callback takes from the account is what the account has given away. -/
abbrev Holding (a : Address) (given : ℕ → Prop) (callback : State → State) : Prop :=
  ∀ s : State, s.ledger.Held a → s.ledger.Holds a given (callback s).ledger

variable {a : Address} {given : ℕ → Prop} {callback : State → State} {accepts : Bool}
  {sender : Address} {s s' : State}

/-- What the recipient of a mint does when it is called back takes away nothing that it may not. -/
theorem holds_checkOnERC721Received {recipient : Address} (hcb : Holding a given callback)
    (hs : s.ledger.Held a)
    (h : checkOnERC721Received callback accepts recipient s = some s') :
    s.ledger.Holds a given s'.ledger := by
  unfold checkOnERC721Received at h
  split_ifs at h
  · exact Option.some.inj h ▸ hcb s hs
  · exact Option.some.inj h ▸ hs.refl

/-- A message takes from the account only what the account itself gives away with it. -/
theorem exec_holds {fn : Call} (hcb : Holding a given callback)
    (happroves : sender = a → fn.approves = false)
    (hgiven : ∀ t, sender = a → fn.gives a t = true → given t) (hs : s.ledger.Held a)
    (h : exec callback accepts sender fn s = some s') : s.ledger.Holds a given s'.ledger := by
  cases fn with
  | initializeContract | transferOwnership | renounceOwnership =>
    simp only [exec] at h
    split_ifs at h
    cases h
    exact hs.refl
  | mintNFT recipient articleId =>
    obtain ⟨-, -, -, ledger, s₁, hl, hc, rfl⟩ := mintNFT_cases h
    have hmint : s.ledger.Holds a given ledger := hs.mint hl
    -- The ledger is written before the callback, in which the account gives away what it gives.
    have hcallback : ledger.Holds a given s₁.ledger :=
      holds_checkOnERC721Received (s := { s with tokenIds := increment s.tokenIds, ledger }) hcb
        hmint.held hc
    exact hmint.trans hcallback
  | transferFrom old new t =>
    obtain ⟨ledger, hl, rfl⟩ := Option.map_eq_some_iff.1 h
    exact hs.transferFrom (fun hsender hold => hgiven t hsender (decide_eq_true ⟨hold, rfl⟩)) hl
  | safeTransferFrom old new t =>
    simp only [exec] at h
    split at h
    · cases h
    next ledger hl =>
      -- As in a mint, the transfer is done when the new owner is called back.
      have htransfer : s.ledger.Holds a given ledger :=
        hs.transferFrom (fun hsender hold => hgiven t hsender (decide_eq_true ⟨hold, rfl⟩)) hl
      exact htransfer.trans (holds_checkOnERC721Received (s := { s with ledger })
        hcb htransfer.held h)
  | approve dest t =>
    obtain ⟨ledger, hl, rfl⟩ := Option.map_eq_some_iff.1 h
    exact hs.approve (fun hsender => Bool.noConfusion (happroves hsender)) hl
  | setApprovalForAll operator approved =>
    obtain ⟨ledger, hl, rfl⟩ := Option.map_eq_some_iff.1 h
    exact hs.setApprovalForAll (fun hsender => Bool.noConfusion (happroves hsender)) hl

mutual

/-- A nested message is not one of the account. -/
theorem run_holds (ha : Chain.isContract a = false) : ∀ (r : Reentry) (s : State),
    s.ledger.Held a → s.ledger.Holds a given (r.run s).ledger
  | .call sender fn inner accepts, s, hs => by
    have hsender : sender.1 ≠ a := fun h => by
      have := sender.2
      rw [h, ha] at this
      cases this
    simp only [Reentry.run]
    cases he : exec (Reentry.runAll inner) accepts sender.1 fn s with
    | none => exact hs.refl
    | some s' =>
      exact exec_holds (runAll_holds ha inner) (fun h => absurd h hsender)
        (fun _ h => absurd h hsender) hs he

/-- Neither do the messages of a contract, one after the other: the account is none, so that they
    are not its own. -/
theorem runAll_holds (ha : Chain.isContract a = false) : ∀ (rs : List Reentry) (s : State),
    s.ledger.Held a → s.ledger.Holds a given (Reentry.runAll rs s).ledger
  | [], _, hs => hs.refl
  | r :: rs, s, hs => by
    rw [Reentry.runAll]
    have hr := run_holds ha r s hs
    exact hr.trans (runAll_holds ha rs (r.run s) hr.held)

end

/-- Whether the account gives the token away with the message. -/
def Message.gives (m : Message) (a : Address) (t : ℕ) : Bool := m.sender = a && m.fn.gives a t

/-- A message takes from the account only what the account sends away by it. -/
theorem apply_holds (ha : Chain.isContract a = false) {m : Message}
    (happroves : m.sender = a → m.fn.approves = false) (hs : s.ledger.Held a) :
    s.ledger.Holds a (fun t => m.gives a t = true ∧ (m.exec s).isSome = true)
      (m.apply s).ledger := by
  rw [Message.apply]
  cases he : m.exec s with
  | none => exact hs.refl
  | some s' =>
    refine exec_holds (fun s₁ hs₁ => runAll_holds ha m.inner s₁ hs₁) happroves ?_ hs he
    exact fun t hsender hgives => ⟨Bool.and_eq_true_iff.2 ⟨decide_eq_true hsender, hgives⟩, rfl⟩

/-- Messages are applied one after the other. -/
theorem applyAll_append (ms ms' : List Message) (s : State) :
    applyAll (ms ++ ms') s = applyAll ms' (applyAll ms s) := by
  induction ms generalizing s with
  | nil => rfl
  | cons m ms ih => exact ih (m.apply s)

/-- An account that never approves anybody has approved nobody. -/
theorem held_applyAll (ha : Chain.isContract a = false) {ms : List Message}
    (happroves : ∀ m ∈ ms, m.sender = a → m.fn.approves = false) (hs : s.ledger.Held a) :
    (applyAll ms s).ledger.Held a := by
  induction ms generalizing s with
  | nil => exact hs
  | cons m ms ih =>
    rw [List.forall_mem_cons] at happroves
    exact ih happroves.2 (apply_holds ha happroves.1 hs).held

/-- The message of the account that a token was lost with. -/
theorem exists_gives (ha : Chain.isContract a = false) {ms : List Message}
    (happroves : ∀ m ∈ ms, m.sender = a → m.fn.approves = false) (hs : s.ledger.Held a) {t : ℕ}
    (ht : s.ownerOf t = some a) (hlost : (applyAll ms s).ownerOf t ≠ some a) :
    ∃ ms₁ m ms₂, ms = ms₁ ++ m :: ms₂ ∧ (applyAll ms₁ s).ownerOf t = some a ∧
      m.gives a t = true ∧ (m.exec (applyAll ms₁ s)).isSome = true := by
  induction ms generalizing s with
  | nil => exact absurd ht hlost
  | cons m ms ih =>
    rw [List.forall_mem_cons] at happroves
    have hm := apply_holds ha happroves.1 hs
    rcases hm.owners t ht with ht' | ⟨hgives, hexec⟩
    · obtain ⟨ms₁, m', ms₂, rfl, hmid⟩ := ih happroves.2 hm.held ht' hlost
      exact ⟨m :: ms₁, m', ms₂, rfl, hmid⟩
    · exact ⟨[], m, ms, rfl, ht, hgives, hexec⟩

/-- An account that is no contract, and has never approved anybody, loses a token only by
    transferring it itself. -/
theorem given_of_lost (ha : Chain.isContract a = false) (ms ms' : List Message)
    (happroves : ∀ m ∈ ms ++ ms', m.sender = a → m.fn.approves = false) {t : ℕ}
    (ht : (applyAll ms State.deployed).ownerOf t = some a)
    (hlost : (applyAll (ms ++ ms') State.deployed).ownerOf t ≠ some a) :
    ∃ ms₁ m ms₂, ms' = ms₁ ++ m :: ms₂ ∧
      (applyAll (ms ++ ms₁) State.deployed).ownerOf t = some a ∧ m.gives a t = true ∧
      (m.exec (applyAll (ms ++ ms₁) State.deployed)).isSome = true := by
  rw [applyAll_append] at hlost
  obtain ⟨ms₁, m, ms₂, rfl, hmid⟩ := exists_gives ha
    (fun m hm => happroves m (List.mem_append_right _ hm))
    (held_applyAll ha (fun m hm => happroves m (List.mem_append_left _ hm))
      (Erc721.Ledger.held_empty a)) ht hlost
  refine ⟨ms₁, m, ms₂, rfl, ?_⟩
  rw [applyAll_append]
  exact hmid

/-! ## The register of articles -/

/-- No message changes the URI of a token that exists, nor burns it. -/
theorem tokenURI_apply (m : Message) {t : ℕ} {url : String} (h : s.tokenURI t = some url) :
    (m.apply s).tokenURI t = some url := by
  rw [Message.apply]
  cases he : m.exec s with
  | none => exact h
  | some s' =>
    have hgrown := exec_grown (runAll_grown "" m.inner) he
    unfold State.tokenURI at h ⊢
    cases ho : s.ledger.owners t with
    | none => simp [ho] at h
    | some b =>
      have hex : s.ledger.owners t ≠ none := by rw [ho]; exact Option.some_ne_none b
      obtain ⟨b', ho'⟩ := Option.ne_none_iff_exists'.1 (hgrown.owned t hex)
      rw [ho] at h
      rw [Option.getD_some, ho', hgrown.uri t hex]
      exact h

/-- The article that a message mints. -/
def Call.article : Call → Option String
  | .mintNFT _ articleId => some articleId
  | _ => none

/-- The articles that a sequence of messages mints, in the order of their mints. -/
def mintedArticles : List Message → State → List String
  | [], _ => []
  | m :: ms, s =>
    (if (m.exec s).isSome then m.fn.article.toList else []) ++ mintedArticles ms (m.apply s)

omit [Chain] in
/-- The articles are those of the tokens 1, 2 and so on. -/
structure Registered (as : List String) (s : State) : Prop where
  tokenIds : s.tokenIds = as.length
  token : ∀ i a, as[i]? = some a → s.ledger.owners (i + 1) ≠ none ∧ s.tokenURIs (i + 1) = a

variable {as : List String}

omit [Chain] in
/-- As long as no token is minted, the register stays as it is. -/
theorem Registered.of_grown {id : String} {b : Bool} (h : Registered as s)
    (hg : Grown id b s s') (hids : s'.tokenIds = s.tokenIds) : Registered as s' where
  tokenIds := hids.trans h.tokenIds
  token i a ha := by
    obtain ⟨howned, huri⟩ := h.token i a ha
    exact ⟨hg.owned _ howned, (hg.uri _ howned).trans huri⟩

omit [Chain] in
/-- A mint adds its article at the end. -/
theorem Registered.of_minted {id : String} (h : Registered as s) (hm : Minted s id s')
    (hlt : s.tokenIds + 1 < 2 ^ 256) : Registered (as ++ [id]) s' := by
  have hids : increment s.tokenIds = as.length + 1 := by
    rw [increment, Nat.mod_eq_of_lt hlt, h.tokenIds]
  refine ⟨by rw [hm.tokenIds, hids, List.length_append, List.length_singleton], fun i a ha => ?_⟩
  rw [Ne, hm.none_iff, hm.tokenURIs, hids]
  rcases Nat.lt_trichotomy i as.length with hi | rfl | hi
  · rw [List.getElem?_append_left hi] at ha
    obtain ⟨howned, huri⟩ := h.token i a ha
    exact ⟨fun h' => howned h'.2, by rwa [Function.update_of_ne (by omega)]⟩
  · rw [List.getElem?_concat_length] at ha
    cases ha
    exact ⟨fun h' => h'.1 rfl, Function.update_self _ _ _⟩
  · rw [List.getElem?_eq_none (by simp; omega)] at ha
    cases ha

/-- A mint that goes through has minted exactly its own article. -/
theorem minted_of_exec_mintNFT (hinv : Inv s) {m : Message} {recipient : Address} {id : String}
    (hfn : m.fn = .mintNFT recipient id) (h : m.exec s = some s') : Minted s id s' := by
  obtain ⟨hinit, -⟩ := minted_of_exec hinv (by rw [Message.isMint, hfn]) h
  rw [Message.exec, hfn] at h
  exact (minted_of_mintNFT (fun s₁ hs₁ => runAll_kept m.inner s₁ hs₁) ⟨hinit, hinv.owner⟩ h).2

/-- A message that goes through adds the article of its mint to the register, and no other message
    adds any. -/
theorem Registered.apply (h : Registered as s) (hinv : Inv s) {m : Message}
    (hm : m.OwnerExternal)
    (hlt : s.tokenIds + (if m.isMint ∧ (m.exec s).isSome then 1 else 0) < 2 ^ 256) :
    Registered (as ++ if (m.exec s).isSome then m.fn.article.toList else []) (m.apply s) := by
  rw [Message.apply]
  cases he : m.exec s with
  | none => simpa using h
  | some s' =>
    rw [he, Option.isSome_some] at hlt
    rw [Option.isSome_some, if_pos rfl, Option.getD_some]
    cases hfn : m.fn with
    | mintNFT recipient id =>
      have hmint : m.isMint = true := by rw [Message.isMint, hfn]
      rw [hmint] at hlt
      exact h.of_minted (minted_of_exec_mintNFT hinv hfn he) hlt
    | _ =>
      have hmint : m.isMint = false := by simp [Message.isMint, hfn]
      simp only [Call.article, Option.toList_none, List.append_nil]
      exact h.of_grown (exec_grown (runAll_grown "" m.inner) he)
        (inv_exec_of_not_mint hinv hm hmint he).2

/-- The register grows by what is minted, in this order. -/
theorem Registered.of_applyAll (h : Registered as s) (hinv : Inv s) {ms : List Message}
    (hms : ∀ m ∈ ms, m.OwnerExternal) (hlt : s.tokenIds + mints ms s < 2 ^ 256) :
    Registered (as ++ mintedArticles ms s) (applyAll ms s) := by
  induction ms generalizing s as with
  | nil => simpa [mintedArticles, applyAll] using h
  | cons m ms ih =>
    rw [mints] at hlt
    obtain ⟨hinv', hids⟩ := inv_apply hinv (hms m List.mem_cons_self) (by omega)
    rw [mintedArticles, ← List.append_assoc]
    exact ih (h.apply hinv (hms m List.mem_cons_self) (by omega)) hinv'
      (fun m' hm' => hms m' (List.mem_cons_of_mem _ hm')) (by rw [hids]; omega)

namespace Registered

variable (h : Registered as s) (hinv : Inv s)

include h hinv

/-- The tokens are the places of the register. -/
theorem ownerOf_ne_none {t : ℕ} : s.ownerOf t ≠ none ↔ 1 ≤ t ∧ t ≤ as.length := by
  constructor
  · intro ht
    obtain ⟨hpos, hle, -⟩ := hinv.token t ht
    exact ⟨hpos, h.tokenIds ▸ hle⟩
  · rintro ⟨hpos, hle⟩
    obtain ⟨i, rfl⟩ : ∃ i, t = i + 1 := ⟨t - 1, by omega⟩
    exact (h.token i _ (List.getElem?_eq_getElem (by omega))).1

/-- The URI of a token is that of its article. -/
theorem tokenURI_succ (i : ℕ) : s.tokenURI (i + 1) = as[i]?.map (baseURI ++ ·) := by
  cases ha : as[i]? with
  | none =>
    have hnone : s.ledger.owners (i + 1) = none := by
      by_contra hne
      have := ((h.ownerOf_ne_none hinv).1 hne).2
      rw [List.getElem?_eq_none_iff] at ha
      omega
    rw [State.tokenURI, hnone]
    rfl
  | some a =>
    obtain ⟨howned, huri⟩ := h.token i a ha
    obtain ⟨b, hb⟩ := Option.ne_none_iff_exists'.1 howned
    have hne := (hinv.token (i + 1) howned).2.2.1
    rw [huri] at hne
    simp [State.tokenURI, hb, huri, hne]

/-- The token of an article is its place in the register, counted from 1. -/
theorem getTokenId_eq_succ {a : String} {i : ℕ} : s.getTokenId a = i + 1 ↔ as[i]? = some a := by
  constructor
  · intro ht
    have ht : s.tokenIdOf a = i + 1 := ht
    obtain ⟨hex, huri⟩ := hinv.article a (by omega)
    rw [ht] at hex huri
    have hlt := ((h.ownerOf_ne_none hinv).1 hex).2
    have hget := List.getElem?_eq_getElem (l := as) (i := i) (by omega)
    rw [hget, ← (h.token i _ hget).2, huri]
  · intro ha
    obtain ⟨howned, huri⟩ := h.token i a ha
    have := (hinv.token (i + 1) howned).2.2.2
    rwa [huri] at this

/-- No article is minted twice: a mint of an article with a token is reverted. -/
theorem nodup : as.Nodup := by
  rw [List.nodup_iff_getElem?_ne_getElem?]
  intro i j hij hj heq
  have hi := (h.getTokenId_eq_succ hinv).2 (heq.trans (List.getElem?_eq_getElem hj))
  have hj := (h.getTokenId_eq_succ hinv).2 (List.getElem?_eq_getElem hj)
  omega

end Registered

/-- In every state that messages lead to from deployment, the tokens are the articles that were
    minted, numbered in the order of their mints; no article is minted twice; and whoever the
    holders are, their balances add up to the number of the articles. -/
theorem registered_applyAll (ms : List Message) (hms : ∀ m ∈ ms, m.OwnerExternal)
    (hlt : mints ms State.deployed < 2 ^ 256) :
    let s := applyAll ms State.deployed
    let articles := mintedArticles ms State.deployed
    articles.Nodup ∧ (∀ t, s.ownerOf t ≠ none ↔ 1 ≤ t ∧ t ≤ articles.length) ∧
    (∀ i, s.tokenURI (i + 1) = articles[i]?.map (baseURI ++ ·)) ∧
    (∀ a i, s.getTokenId a = i + 1 ↔ articles[i]? = some a) ∧
    ∀ holders : Finset Address, (∀ t a, s.ownerOf t = some a → a ∈ holders) →
      ∑ a ∈ holders, (s.balanceOf a).getD 0 = articles.length := by
  intro s articles
  have hlt : State.deployed.tokenIds + mints ms State.deployed < 2 ^ 256 := by
    simpa [State.deployed] using hlt
  have hinv : Inv s := inv_applyAll hms inv_deployed hlt
  have hdeployed : Registered [] State.deployed := ⟨rfl, fun _ _ h => absurd h (by simp)⟩
  -- The tokens are counted by the articles, from none after the deployment.
  have h : Registered articles s := hdeployed.of_applyAll inv_deployed hms hlt
  refine ⟨h.nodup hinv, fun t => h.ownerOf_ne_none hinv, h.tokenURI_succ hinv,
    fun a i => h.getTokenId_eq_succ hinv, fun holders hholders => ?_⟩
  have hbalance : ∀ a, (s.balanceOf a).getD 0 = (s.ledger.tokensOf a).length := by
    intro a
    rw [State.balanceOf]
    split_ifs with ha
    · -- The zero account has no tokens.
      have hnil : s.ledger.tokensOf a = [] := List.eq_nil_iff_forall_not_mem.2 fun t ht =>
        s.ledger.owner_ne_zero t a ((s.ledger.mem_tokensOf a t).1 ht) ha
      rw [hnil]
      rfl
    · rfl
  simp only [hbalance]
  -- Every token has one holder: the balances count each of them once.
  rw [Erc721.Ledger.sum_length_tokensOf (Finset.Icc 1 articles.length) ?_ hholders]
  · simp
  · intro t
    rw [Finset.mem_Icc, ← h.ownerOf_ne_none hinv]
    rfl

end

/-! The token of a reentrant mint, which has come to account 3. The account 1 cannot take it,
until account 3 transfers it. -/

section

attribute [local instance] reentrantChain

theorem ofByte_three_ne_zero : Address.ofByte 3 ≠ 0 := by decide

/-- The accounts 1 and 3 transfer the token of account 3 to account 1. -/
def returnToken : List Message :=
  [⟨.ofByte 1, ofByte_one_ne_zero, .transferFrom (.ofByte 3) (.ofByte 1) 1, [], true⟩,
    ⟨.ofByte 3, ofByte_three_ne_zero, .transferFrom (.ofByte 3) (.ofByte 1) 1, [], true⟩]

/-- Among the messages of the example, there is the one by which the account gives its token away.
    -/
theorem given_returnToken : ∃ ms₁ m ms₂, returnToken = ms₁ ++ m :: ms₂ ∧
    (applyAll (reentrantMint ++ ms₁) State.deployed).ownerOf 1 = some (.ofByte 3) ∧
    m.gives (.ofByte 3) 1 = true ∧
    (m.exec (applyAll (reentrantMint ++ ms₁) State.deployed)).isSome = true :=
  given_of_lost (by decide) reentrantMint returnToken (by decide) (by decide) (by decide)

/-- After the mint that calls its recipient back, there is one article, and one token. -/
theorem registered_reentrantMint :
    mintedArticles reentrantMint State.deployed = ["abcdefghijk"] ∧
      ∑ a ∈ {Address.ofByte 3}, ((applyAll reentrantMint State.deployed).balanceOf a).getD 0 =
        (mintedArticles reentrantMint State.deployed).length := by
  obtain ⟨-, howned, -, -, hsum⟩ := registered_applyAll reentrantMint (by decide) (by decide)
  refine ⟨by decide, hsum _ fun t a ht => ?_⟩
  have hone : t = 1 := by
    have hlength : (mintedArticles reentrantMint State.deployed).length = 1 := by decide
    have := (howned t).1 (by rw [ht]; nofun)
    omega
  subst hone
  have howner : (applyAll reentrantMint State.deployed).ownerOf 1 = some (.ofByte 3) := by decide
  rw [howner] at ht
  cases ht
  exact Finset.mem_singleton_self _

end

end Knowtfolio.Contract
