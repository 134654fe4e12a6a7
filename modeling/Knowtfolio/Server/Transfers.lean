import Knowtfolio.Server.Mints
import Knowtfolio.Server.Pages

/-!
# Transfers

The holder of a token may transfer it to any address, of a user or not. `Read` and
the search look up the user of the holder, and fail where there is none. So after
transfers everything can be read exactly if every tokenized article has a token, held
by the address of a user, and the authors of the others, as far as searches show them,
have wallet addresses (`allReadable_iff`).
-/

namespace Knowtfolio

open Interaction Machine

/-! ## The contract -/

namespace Contract

variable [Chain] {s : State} {transfers : List Message}

/-- Whether a message transfers a token of its sender. -/
def Message.isTransfer (m : Message) : Bool :=
  match m.fn with
  | .transferFrom old _ _ | .safeTransferFrom old _ _ => old = m.sender
  | _ => false

/-- A transfer keeps the numbers and the URIs of all tokens. -/
theorem kept_transfer (hs : Settled s) {m : Message} (hm : m.isTransfer = true) :
    Kept s (m.apply s) := by
  rw [Message.apply]
  cases he : m.exec s with
  | none => exact .refl s
  | some s' =>
    obtain ⟨sender, hne, fn, inner, accepts⟩ := m
    cases fn with
    | transferFrom => exact kept_exec_transferFrom he
    | safeTransferFrom =>
      exact kept_exec_safeTransferFrom (fun s₁ hs₁ => runAll_kept inner s₁ hs₁) hs he
    | _ => cases hm

/-- So do transfers one after the other, whatever their recipients do. -/
theorem kept_transfers (hs : Settled s) (ht : ∀ m ∈ transfers, m.isTransfer = true) :
    Kept s (applyAll transfers s) := by
  induction transfers generalizing s with
  | nil => exact .refl s
  | cons m transfers ih =>
    have hk := kept_transfer hs (ht m List.mem_cons_self)
    exact hk.trans (ih (hs.of_kept hk) fun m hm => ht m (List.mem_cons_of_mem _ hm))

omit [Chain] in
/-- The owner of an article is that of its token. -/
theorem getOwnerOfArticle_eq_some {id : String} {a : Address} :
    s.getOwnerOfArticle id = some a ∧ a ≠ 0 ↔
      s.tokenIdOf id ≠ 0 ∧ s.ledger.owners (s.tokenIdOf id) = some a := by
  rw [State.getOwnerOfArticle, State.ownerOf]
  constructor
  · rintro ⟨h, hne⟩
    split_ifs at h with hid
    · exact absurd (Option.some.inj h).symm hne
    · exact ⟨hid, h⟩
  · rintro ⟨hid, h⟩
    exact ⟨(if_neg hid).trans h, s.ledger.owner_ne_zero _ _ h⟩

end Contract

/-! ## What can be read -/

section

variable [Environment] {w : World} {r : ArticleRow}

/-- The state after transfers. -/
def World.transferred (w : World) (transfers : List Contract.Message) : World :=
  { w with contract := Contract.applyAll transfers w.contract }

/-- `Read` succeeds for every article that is stored, and the search without an owner
    for every page. -/
structure AllReadable (w : World) : Prop where
  read : ∀ r ∈ w.articles.rows, ∃ res, (read r.id).eval w.view = .ok res
  search : ∀ request : SearchRequest, request.ownedBy = none →
    ∃ res, (searchForArticles request).eval w.view = .ok res

/-- The article is on a page of some search without an owner. -/
def World.Shows (w : World) (r : ArticleRow) : Prop :=
  ∃ request : SearchRequest, request.ownedBy = none ∧
    r.article (w.documentOf r.id) ∈ w.selected request request.query

/-- A tokenized article has an owner if its token is held by the address of a user. -/
theorem World.exists_owner : (∃ owner, w.owner r = some owner) ↔ (r.isTokenized = true →
    ∃ a, (w.contract.getOwnerOfArticle r.id = some a ∧ a ≠ 0) ∧
      (w.lookup .walletAddressToUserID a.string).isSome = true) := by
  rcases w.token_cases r with h | ⟨h, a, ha, hne⟩ | ⟨h, ha⟩
  · simp [World.owner_of_not_tokenized h, h]
  · rw [World.owner_of_tokenized h ha hne, ha]
    simp only [h, Option.map_eq_some_iff, true_imp_iff, Option.some.injEq, Option.isSome_iff_exists]
    constructor
    · rintro ⟨_, user, huser, rfl⟩
      exact ⟨a, ⟨rfl, hne⟩, user, huser⟩
    · rintro ⟨_, ⟨rfl, -⟩, user, huser⟩
      exact ⟨_, user, huser, rfl⟩
  · rw [World.owner_eq_none h ha]
    simp only [reduceCtorEq, exists_const, h, true_imp_iff, false_iff]
    rintro ⟨a, ⟨howner, hne⟩, -⟩
    exact hne (ha a howner)

/-- What has to be known of an article: the user of the token's holder, or the wallet of
    the author. -/
def World.Knows (w : World) (r : ArticleRow) : Prop :=
  (∃ owner, w.owner r = some owner) ∧ (r.isTokenized = false → w.Shows r →
    (w.lookup .userIDToWalletAddress r.originalAuthorID).isSome = true)

/-- All articles can be read exactly if the owner of each is known. -/
theorem allReadable_iff_knows : AllReadable w ↔ ∀ r ∈ w.articles.rows, w.Knows r := by
  -- `Read` needs the owner; a search needs a user of the owner's address as well.
  constructor
  · intro h r hr
    obtain ⟨res, hres⟩ := h.read r hr
    obtain ⟨owner, howner, -⟩ := (eval_read hr).1 hres
    refine ⟨⟨owner, howner⟩, fun hflag hshows => ?_⟩
    obtain ⟨request, howned, hmem⟩ := hshows
    obtain ⟨owner, howner⟩ :=
      (exists_eval_searchForArticles howned).1 (h.search request howned) _ hmem
    exact ((eval_resolveOwner _).1 howner).2 hflag
  · intro h
    refine ⟨fun r hr => ?_, fun request howned => ?_⟩
    · obtain ⟨⟨owner, howner⟩, -⟩ := h r hr
      exact ⟨_, (eval_read hr).2 ⟨owner, howner, rfl⟩⟩
    · refine (exists_eval_searchForArticles howned).2 fun target htarget => ?_
      obtain ⟨r, hr, rfl⟩ := World.mem_selected htarget
      obtain ⟨⟨owner, howner⟩, hwallet⟩ := h r hr
      exact ⟨owner, (eval_resolveOwner _).2 ⟨howner, fun hflag =>
        hwallet hflag ⟨request, howned, htarget⟩⟩⟩

/-- In the state `s` of the contract, the token that the article has is held by the
    address of a user. -/
def World.HeldByUser (w : World) (s : Contract.State) (r : ArticleRow) : Prop :=
  w.contract.tokenIdOf r.id ≠ 0 ∧
    ∃ a, s.ledger.owners (w.contract.tokenIdOf r.id) = some a ∧
      (w.lookup .walletAddressToUserID a.string).isSome = true

/-- Whether the token of an article would be held by a user. -/
theorem World.heldByUser_iff {s : Contract.State} : w.HeldByUser s r ↔
    w.contract.tokenIdOf r.id ≠ 0 ∧ (s.ledger.owners (w.contract.tokenIdOf r.id)).any
      (fun a => (w.lookup .walletAddressToUserID a.string).isSome) = true := by
  rw [World.HeldByUser, Option.any_eq_true]

/-- After a run and transfers, everything can be read exactly if the tokens of the
    tokenized articles are held by addresses of users then, and the authors of the
    other ones that are shown have wallets. -/
theorem allReadable_iff {c : server.Config} (h : Run Any c) {transfers : List Contract.Message}
    (ht : ∀ m ∈ transfers, m.isTransfer = true) :
    AllReadable (c.world.transferred transfers) ↔ ∀ r ∈ c.world.articles.rows,
      (r.isTokenized = true →
        c.world.HeldByUser (Contract.applyAll transfers c.world.contract) r) ∧
      (r.isTokenized = false → c.world.Shows r →
        (c.world.lookup .userIDToWalletAddress r.originalAuthorID).isSome = true) := by
  have hk := Contract.kept_transfers (settledContract h).1 ht
  refine allReadable_iff_knows.trans (forall₂_congr fun r _ => and_congr ?_ Iff.rfl)
  rw [World.exists_owner]
  refine imp_congr_right fun _ => ?_
  simp only [Contract.getOwnerOfArticle_eq_some, World.HeldByUser, World.transferred, hk.tokenIdOf,
    and_assoc, exists_and_left]
  rfl

end

/-! The buyer of a token is a user, or is none. -/

section

attribute [local instance] Hardhat.environment

open Hardhat

/-- The author transfers the first token to `buyer`. -/
def sale : Contract.Message :=
  ⟨author, author_ne_zero, .transferFrom author buyer 1, [], true⟩

/-- The article of the author is tokenized, by the request `i`. -/
def tokenizeArticle (i : ℕ) : List server.Move :=
  [createArticle i, .arrive tokenize :: mint (i + 1), storeToken (i + 1),
    [.act (.mine 0 [] true)]].flatten

/-- The token is sold to a buyer who has registered. -/
theorem allReadable_sold : ∃ c, Run Any c ∧ c.world.articles.rows ≠ [] ∧
    (Contract.applyAll [sale] c.world.contract).getOwnerOfArticle articleID = some buyer ∧
    AllReadable (c.world.transferred [sale]) := by
  obtain ⟨c, hc, hp⟩ := exists_reaches_of_run (fun _ _ => true)
    [register 0, registerBuyer 1, tokenizeArticle 2].flatten (.initial World.initial)
    (fun c => c.world.articles.rows ≠ [] ∧
      (Contract.applyAll [sale] c.world.contract).getOwnerOfArticle articleID = some buyer ∧
      ∀ r ∈ c.world.articles.rows, r.isTokenized = true ∧ c.world.contract.tokenIdOf r.id ≠ 0 ∧
        ((Contract.applyAll [sale] c.world.contract).ledger.owners
          (c.world.contract.tokenIdOf r.id)).any
            (fun a => (c.world.lookup .walletAddressToUserID a.string).isSome) = true)
    (by decide +kernel)
  obtain ⟨hne, hbuyer, hrows⟩ := of_decide_eq_true hp
  refine ⟨c, hc.any, hne, hbuyer, (allReadable_iff hc.any (by decide)).2 fun r hr => ?_⟩
  obtain ⟨hflag, hheld⟩ := hrows r hr
  exact ⟨fun _ => World.heldByUser_iff.2 hheld, fun hflag' => absurd (hflag.symm.trans hflag') nofun⟩

/-- The token is sold to an account that nobody has registered. -/
theorem not_allReadable_sold : ∃ c, Run Any c ∧ AllReadable c.world ∧
    ∃ transfers : List Contract.Message, (∀ m ∈ transfers, m.isTransfer = true) ∧
      ¬ AllReadable (c.world.transferred transfers) := by
  obtain ⟨c, hc, hp⟩ := exists_reaches_of_run (fun _ _ => true)
    [register 0, tokenizeArticle 1].flatten (.initial World.initial)
    (fun c => (∀ r ∈ c.world.articles.rows, r.isTokenized = true ∧ (c.world.owner r).isSome = true) ∧
      ∃ r ∈ c.world.articles.rows,
        ((read r.id).eval (c.world.transferred [sale]).view).isOk = false)
    (by decide +kernel)
  obtain ⟨hrows, r, hr, hread⟩ := of_decide_eq_true hp
  refine ⟨c, hc.any, allReadable_iff_knows.2 fun r hr => ?_, [sale], by decide, fun h => ?_⟩
  · obtain ⟨hflag, howner⟩ := hrows r hr
    exact ⟨Option.isSome_iff_exists.1 howner, fun hflag' => absurd (hflag.symm.trans hflag') nofun⟩
  · obtain ⟨res, hres⟩ := h.read r hr
    rw [hres] at hread
    cases hread

end

end Knowtfolio
