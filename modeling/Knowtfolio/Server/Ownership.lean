import Knowtfolio.Contract.Custody
import Knowtfolio.Server.Agreement
import Knowtfolio.Server.Blog
import Knowtfolio.Server.SearchOwner
import Knowtfolio.Server.Transfers

/-!
# Ownership

The owner of an article is nowhere stored: `Read`, `AuthorizeEdit` and the search each look up
whether it is tokenized, who holds its token, and whose address that is. These are the database,
the chain and the address table, which change independently of each other, while others tokenize,
update, sell and register.

To the user of a wallet that holds the token of a tokenized article they agree: the user is its
owner, and nobody else is (`SoleOwner`). So it stays, whatever else happens, as long as the wallet
does not give the token away and approves nobody (`owner_stays`).

Who holds the token is followed along the run (`holder_stays`): the contract takes a token away
only by what its owner sends, the table keeps the address of the user, and the row stays tokenized.
From the state alone it then follows what the three services say (`soleOwner`).
-/

namespace Knowtfolio

open Interaction Machine

section

variable [Environment] {ok : server.Config → server.Move → Prop} {c c' : server.Config} {w : World}
  {r : ArticleRow} {user : String} {a : Address} {t : ℕ}

/-! ## The owner -/

/-- The user, and nobody else, is reported as the owner of the article, may edit it, and is listed
    it: by searches of which no page ends between two matches with the same time, in whatever order
    each page gets its rows. -/
structure SoleOwner (w : World) (r : ArticleRow) (user : String) : Prop where
  reports : ∀ user', Reports w r.id user' ↔ user' = user
  authorize : ∀ user' (d : Document),
    (authorizeEdit user' (r.article d) false).eval w.view = .ok () ↔ user' = user
  listed : ∀ {times : Times} (o : ℕ → Arrangement times) (request : SearchRequest) user',
    request.keywords = none → request.ownedBy = some user' → Untied times w request →
    (Listed o w request r.id ↔ user' = user)

/-- A wallet is that of one user. -/
theorem wallet_eq_some_iff (hbook : AddressBook w.items) (hwallet : w.wallet user = some a)
    {user' : String} : w.wallet user' = some a ↔ user' = user :=
  ⟨fun h => PEquiv.inj hbook.toPEquiv h hwallet, fun h => h ▸ hwallet⟩

/-- Read, `AuthorizeEdit` and the search by owner look up the same three facts: the row, the owner
    of the token, and the user of the address. -/
theorem soleOwner (hbook : AddressBook w.items) (hinv : Contract.Inv w.contract)
    (hr : r ∈ w.articles.rows) (hflag : r.isTokenized = true) (hne : a ≠ 0)
    (howner : w.contract.getOwnerOfArticle r.id = some a) (hwallet : w.wallet user = some a) :
    SoleOwner w r user := by
  -- All three are the question whether the wallet of the user is the owner's address.
  have hreports : ∀ user', Reports w r.id user' ↔ user' = user := by
    intro user'
    rw [reports_iff_wallet hbook hr, ← wallet_eq_some_iff hbook hwallet, howner, hflag]
    constructor
    · rintro (⟨⟨⟩, -⟩ | ⟨-, a', -, ⟨⟩, h⟩)
      exact h
    · exact fun h => .inr ⟨rfl, a, hne, rfl, h⟩
  refine ⟨hreports, fun user' d => ?_, fun o request user' hkeywords howned huntied => ?_⟩
  · rw [eval_authorizeEdit d hflag, howner, ← wallet_eq_some_iff hbook hwallet]
    constructor
    · rintro ⟨a', ⟨⟩, h⟩
      exact (hbook.toPEquiv.mem_iff_mem).1 h
    · exact fun h => ⟨a, rfl, (hbook.toPEquiv.mem_iff_mem).2 h⟩
  · -- The search asks the contract for the tokens of a wallet, which has the article's among them.
    have hmatched : Matched w request r.id ↔ user' = user := by
      rw [matched_iff_wallet hinv hkeywords howned hr, ← wallet_eq_some_iff hbook hwallet, howner,
        hflag]
      constructor
      · rintro ⟨-, ⟨a', h, ⟨⟩⟩ | ⟨⟨⟩, -⟩⟩
        exact h
      · intro h
        exact ⟨fun h' => hne (Option.some.inj (h.symm.trans h')), .inl ⟨a, h, rfl⟩⟩
    rw [← hmatched]
    exact ⟨Listed.matched, fun h => h.listed (h.answers hkeywords howned) huntied o⟩

/-! ## What stays -/

/-- The account approves nobody; the counter of the tokens does not overflow, addresses are
    registered in their spelling, and no update undoes a tokenization. -/
def custodial (a : Address) (c : server.Config) (m : server.Move) : Bool :=
  searchable c m && keepsTokenized c m && match m with
    | .act (.message m) => m.sender ≠ a || !m.fn.approves
    | _ => true

/-- Nor does it give the token away. -/
def keepsToken (a : Address) (t : ℕ) (c : server.Config) (m : server.Move) : Bool :=
  custodial a c m && match m with
    | .act (.message m) => !m.gives a t
    | _ => true

/-- The token of an article stays its token. -/
theorem tokenIdOf_mono (h : Run ok c) (h' : Reaches ok c c') {id : String}
    (ht : c.world.contract.tokenIdOf id = t) (hne : t ≠ 0) :
    c'.world.contract.tokenIdOf id = t := by
  refine h'.induction (fun c' : server.Config => c'.world.contract.tokenIdOf id = t) ht
    (fun _ _ _ hc _ => hc) ?_ ?_
  · exact fun c₁ i ch th o k ans w' _ hc _ _ _ he => World.contract_of_exec he ▸ hc
  · intro c₁ x w' h₁ hc _ hx
    obtain ⟨hsettled, howner⟩ := settledContract (h.trans h₁)
    rcases World.act_cases hx with ⟨k, inner, accepts, p, rfl, -, rfl⟩ | ⟨k, p, rfl, -, rfl⟩ |
      ⟨m, rfl, hm, rfl⟩
    · show ((p.message inner accepts).apply c₁.world.contract).tokenIdOf id = t
      rcases mine_cases hsettled p inner accepts with ⟨-, heq⟩ | ⟨-, hm⟩
      · rw [heq, hc]
      · -- Only articles without a token get one.
        have hid : id ≠ p.articleId := by
          rintro rfl
          exact hne (hc.symm.trans hm.unminted)
        rw [hm.tokenIdOf, Function.update_of_ne hid, hc]
    · exact hc
    · show (m.apply c₁.world.contract).tokenIdOf id = t
      rw [(Contract.kept_apply hsettled (by rwa [howner])).tokenIdOf, hc]

/-- What an action takes from an account that approves nobody. -/
theorem holds_act (ha : Chain.isContract a = false) {x : Action} {w' : World}
    (hx : w.act x = some w') (hok : custodial a c (.act x) = true)
    (hs : w.contract.ledger.Held a) :
    w.contract.ledger.Holds a (fun t => keepsToken a t c (.act x) = false) w'.contract.ledger := by
  rcases World.act_cases hx with ⟨k, inner, accepts, p, rfl, -, rfl⟩ | ⟨k, p, rfl, -, rfl⟩ |
    ⟨m, rfl, hm, rfl⟩
  · refine (Contract.apply_holds ha (fun _ => rfl) hs).mono ?_
    rintro t ⟨hgives, -⟩
    cases (Bool.and_eq_true_iff.1 hgives).2
  · exact hs.refl
  · have happroves := (Bool.and_eq_true_iff.1 hok).2
    refine (Contract.apply_holds ha (fun hsender => ?_) hs).mono ?_
    · simpa [hsender] using happroves
    · rintro t ⟨hgives, -⟩
      simp [keepsToken, hgives]

/-- The wallet approves nobody in the run. -/
theorem held_of_run (ha : Chain.isContract a = false) (h : Run (custodial a · ·) c) :
    c.world.contract.ledger.Held a := by
  refine h.induction (fun c : server.Config => c.world.contract.ledger.Held a)
    (Erc721.Ledger.held_empty a) (fun _ _ _ hc _ => hc) ?_ ?_
  · exact fun c₁ i ch th o k ans w' _ hc _ _ _ he => World.contract_of_exec he ▸ hc
  · exact fun c₁ x w' _ hc hok hx => (holds_act ha hx hok hc).held

/-- The account keeps the token. -/
theorem ownerOf_mono (ha : Chain.isContract a = false) (h : Run (custodial a · ·) c)
    (h' : Reaches (keepsToken a t · ·) c c') (ht : c.world.contract.ownerOf t = some a) :
    c'.world.contract.ownerOf t = some a := by
  have hcustodial : ∀ c m, keepsToken a t c m = true → custodial a c m = true :=
    fun c m hm => (Bool.and_eq_true_iff.1 hm).1
  refine h'.induction (fun c' : server.Config => c'.world.contract.ownerOf t = some a) ht
    (fun _ _ _ hc _ => hc) ?_ ?_
  · exact fun c₁ i ch th o k ans w' _ hc _ _ _ he => World.contract_of_exec he ▸ hc
  · intro c₁ x w' h₁ hc hok hx
    have hheld := held_of_run ha (h.trans (h₁.mono hcustodial))
    refine ((holds_act ha hx (hcustodial _ _ hok) hheld).owners t hc).resolve_right fun hgiven => ?_
    rw [hok] at hgiven
    cases hgiven

/-- An item that is none of a nonce stays. -/
theorem items_mono (h : Run ok c) (h' : Reaches ok c c') {i : Item}
    (hi : i ∈ c.world.items.rows) (htype : i.type ≠ .userIDToNonce) :
    i ∈ c'.world.items.rows := by
  refine h'.induction (fun c' : server.Config => i ∈ c'.world.items.rows) hi
    (fun _ _ _ hc _ => hc) ?_ ?_
  · intro c₁ j ch th o k ans w' h₁ hc _ ht hk he
    rcases World.exec_cases he with ⟨e, rfl, rfl⟩ | ⟨v, rfl, heff⟩
    · exact hc
    have hperm := (asks_of_rest (h.trans h₁) ht hk).2
    -- Nonces are put over nonces, and registrations put items that are new.
    cases o with
    | putItem item =>
      obtain ⟨-, rfl⟩ := heff
      obtain ⟨_, _, _, _, _, -, rfl, -⟩ := hperm
      exact Keyed.Table.mem_put.2 (.inl ⟨hc, fun hkey => htype (congrArg Prod.fst hkey)⟩)
    | transactWriteItems items =>
      obtain ⟨userID, walletAddress, n, -, rfl, -⟩ := hperm
      obtain ⟨-, hmem⟩ :=
        World.mem_items_of_transact (by simp [userWalletItems, Item.primaryKey]) heff
      exact (hmem i).2 (.inl hc)
    | _ => exact (heff.changes.items rfl) ▸ hc
  · intro c₁ x w' _ hc _ hx
    have hitems : w'.items = c₁.world.items := World.items_of_act hx
    exact hitems ▸ hc

/-- A user keeps its wallet. -/
theorem wallet_mono (h : Run ok c) (h' : Reaches ok c c') (hwallet : c.world.wallet user = some a) :
    c'.world.wallet user = some a := by
  obtain ⟨address, haddress, rfl⟩ := Option.map_eq_some_iff.1 hwallet
  have hmem := items_mono h h' (World.lookup_eq_some.1 haddress) (fun h => by cases h)
  rw [World.wallet, World.lookup_eq_some.2 hmem, Option.map_some]

/-- The wallet of the user holds the token of the article, which is stored as tokenized. -/
structure Holder (w : World) (id user : String) (a : Address) : Prop where
  tokenized : ∀ r ∈ w.articles.rows, r.id = id → r.isTokenized = true
  owner : w.contract.getOwnerOfArticle id = some a
  wallet : w.wallet user = some a

/-- As long as its wallet does not give the token away, and approves nobody, the user holds it. -/
theorem holder_stays (ha : Chain.isContract a = false) (hne : a ≠ 0) (h : Run (custodial a · ·) c)
    (hr : r ∈ c.world.articles.rows) (hflag : r.isTokenized = true)
    (howner : c.world.contract.getOwnerOfArticle r.id = some a)
    (hwallet : c.world.wallet user = some a)
    (h' : Reaches (keepsToken a (c.world.contract.tokenIdOf r.id) · ·) c c') :
    Holder c'.world r.id user a := by
  have hcustodial : Reaches (custodial a · ·) c c' :=
    h'.mono fun _ _ hm => (Bool.and_eq_true_iff.1 hm).1
  refine ⟨fun r' hr' hid => ?_, ?_, wallet_mono h hcustodial hwallet⟩
  · have htokenized : Run (keepsTokenized · ·) c' := (h.trans hcustodial).mono fun _ _ hm =>
      (Bool.and_eq_true_iff.1 (Bool.and_eq_true_iff.1 hm).1).2
    obtain ⟨i, a, hcommit, hrest⟩ := committedTokenized_of_row h hr hflag
    exact (keptTokenized htokenized).rows r' hr'
      ⟨i, a, hcustodial.history_prefix.subset hcommit, hid ▸ hrest⟩
  · obtain ⟨ht, ho⟩ := Contract.getOwnerOfArticle_eq_some.1 ⟨howner, hne⟩
    have ht' := tokenIdOf_mono h hcustodial rfl ht
    refine (Contract.getOwnerOfArticle_eq_some.2 ⟨ht'.trans_ne ht, ?_⟩).1
    rw [ht']
    exact ownerOf_mono ha h h' ho

/-- Addresses are registered in their spelling. -/
theorem addressBook_of_custodial (h : Run (custodial a · ·) c) : AddressBook c.world.items :=
  addressBook (fun _ _ hm => (Bool.and_eq_true_iff.1
    (Bool.and_eq_true_iff.1 (Bool.and_eq_true_iff.1 hm).1).1).2) h

/-- As long as its wallet does not give the token away, and approves nobody, the user stays the
    owner of the article, and nobody else is, whatever else happens. -/
theorem owner_stays (ha : Chain.isContract a = false) (hne : a ≠ 0) (h : Run (custodial a · ·) c)
    (hr : r ∈ c.world.articles.rows) (hflag : r.isTokenized = true)
    (howner : c.world.contract.getOwnerOfArticle r.id = some a)
    (hwallet : c.world.wallet user = some a)
    (h' : Reaches (keepsToken a (c.world.contract.tokenIdOf r.id) · ·) c c') :
    ∀ r' ∈ c'.world.articles.rows, r'.id = r.id → SoleOwner c'.world r' user := by
  intro r' hr' hid
  have hholder := holder_stays ha hne h hr hflag howner hwallet h'
  have hrun : Run (custodial a · ·) c' :=
    h.trans (h'.mono fun _ _ hm => (Bool.and_eq_true_iff.1 hm).1)
  have hbounded : ∀ (c : server.Config) m, custodial a c m = true → boundedMints c m = true :=
    fun _ _ hm => (Bool.and_eq_true_iff.1 (Bool.and_eq_true_iff.1 (Bool.and_eq_true_iff.1 hm).1).1).1
  exact soleOwner (addressBook_of_custodial hrun) (ownedContract hbounded hrun).inv hr'
    (hholder.tokenized r' hr' hid) hne (hid ▸ hholder.owner) hholder.wallet

end

/-! The author has the token. A user registers, and tries to take it; and the author updates the
article. -/

section

attribute [local instance] Hardhat.environment

open Hardhat

/-- The buyer's account is not the zero one. -/
theorem buyer_ne_zero : buyer ≠ 0 := by decide

/-- The account `buyer` tries to transfer the token to itself. -/
def take : server.Move :=
  .act (.message ⟨buyer, buyer_ne_zero, .transferFrom author buyer 1, [], true⟩)

/-- What happens to the article when it has been tokenized. -/
def taken : List server.Move :=
  [registerBuyer 3, [take], .arrive (.update "author" articleID (some "title 2") none) ::
    steps 4 [.ok, .ok, .ok, .ok, .ok, .recreate false]].flatten

/-- The author keeps the token, although another user registers and tries to take it, and edits the
    article. -/
theorem owner_stays_taken : ∃ (c c' : server.Config) (r : ArticleRow), Run (custodial author · ·) c ∧
    Reaches (keepsToken author 1 · ·) c c' ∧ c'.threads.length = 5 ∧
    r ∈ c'.world.articles.rows ∧ (c'.world.documentOf r.id).title = "title 2" ∧
    SoleOwner c'.world r "author" := by
  obtain ⟨c, h, hp⟩ := exists_reaches_of_run (custodial author) tokenized (.initial World.initial)
    (fun c => (∃ r ∈ c.world.articles.rows, r.id = articleID.1 ∧ r.isTokenized = true) ∧
      c.world.contract.tokenIdOf articleID = 1 ∧
      c.world.contract.getOwnerOfArticle articleID = some author ∧
      c.world.wallet "author" = some author ∧
      (c.run (keepsToken author 1) taken).any fun c' => c'.threads.length = 5 ∧
        ∃ r ∈ c'.world.articles.rows, r.id = articleID.1 ∧
          (c'.world.documentOf r.id).title = "title 2") (by decide +kernel)
  obtain ⟨⟨r, hr, hid, hflag⟩, htoken, howner, hwallet, hrun⟩ := of_decide_eq_true hp
  obtain ⟨c', h', hp'⟩ := exists_reaches_of_run (keepsToken author 1) taken c _ hrun
  obtain ⟨hlength, r', hr', hid', htitle⟩ := of_decide_eq_true hp'
  rw [← hid] at htoken howner
  refine ⟨c, c', r', h, h', hlength, hr', htitle, ?_⟩
  exact owner_stays rfl author_ne_zero h hr hflag howner hwallet (htoken.symm ▸ h') r' hr'
    (hid'.trans hid.symm)

end

end Knowtfolio
