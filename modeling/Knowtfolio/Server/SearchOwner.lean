import Knowtfolio.Contract.Listing
import Knowtfolio.Server.AddressBook
import Knowtfolio.Server.Mints
import Knowtfolio.Server.Partition

/-!
# Searching for what a user owns

A search for the articles of a user matches those that the contract lists for the wallet
of the user, whether they are stored as tokenized or not, and those of which the user
is the author and that are not tokenized. `Read` looks first whether an article is
tokenized. So the two differ on an article that has a token and is not tokenized,
which the search matches for the owner of the token as well as for the author. Apart
from these, and from the zero address, which the contract lists nothing for, what the
search matches is what `Read` reports the user to own (`matched_iff_undisputed`).

The matches are listed on pages, each asked for by a query of its own, to which the
database may return matches with the same time in another order. So all of them are
listed, whatever the orders, if no page ends between two such matches, and only then
(`listed_iff_reports`).

The conditions are those of a state (`Undisputed`) and of the runs that lead to it (`searchable`):
that addresses are registered in their spelling, so that looking them up is the same in both
directions, and that the contract can count.
-/

namespace Knowtfolio

open Interaction Machine

section

variable [Environment] {times : Times} {w : World} {request : SearchRequest} {user id : String}

/-! ## What is matched, and what is listed -/

/-- The article is a match of the search. -/
def Matched (w : World) (request : SearchRequest) (id : String) : Prop :=
  ∃ l, w.matches request = .ok l ∧ id ∈ l.map (·.id)

/-- One of the pages of the search has an entry of the article, if the database returns the rows
    for the page `q + 1` in the order `o q`. -/
def Listed (o : ℕ → Arrangement times) (w : World) (request : SearchRequest) (id : String) : Prop :=
  ∃ q h res, answer (o q) w (request.at (.ofNat 64 (q + 1)) h) = .ok res ∧
    q < request.pageCount res.totalCount ∧ ∃ entry ∈ res.results, entry.id = id

/-- A search matches each row once at most. -/
theorem length_le_of_matches {l : List Article} (hl : w.matches request = .ok l) :
    l.length ≤ w.articles.rows.length := by
  rw [World.matches] at hl
  cases hquery : w.query request with
  | error e => simp [hquery] at hl
  | ok q =>
    rw [hquery, Program.ok_bind] at hl
    cases hl
    exact (List.length_filter_le _ _).trans (by rw [World.stored, List.length_map])

/-- A search that is answered has matches. -/
theorem exists_matches_of_answer {o : Arrangement times} {request : SearchRequest}
    {res : SearchResult} (h : answer o w request = .ok res) : ∃ l, w.matches request = .ok l := by
  rw [answer, @eval_searchForArticles o.environment, query_environment] at h
  rw [World.matches]
  cases hquery : w.query request with
  | error e => simp [hquery] at h
  | ok q => exact ⟨_, rfl⟩

/-- What is listed is matched. -/
theorem Listed.matched {o : ℕ → Arrangement times} (h : Listed o w request id) :
    Matched w request id := by
  obtain ⟨q, hone, res, hres, -, entry, hentry, rfl⟩ := h
  obtain ⟨l, hl⟩ := exists_matches_of_answer hres
  refine ⟨l, hl, ?_⟩
  have hids := (results_of_answer hl hres).2
  have hmem : entry.id ∈ res.results.map (·.id) := List.mem_map_of_mem hentry
  rw [hids] at hmem
  exact (((o q).order_perm _ _).map _).subset (((page_sublist _ _ _).map _).subset hmem)

/-- If no page ends at a tie, all matches are listed. -/
theorem Matched.listed (h : Matched w request id) (hans : Answers times w request)
    (huntied : Untied times w request) (o : ℕ → Arrangement times) : Listed o w request id := by
  obtain ⟨l, hl, hid⟩ := h
  obtain ⟨results, hresults⟩ := hans.exists_results o
  obtain ⟨hperm, htotal⟩ := pagesPartition_of_untied huntied o results l hl fun q _ h => hresults q h
  obtain ⟨q, hq, hmem⟩ := List.mem_flatMap.1 (hperm.symm.subset hid)
  have hq := List.mem_range.1 hq
  obtain ⟨hlast, -⟩ := huntied l hl
  obtain ⟨-, hpos⟩ := request.limit_eq
  have hnum : q + 1 < 2 ^ 64 := by
    have hle : q * request.pageSize.toNat ≤
        (request.pageCount l.length - 1) * request.pageSize.toNat :=
      Nat.mul_le_mul_right _ (Nat.le_sub_one_of_lt hq)
    have := Nat.le_mul_of_pos_right q hpos
    omega
  obtain ⟨entry, hentry, heq⟩ := List.mem_map.1 hmem
  exact ⟨q, one_le_ofNat hnum, results q, hresults q _, (htotal q hq).symm ▸ hq, entry, hentry, heq⟩

/-- In the same order for all pages, every match is listed. -/
theorem Matched.listed_const (h : Matched w request id) (hans : Answers times w request)
    (hrows : w.articles.rows.length < 2 ^ 63) (o : Arrangement times) :
    Listed (fun _ => o) w request id := by
  obtain ⟨l, hl, hid⟩ := h
  obtain ⟨results, hresults⟩ := hans.exists_results fun _ => o
  have hlength := length_le_of_matches hl
  obtain ⟨-, hpos⟩ := request.limit_eq
  obtain ⟨i, hi⟩ := List.getElem?_of_mem (((o.order_perm request.sortBy l).map _).symm.subset hid)
  have hlt : i < l.length := by
    rw [← (o.order_perm request.sortBy l).length_eq, ← List.length_map (f := (·.id))]
    exact (List.getElem?_eq_some_iff.1 hi).1
  -- The match is on the page that its place is on.
  obtain ⟨q, hq⟩ : ∃ q, i / request.pageSize.toNat = q := ⟨_, rfl⟩
  have hle : q * request.pageSize.toNat ≤ i := hq ▸ Nat.div_mul_le_self _ _
  have hnum : q + 1 < 2 ^ 64 := by
    have := Nat.le_mul_of_pos_right q hpos
    omega
  have hcount : q < request.pageCount l.length := by
    have := request.le_pageCount_mul l.length
    exact Nat.lt_of_mul_lt_mul_right (a := request.pageSize.toNat) (by omega)
  obtain ⟨htotal, hids⟩ := results_of_answer_at hl hnum (hresults q (one_le_ofNat hnum))
  rw [wrap_of_lt (by omega), List.map_take, List.map_drop] at hids
  have hmem : id ∈ (results q).results.map (·.id) := by
    rw [hids, ← hq]
    exact Lists.mem_take_drop hpos hi
  obtain ⟨entry, hentry, heq⟩ := List.mem_map.1 hmem
  exact ⟨q, one_le_ofNat hnum, results q, hresults q _, htotal.symm ▸ hcount, entry, hentry, heq⟩

/-- If all matches are listed, whatever the orders, no page ends at a tie: the pages have no place
    for a match that is on two of them. -/
theorem untied_of_listed (hans : Answers times w request) (hrows : w.articles.rows.length < 2 ^ 63)
    (h : ∀ (o : ℕ → Arrangement times) id, Matched w request id → Listed o w request id) :
    Untied times w request := by
  have hoffset : ∀ {l : List Article} {q : ℕ}, w.matches request = .ok l →
      q < request.pageCount l.length → q * request.pageSize.toNat < 2 ^ 63 := fun hl hq => by
    have := request.mul_lt_of_lt_pageCount hq
    have := length_le_of_matches hl
    omega
  -- All matches are on the pages, which have no more places than there are matches.
  have hpages : PagesPartition times w request := by
    intro o results l hl hresults
    have hnum : ∀ {q : ℕ}, q < request.pageCount l.length → q + 1 < 2 ^ 64 := fun {q} hq => by
      have := Nat.le_mul_of_pos_right q request.limit_eq.2
      have := hoffset hl hq
      omega
    have hpage : ∀ q < request.pageCount l.length, (results q).totalCount = l.length ∧
        (results q).results.map (·.id) = Windows.window request.pageSize.toNat q
          (((o q).order request.sortBy l).map (·.id)) := by
      intro q hq
      obtain ⟨htotal, hids⟩ := results_of_answer_at hl (hnum hq)
        (hresults q hq (one_le_ofNat (hnum hq)))
      rw [wrap_of_lt (hoffset hl hq), List.map_take, List.map_drop] at hids
      exact ⟨htotal, hids⟩
    refine ⟨?_, fun q hq => (hpage q hq).1⟩
    have hsub : l.map (·.id) ⊆ (List.range (request.pageCount l.length)).flatMap fun q =>
        (results q).results.map (·.id) := by
      intro id hid
      obtain ⟨q, hone, res, hres, hq, entry, hentry, rfl⟩ := h o id ⟨l, hl, hid⟩
      have hl' : w.matches (request.at (.ofNat 64 (q + 1)) hone) = .ok l := hl
      have htotal : res.totalCount = l.length := (results_of_answer hl' hres).1
      rw [htotal] at hq
      cases hres.symm.trans (hresults q hq hone)
      exact List.mem_flatMap.2 ⟨q, List.mem_range.2 hq, List.mem_map_of_mem hentry⟩
    have hlength : ((List.range (request.pageCount l.length)).flatMap fun q =>
        (results q).results.map (·.id)).length ≤ (l.map (·.id)).length := by
      rw [List.flatMap_congr fun q hq => (hpage q (List.mem_range.1 hq)).2,
        Windows.length_flatMap_window (n := l.length) fun q => by
          rw [List.length_map, ((o q).order_perm _ _).length_eq], List.length_map]
      exact Nat.min_le_right _ _
    exact ((List.subperm_of_subset (World.nodup_matches hl) hsub).perm_of_length_le hlength).symm
  refine fun l hl => ⟨?_, fun q hq => not_tie_of_pagesPartition hans hpages hl hq⟩
  rcases Nat.eq_zero_or_pos (request.pageCount l.length) with hzero | hpos
  · rw [hzero, Nat.zero_sub, Nat.zero_mul]
    exact Nat.two_pow_pos 63
  · exact hoffset hl (Nat.sub_one_lt_of_lt hpos)

/-! ## The matches -/

/-- The articles that match a search by owner are those of the tokens that were listed, and those of
    the author that are not tokenized. -/
theorem World.mem_matching {ids : List String} {target : Article} :
    target ∈ w.matching ⟨some (ids, user), []⟩ ↔ ∃ r ∈ w.articles.rows,
      target = r.article (w.documentOf r.id) ∧
        (r.id ∈ ids ∨ r.isTokenized = false ∧ r.originalAuthorID = user) := by
  have hholds : ∀ r : ArticleRow,
      World.holds ⟨some (ids, user), []⟩ (r.article (w.documentOf r.id)) = true ↔
        r.id ∈ ids ∨ r.isTokenized = false ∧ r.originalAuthorID = user := fun r => by
    simp only [World.holds, ArticleRow.article, List.all_nil, Bool.and_true, Bool.or_eq_true,
      List.contains_iff_mem, Bool.and_eq_true, Bool.not_eq_true']
    exact or_congr_right (and_congr_right fun _ => decide_eq_true_iff)
  rw [World.matching, List.mem_filter, World.stored, List.mem_map]
  constructor
  · rintro ⟨⟨r, hr, rfl⟩, hmatch⟩
    exact ⟨r, hr, rfl, (hholds r).1 hmatch⟩
  · rintro ⟨r, hr, rfl, hmatch⟩
    exact ⟨⟨r, hr, rfl⟩, (hholds r).2 hmatch⟩

/-- An entry for an owner who is known already. -/
theorem eval_searchEntry_of_owner {owner : String × Option Address} {target : Article}
    {entry : SearchResultEntry} :
    (searchEntry (some owner) target).eval w.view = .ok entry ↔
      entry = ⟨target.id, target.document.title, owner.1, owner.2.map Address.string⟩ := by
  rw [searchEntry, Option.map_some, Option.getD_some, Program.eval_bind]
  simp [eq_comm]

section

variable (hkeywords : request.keywords = none) (howned : request.ownedBy = some user)
include hkeywords howned

/-- The query of a search by owner that has no keywords. -/
theorem query_of_owner : w.query request = (ownedByCond user).eval w.view >>= fun cond =>
    .ok (⟨some (cond.2, user), []⟩, some (user, cond.1)) := by
  have hlikes : request.likes = [] := by rw [SearchRequest.likes, hkeywords]
  rw [World.query, howned, hlikes]
  rfl

/-- Nothing is matched if the condition of the query cannot be built. -/
theorem matches_of_error {e : Fault} (hcond : (ownedByCond user).eval w.view = .error e) :
    w.matches request = .error e := by
  rw [World.matches, query_of_owner hkeywords howned, hcond]
  rfl

/-- What matches it, given the tokens of the owner's address. -/
theorem matches_of_owner {cond : Option Address × List String}
    (hcond : (ownedByCond user).eval w.view = .ok cond) :
    w.matches request = .ok (w.matching ⟨some (cond.2, user), []⟩) := by
  rw [World.matches, query_of_owner hkeywords howned, hcond]
  rfl

/-- The articles that are matched, by their rows. -/
theorem matched_iff {cond : Option Address × List String}
    (hcond : (ownedByCond user).eval w.view = .ok cond) :
    Matched w request id ↔ ∃ r ∈ w.articles.rows, r.id = id ∧
      (r.id ∈ cond.2 ∨ r.isTokenized = false ∧ r.originalAuthorID = user) := by
  rw [Matched, matches_of_owner hkeywords howned hcond]
  constructor
  · rintro ⟨_, ⟨⟩, hid⟩
    obtain ⟨target, htarget, rfl⟩ := List.mem_map.1 hid
    obtain ⟨r, hr, rfl, hmatch⟩ := World.mem_matching.1 htarget
    exact ⟨r, hr, rfl, hmatch⟩
  · rintro ⟨r, hr, rfl, hmatch⟩
    exact ⟨_, rfl, List.mem_map.2 ⟨_, World.mem_matching.2 ⟨r, hr, rfl, hmatch⟩, rfl⟩⟩

/-- The owner is known, so that no entry of a page fails. -/
theorem answers_of_matches {l : List Article} (hl : w.matches request = .ok l) :
    Answers times w request := by
  intro o pageNum hpos
  rw [answer, @eval_searchForArticles o.environment, query_environment]
  have hquery : w.query (request.at pageNum hpos) = w.query request := rfl
  rw [hquery, query_of_owner hkeywords howned]
  cases hcond : (ownedByCond user).eval w.view with
  | error e =>
    rw [matches_of_error hkeywords howned hcond] at hl
    cases hl
  | ok cond =>
    obtain ⟨entries, hentries⟩ : ∃ entries, List.Forall₂ (fun target entry =>
        (searchEntry (some (user, cond.1)) target).eval (@World.view o.environment.toMySQL w) =
          .ok entry) (@World.selected o.environment w (request.at pageNum hpos)
            ⟨some (cond.2, user), []⟩) entries :=
      Lists.exists_forall₂ fun target _ => ⟨_, (@eval_searchEntry_of_owner o.environment ..).2 rfl⟩
    exact ⟨⟨entries, _⟩, (@eval_searchQuery o.environment ..).2
      ⟨rfl, (@eval_searchEntries o.environment ..).2 hentries⟩⟩

/-- A search that matches something has an answer on each page. -/
theorem Matched.answers (h : Matched w request id) : Answers times w request :=
  let ⟨_, hl, _⟩ := h
  answers_of_matches hkeywords howned hl

end

/-! ## The condition of the query -/

/-- The wallet address of a user. -/
def World.wallet (w : World) (user : String) : Option Address :=
  (w.lookup .userIDToWalletAddress user).map hexToAddress

/-- The tokens of a user without a wallet are not asked for. -/
theorem eval_ownedByCond_of_none (h : w.wallet user = none) :
    (ownedByCond user).eval w.view = .ok (none, []) := by
  rw [ownedByCond, Program.eval_bind, eval_findAddressByID]
  exact congrArg (Except.ok · >>= _) h

/-- The contract answers no list for the zero address. -/
theorem eval_ownedByCond_of_zero (h : w.wallet user = some 0) :
    ∃ e, (ownedByCond user).eval w.view = .error e := by
  have hview : w.view (.getArticleIdsOwnedBy 0) = .error executionReverted := by
    rw [World.view, Contract.State.getArticleIdsOwnedBy, Contract.State.balanceOf, if_pos rfl]
    rfl
  rw [World.wallet] at h
  rw [ownedByCond, Program.eval_bind, eval_findAddressByID, h, Program.ok_bind]
  exact ⟨_, eval_call_bind_error (o := .getArticleIdsOwnedBy 0) hview _⟩

/-- The tokens of a user with a wallet are those of its address. -/
theorem eval_ownedByCond (hinv : Contract.Inv w.contract) {a : Address}
    (h : w.wallet user = some a) (hne : a ≠ 0) :
    (ownedByCond user).eval w.view = .ok (some a, Contract.articlesOf w.contract a) := by
  have hview : w.view (.getArticleIdsOwnedBy a) =
      .ok ((Contract.articlesOf w.contract a).map (Contract.baseURI ++ ·)) := by
    rw [World.view, Contract.getArticleIdsOwnedBy_eq hinv hne]
    rfl
  rw [World.wallet] at h
  rw [ownedByCond, Program.eval_bind, eval_findAddressByID, h, Program.ok_bind]
  refine (eval_call_bind (o := .getArticleIdsOwnedBy a) hview _).trans ?_
  exact congrArg (fun ids => Except.ok (some a, ids)) (Contract.map_trimPrefix_baseURI _)

/-- Whom `Read` reports, by the wallets. -/
theorem reports_iff_wallet (hbook : AddressBook w.items) {r : ArticleRow}
    (hr : r ∈ w.articles.rows) :
    Reports w r.id user ↔ r.isTokenized = false ∧ r.originalAuthorID = user ∨
      r.isTokenized = true ∧ ∃ a, a ≠ 0 ∧ w.contract.getOwnerOfArticle r.id = some a ∧
        w.wallet user = some a := by
  rw [reports_iff hr rfl]
  rcases w.token_cases r with h | ⟨h, a, ha, hne⟩ | ⟨h, ha⟩
  · rw [World.owner_of_not_tokenized h]
    simp [h]
  · have hwallet : w.lookup .walletAddressToUserID a.string = some user ↔ w.wallet user = some a :=
      hbook.toPEquiv.inv user a
    rw [World.owner_of_tokenized h ha hne]
    simp [h, ha, hne, hwallet]
  · rw [World.owner_eq_none h ha]
    simp only [reduceCtorEq, exists_false, h, false_and, true_and, false_or, false_iff, not_exists,
      not_and]
    exact fun a hne ha' => absurd (ha a ha') hne

/-- What is matched is stored. -/
theorem Matched.exists_mem (hkeywords : request.keywords = none)
    (howned : request.ownedBy = some user) (h : Matched w request id) :
    ∃ r ∈ w.articles.rows, r.id = id := by
  cases hcond : (ownedByCond user).eval w.view with
  | error e =>
    obtain ⟨l, hl, -⟩ := h
    rw [matches_of_error hkeywords howned hcond] at hl
    cases hl
  | ok cond =>
    obtain ⟨r, hr, hid, -⟩ := (matched_iff hkeywords howned hcond).1 h
    exact ⟨r, hr, hid⟩

/-- What is matched, by the wallets. -/
theorem matched_iff_wallet (hinv : Contract.Inv w.contract) (hkeywords : request.keywords = none)
    (howned : request.ownedBy = some user) {r : ArticleRow} (hr : r ∈ w.articles.rows) :
    Matched w request r.id ↔ w.wallet user ≠ some 0 ∧
      ((∃ a, w.wallet user = some a ∧ w.contract.getOwnerOfArticle r.id = some a) ∨
        r.isTokenized = false ∧ r.originalAuthorID = user) := by
  have hrow : ∀ p : ArticleRow → Prop, (∃ r' ∈ w.articles.rows, r'.id = r.id ∧ p r') ↔ p r := by
    refine fun p => ⟨?_, fun h => ⟨r, hr, rfl, h⟩⟩
    rintro ⟨r', hr', hid, h⟩
    rwa [← w.articles.eq_of_key_eq hr' hr hid]
  cases hwallet : w.wallet user with
  | none =>
    rw [matched_iff hkeywords howned (eval_ownedByCond_of_none hwallet), hrow]
    simp
  | some a =>
    by_cases hzero : a = 0
    · subst hzero
      obtain ⟨e, he⟩ := eval_ownedByCond_of_zero hwallet
      simp [Matched, matches_of_error hkeywords howned he]
    · rw [matched_iff hkeywords howned (eval_ownedByCond hinv hwallet hzero), hrow,
        Contract.mem_articlesOf hinv hzero]
      simp [hzero]

/-- No article that is not tokenized has a token in the wallet of the user, unless it is
    the user's own; and if the wallet is at the zero address, the user has no article
    that is not tokenized. -/
def Undisputed (w : World) (user : String) : Prop :=
  ∀ r ∈ w.articles.rows, r.isTokenized = false → ∀ a ∈ w.wallet user,
    if a = 0 then r.originalAuthorID ≠ user
    else w.contract.getOwnerOfArticle r.id = some a → r.originalAuthorID = user

instance (w : World) (user : String) : Decidable (Undisputed w user) :=
  inferInstanceAs (Decidable (∀ r ∈ w.articles.rows, _))

/-- The search matches what `Read` reports the user to own, exactly if nothing of it is disputed. -/
theorem matched_iff_undisputed (hbook : AddressBook w.items) (hinv : Contract.Inv w.contract)
    (hkeywords : request.keywords = none) (howned : request.ownedBy = some user) :
    (∀ id, Matched w request id ↔ Reports w id user) ↔ Undisputed w user := by
  have hids : (∀ id, Matched w request id ↔ Reports w id user) ↔
      ∀ r ∈ w.articles.rows, Matched w request r.id ↔ Reports w r.id user := by
    refine ⟨fun h r _ => h r.id, fun h id => ⟨fun hid => ?_, fun hid => ?_⟩⟩
    · obtain ⟨r, hr, rfl⟩ := hid.exists_mem hkeywords howned
      exact (h r hr).1 hid
    · obtain ⟨r, hr, rfl⟩ := hid.exists_mem
      exact (h r hr).2 hid
  rw [hids]
  refine forall₂_congr fun r hr => ?_
  rw [matched_iff_wallet hinv hkeywords howned hr, reports_iff_wallet hbook hr]
  cases r.isTokenized with
  | true =>
    -- The owner of the token is never the zero address.
    simp only [reduceCtorEq, false_and, or_false, true_and, false_or, false_imp_iff, iff_true]
    constructor
    · rintro ⟨hne, a, hwallet, howner⟩
      exact ⟨a, fun hzero => hne (hzero ▸ hwallet), howner, hwallet⟩
    · rintro ⟨a, hne, howner, hwallet⟩
      exact ⟨fun hzero => hne (Option.some.inj (hwallet.symm.trans hzero)), a, hwallet, howner⟩
  | false =>
    cases hwallet : w.wallet user with
    | none => simp
    | some a =>
      by_cases hzero : a = 0
      · simp [hzero]
      · simp [hzero]

/-! ## In a run -/

/-- An address is registered in its spelling. -/
def Request.registersSpelling : Request → Bool
  | .putUserWallet _ walletAddress => Checksummed walletAddress
  | _ => true

/-- Addresses are registered in their spelling. -/
def registersSpelling (_ : server.Config) : server.Move → Bool
  | .arrive r => Request.registersSpelling r
  | _ => true

/-- Where spellings of addresses are registered, the table is an address book. -/
theorem addressBook {ok : server.Config → server.Move → Prop} {c : server.Config}
    (hok : ∀ c m, ok c m → registersSpelling c m = true) (h : Run ok c) :
    AddressBook c.world.items := by
  refine h.induction (fun c : server.Config => AddressBook c.world.items) addressBook_empty
    (fun c r _ hc _ => hc) ?_ ?_
  · intro c i ch t o k ans w' hrun hc _ ht hk hx
    rcases World.exec_cases hx with ⟨e, rfl, rfl⟩ | ⟨v, rfl, heff⟩
    · exact hc
    have hperm := (asks_of_rest hrun ht hk).2
    cases o with
    | putItem item =>
      -- A nonce is put for a user who has an address, and addresses only by registrations.
      obtain ⟨-, rfl⟩ := heff
      obtain ⟨_, _, _, _, _, -, rfl, -⟩ := hperm
      exact hc.put rfl
    | transactWriteItems items =>
      obtain ⟨userID, walletAddress, n, hrequest, rfl, -⟩ := hperm
      have hspelling : Request.registersSpelling t.request = true :=
        hrun.request (p := fun r : Request => Request.registersSpelling r = true)
          (fun c r hm => hok c (.arrive r) hm) ht
      rw [hrequest, Request.registersSpelling, decide_eq_true_iff] at hspelling
      exact hc.register hspelling heff
    | _ => exact (heff.changes.items rfl) ▸ hc
  · intro c x w' _ hc _ hx
    have hitems : w'.items = c.world.items := World.items_of_act hx
    exact hitems ▸ hc

/-- The moves of the runs searched: the counter of the tokens does not overflow, and
    addresses are registered in their spelling. -/
def searchable (c : server.Config) (m : server.Move) : Bool :=
  boundedMints c m && registersSpelling c m

/-- In every state of a run, a search for a user lists on its pages what `Read` reports the user to
    own, in whatever order each page gets its rows, exactly if nothing of it is disputed and no page
    ends between two matches with the same time; and nobody else is listed for what is undisputed. -/
theorem listed_iff_reports {c : server.Config} (h : Run (searchable · ·) c)
    (hrows : c.world.articles.rows.length < 2 ^ 63) (hkeywords : request.keywords = none)
    (howned : request.ownedBy = some user) :
    ((∀ (o : ℕ → Arrangement times) id,
        Listed o c.world request id ↔ Reports c.world id user) ↔
      Undisputed c.world user ∧ Untied times c.world request) ∧
      (Undisputed c.world user → ∀ request' user', request'.keywords = none →
        request'.ownedBy = some user' → Undisputed c.world user' →
        ∀ (o o' : ℕ → Arrangement times) id, Listed o c.world request id →
          Listed o' c.world request' id → user = user') := by
  have hbook : AddressBook c.world.items :=
    addressBook (fun c m hm => (Bool.and_eq_true_iff.1 hm).2) h
  have hinv := (ownedContract (fun c m hm => (Bool.and_eq_true_iff.1 hm).1) h).inv
  have hmatched := matched_iff_undisputed hbook hinv hkeywords howned
  refine ⟨⟨fun hlisted => ?_, fun ⟨hundisputed, huntied⟩ o id => ?_⟩, ?_⟩
  · -- What is matched is listed in some order, so it is what is listed in all.
    have hall : ∀ id, Matched c.world request id ↔ Reports c.world id user := by
      refine fun id => ⟨fun hid => ?_, fun hid => ?_⟩
      · have hans : Answers times c.world request := hid.answers hkeywords howned
        exact (hlisted _ id).1 (hid.listed_const hans hrows Arrangement.asStored)
      · exact ((hlisted (fun _ => Arrangement.asStored) id).2 hid).matched
    refine ⟨hmatched.1 hall, fun l hl => ?_⟩
    exact untied_of_listed (answers_of_matches hkeywords howned hl) hrows
      (fun o id hid => (hlisted o id).2 ((hall id).1 hid)) l hl
  · rw [← hmatched.2 hundisputed id]
    exact ⟨Listed.matched, fun hid => hid.listed (hid.answers hkeywords howned) huntied o⟩
  · intro hun request' user' hkeywords' howned' hun' o o' id hid hid'
    have hreports := (hmatched.2 hun id).1 hid.matched
    have hreports' :=
      ((matched_iff_undisputed hbook hinv hkeywords' howned').2 hun' id).1 hid'.matched
    exact hreports.unique hreports'

end

/-! The mint of a request that failed is mined, and the token is sold. -/

section

attribute [local instance] Hardhat.environment

open Hardhat

/-- The search for the articles of a user. -/
def searchOwnedBy (user : String) : SearchRequest := { firstPage with ownedBy := some user }

/-- The number of the first page is one that can be asked for. -/
theorem one_le_firstPage : 1 ≤ BitVec.ofNat 64 (0 + 1) := one_le_ofNat (by decide)

/-- The article is on the first page. -/
def isOnFirstPage (w : World) (user id : String) : Bool :=
  (answer inOrder w ((searchOwnedBy user).at (.ofNat 64 (0 + 1)) one_le_firstPage)).toOption.any
    fun res => (searchOwnedBy user).pageCount res.totalCount != 0 &&
      res.results.any fun entry => entry.id == id

/-- What is on the first page is listed. -/
theorem listed_of_isOnFirstPage {w : World} {user id : String}
    (h : isOnFirstPage w user id = true) :
    Listed (fun _ => inOrder) w (searchOwnedBy user) id := by
  obtain ⟨res, hres, h⟩ := (Option.any_eq_true _ _).1 h
  obtain ⟨hcount, hany⟩ := Bool.and_eq_true_iff.1 h
  obtain ⟨entry, hentry, hid⟩ := List.any_eq_true.1 hany
  refine ⟨0, one_le_firstPage, res, ?_, Nat.pos_of_ne_zero (bne_iff_ne.1 hcount), entry, hentry,
    eq_of_beq hid⟩
  exact Program.eq_ok_of_toOption hres

/-- The article is tokenized, and its author sells the token to the user `buyer`. -/
def sold : List server.Move :=
  [register 0, registerBuyer 1, createArticle 2, .arrive tokenize :: mint 3, storeToken 3,
    [.act (.mine 0 [] true), sell]].flatten

/-- The author has sold the token, and the buyer has registered. -/
theorem listed_iff_reports_sold : ∃ c, Run (searchable · ·) c ∧
    Listed (fun _ => inOrder) c.world (searchOwnedBy "buyer") articleID ∧
    ∀ (o : ℕ → Arrangement atOnce) id,
      Listed o c.world (searchOwnedBy "buyer") id ↔ Reports c.world id "buyer" := by
  obtain ⟨c, hc, hp⟩ := exists_reaches_of_run searchable sold (.initial World.initial)
    (fun c => c.world.articles.rows.length < 2 ^ 63 ∧ Undisputed c.world "buyer" ∧
      isUntied atOnce c.world (searchOwnedBy "buyer") 1 = true ∧
      isOnFirstPage c.world "buyer" articleID = true)
    (by decide +kernel)
  obtain ⟨hrows, hun, huntied, hpage⟩ := of_decide_eq_true hp
  obtain ⟨-, -, -, huntied⟩ := exists_of_isUntied huntied
  exact ⟨c, hc, listed_of_isOnFirstPage hpage,
    (listed_iff_reports hc hrows rfl rfl).1.2 ⟨hun, huntied⟩⟩

/-- The upload fails, and the author sells the token. -/
def soldUntokenized : List server.Move :=
  [register 0, registerBuyer 1, createArticle 2, .arrive tokenize :: mint 3,
    steps 3 [.json "{}", .fail "connection reset"], [.act (.mine 0 [] true), sell]].flatten

/-- The token is minted and sold, but the article is not stored as tokenized: both are listed it. -/
theorem not_listed_iff_reports_soldUntokenized : ∃ c, Run (searchable · ·) c ∧
    Listed (fun _ => inOrder) c.world (searchOwnedBy "buyer") articleID ∧
    Listed (fun _ => inOrder) c.world (searchOwnedBy "author") articleID ∧
    ¬ ∀ (o : ℕ → Arrangement atOnce) id,
      Listed o c.world (searchOwnedBy "buyer") id ↔ Reports c.world id "buyer" := by
  obtain ⟨c, hc, hp⟩ := exists_reaches_of_run searchable soldUntokenized (.initial World.initial)
    (fun c => isOnFirstPage c.world "buyer" articleID = true ∧
      isOnFirstPage c.world "author" articleID = true ∧
      ∃ r ∈ c.world.articles.rows, r.id = articleID ∧ r.isTokenized = false ∧
        r.originalAuthorID = "author")
    (by decide +kernel)
  obtain ⟨hbuyer, hauthor, r, hr, hid, hflag, hr'⟩ := of_decide_eq_true hp
  refine ⟨c, hc, listed_of_isOnFirstPage hbuyer, listed_of_isOnFirstPage hauthor, fun h => ?_⟩
  obtain ⟨a, howner⟩ := (reports_iff hr hid).1 ((h _ _).1 (listed_of_isOnFirstPage hbuyer))
  rw [World.owner_of_not_tokenized hflag, hr'] at howner
  have : "author" = "buyer" := congrArg Prod.fst (Option.some.inj howner)
  exact absurd this (by decide)

end

end Knowtfolio
