import Knowtfolio.Server.Hardhat
import Knowtfolio.Server.Runs
import Knowtfolio.Server.Views

/-!
# What the search answers

A search without an owner resolves the owner of every article of its page, as `Read`
does, but for an author without a wallet address: `Read` answers an article without
an address then, while the search fails. So it answers what `Read` does exactly
if the authors of the articles of the page that are not tokenized have wallet
addresses (`agreesWithRead_iff`).

A search without an owner looks up the owner of each of its articles, as `Read` does, and fails as
a whole if one of the look-ups fails. So the two agree exactly if, whenever all articles of the
page can be read, the search can look all their owners up (`exists_eval_searchForArticles`).
-/

namespace Knowtfolio

open Interaction Machine

section

variable [Environment] {w : World}

/-- The articles of the page. -/
def World.selected (w : World) (request : SearchRequest) (query : Query) : List Article :=
  page request.offset request.limit (MySQL.order request.sortBy (w.matching query))

omit [Environment] in
/-- A page is a part of what was found, in the same order. -/
theorem page_sublist (offset limit : ℤ) (l : List Article) : (page offset limit l).Sublist l := by
  unfold page
  split_ifs
  · exact (List.take_sublist _ _).trans (List.drop_sublist _ _)
  · exact List.drop_sublist _ _

omit [Environment] in
/-- What is on a page is among the matches. -/
theorem mem_page {offset limit : ℤ} {l : List Article} {a : Article}
    (h : a ∈ page offset limit l) : a ∈ l :=
  (page_sublist offset limit l).subset h

/-- What a search selects are articles that are stored. -/
theorem World.mem_selected {request : SearchRequest} {query : Query} {target : Article}
    (h : target ∈ w.selected request query) :
    ∃ r ∈ w.articles.rows, target = r.article (w.documentOf r.id) := by
  have hmem := (MySQL.order_perm _ _).subset (mem_page h)
  obtain ⟨r, hr, rfl⟩ := List.mem_map.1 (List.mem_filter.1 hmem).1
  exact ⟨r, hr, rfl⟩

/-- The entries of a page, if all of them are answered. -/
theorem eval_searchEntries {owner : Option (String × Option Address)} {targets : List Article}
    {entries : List SearchResultEntry} :
    (searchEntries owner targets).eval w.view = .ok entries ↔
      List.Forall₂ (fun target entry => (searchEntry owner target).eval w.view = .ok entry)
        targets entries := by
  induction targets generalizing entries with
  | nil => cases entries <;> simp [searchEntries]
  | cons target targets ih =>
    rw [searchEntries, Program.eval_bind]
    cases hentry : (searchEntry owner target).eval w.view with
    | error e => cases entries <;> simp [hentry]
    | ok entry =>
      rw [Program.ok_bind, Program.eval_bind]
      cases htargets : (searchEntries owner targets).eval w.view with
      | error e => cases entries <;> simp [hentry, ← ih, htargets]
      | ok entries' => cases entries <;> simp [hentry, ← ih, htargets]

/-- What is searched for after the query has been built. -/
theorem eval_searchQuery {request : SearchRequest} {query : Query}
    {owner : Option (String × Option Address)} {res : SearchResult} :
    (searchQuery request query owner).eval w.view = .ok res ↔
      res.totalCount = (w.matching query).length ∧
        (searchEntries owner (w.selected request query)).eval w.view = .ok res.results := by
  rw [searchQuery, eval_call_bind (o := .find _ _ _ _) rfl, eval_call_bind (o := .count _) rfl,
    Program.eval_bind, World.selected]
  obtain ⟨results, totalCount⟩ := res
  cases (searchEntries owner (page request.offset request.limit
      (MySQL.order request.sortBy (w.matching query)))).eval w.view with
  | error e => simp
  | ok entries => simp [eq_comm, and_comm]

/-! ## A search without an owner -/

/-- The search succeeds with the articles of the page, each with the owner that `Read`
    reports. -/
def AgreesWithRead (w : World) (request : SearchRequest) : Prop :=
  ∃ res, (searchForArticles request).eval w.view = .ok res ∧
    ∀ entry ∈ res.results, ∃ article, (read entry.id).eval w.view = .ok article ∧
      entry.ownerID = article.ownerID ∧ entry.ownerAddress = article.ownerAddress

/-- The query of a search without an owner. -/
def SearchRequest.query (request : SearchRequest) : Query := ⟨none, request.likes⟩

/-- The entry of an article, in a search without an owner, says what its owner is resolved to. -/
theorem eval_searchEntry {r : ArticleRow} {d : Document} {entry : SearchResultEntry} :
    (searchEntry none (r.article d)).eval w.view = .ok entry ↔
      ∃ owner, (resolveOwner (r.article d)).eval w.view = .ok owner ∧
        entry = ⟨r.id, d.title, owner.1, owner.2.map Address.string⟩ := by
  rw [searchEntry, Option.map_none, Option.getD_none, Program.eval_bind]
  cases (resolveOwner (r.article d)).eval w.view with
  | error e => simp
  | ok owner => simp [ArticleRow.article, eq_comm]

/-- A search without an owner answers the entries of its page, if all of them are
    answered. -/
theorem eval_searchForArticles_of_unowned {request : SearchRequest}
    (howned : request.ownedBy = none) {res : SearchResult} :
    (searchForArticles request).eval w.view = .ok res ↔
      res.totalCount = (w.matching request.query).length ∧
        List.Forall₂ (fun target entry => (searchEntry none target).eval w.view = .ok entry)
          (w.selected request request.query) res.results := by
  rw [searchForArticles, howned, ← eval_searchEntries]
  exact eval_searchQuery

/-- It succeeds exactly if the owners of all articles of the page are resolved. -/
theorem exists_eval_searchForArticles {request : SearchRequest}
    (howned : request.ownedBy = none) :
    (∃ res, (searchForArticles request).eval w.view = .ok res) ↔
      ∀ target ∈ w.selected request request.query,
        ∃ owner, (resolveOwner target).eval w.view = .ok owner := by
  simp only [eval_searchForArticles_of_unowned howned]
  constructor
  · rintro ⟨res, -, hentries⟩ target htarget
    obtain ⟨entry, -, hentry⟩ := Lists.exists_right hentries htarget
    obtain ⟨r, hr, rfl⟩ := World.mem_selected htarget
    obtain ⟨owner, howner, -⟩ := eval_searchEntry.1 hentry
    exact ⟨owner, howner⟩
  · intro hresolve
    obtain ⟨entries, hentries⟩ : ∃ entries, List.Forall₂
        (fun target entry => (searchEntry none target).eval w.view = .ok entry)
        (w.selected request request.query) entries := by
      refine Lists.exists_forall₂ fun target htarget => ?_
      obtain ⟨owner, howner⟩ := hresolve target htarget
      obtain ⟨r, hr, rfl⟩ := World.mem_selected htarget
      exact ⟨_, eval_searchEntry.2 ⟨owner, howner, rfl⟩⟩
    exact ⟨⟨entries, (w.matching request.query).length⟩, rfl, hentries⟩

/-- If `Read` succeeds on every article of a page, a search without an owner answers
    the same owners exactly if all authors of the articles that are not tokenized
    have wallet addresses. -/
theorem agreesWithRead_iff {request : SearchRequest} (howned : request.ownedBy = none)
    (hread : ∀ target ∈ w.selected request request.query,
      ∃ article, (read target.id).eval w.view = .ok article) :
    AgreesWithRead w request ↔ ∀ target ∈ w.selected request request.query,
      target.isTokenized = false →
        (w.lookup .userIDToWalletAddress target.originalAuthorID).isSome = true := by
  constructor
  · rintro ⟨res, hres, -⟩ target htarget hflag
    obtain ⟨owner, howner⟩ := (exists_eval_searchForArticles howned).1 ⟨res, hres⟩ target htarget
    obtain ⟨r, hr, rfl⟩ := World.mem_selected htarget
    exact ((eval_resolveOwner _).1 howner).2 hflag
  · intro hwallet
    obtain ⟨res, hres⟩ := (exists_eval_searchForArticles (w := w) howned).2 fun target htarget => by
      obtain ⟨article, harticle⟩ := hread target htarget
      obtain ⟨r, hr, rfl⟩ := World.mem_selected htarget
      obtain ⟨owner, howner, -⟩ := (eval_read hr).1 harticle
      exact ⟨owner, (eval_resolveOwner _).2 ⟨howner, fun hflag => hwallet _ htarget hflag⟩⟩
    refine ⟨res, hres, fun entry hentry => ?_⟩
    have hentries := ((eval_searchForArticles_of_unowned howned).1 hres).2
    obtain ⟨target, htarget, hentry⟩ := Lists.exists_left hentries hentry
    obtain ⟨r, hr, rfl⟩ := World.mem_selected htarget
    obtain ⟨owner, howner, rfl⟩ := eval_searchEntry.1 hentry
    exact ⟨_, (eval_read hr).2 ⟨owner, ((eval_resolveOwner _).1 howner).1, rfl⟩, rfl, rfl⟩

end

/-! An author without a wallet address, and one with it. -/

section

attribute [local instance] Hardhat.environment

open Hardhat

/-- The first page of all articles. -/
def firstPage : SearchRequest where
  keywords := none
  ownedBy := none
  sortBy := .createdAt
  pageNum := 1
  pageSize := 10
  pageNum_pos := by decide
  pageSize_pos := by decide
  pageSize_le := by decide

/-- Whether `Read` succeeds on every article of the first page. -/
def readsFirstPage (w : World) : Bool :=
  (w.selected firstPage firstPage.query).all fun target => ((read target.id).eval w.view).isOk

/-- That all of the first page can be read is evaluated. -/
theorem exists_of_readsFirstPage {w : World} (h : readsFirstPage w = true) :
    ∀ target ∈ w.selected firstPage firstPage.query,
      ∃ article, (read target.id).eval w.view = .ok article := by
  intro target htarget
  have hok := List.all_eq_true.1 h target htarget
  cases hread : (read target.id).eval w.view with
  | ok article => exact ⟨article, rfl⟩
  | error e => rw [hread] at hok; cases hok

/-- The author has registered a wallet. -/
theorem agreesWithRead_registered : ∃ c, Run Any c ∧
    (∃ target ∈ c.world.selected firstPage firstPage.query, target.isTokenized = false) ∧
    AgreesWithRead c.world firstPage := by
  obtain ⟨c, hc, hp⟩ := exists_reaches_of_run (fun _ _ => true)
    [register 0, createArticle 1].flatten (.initial World.initial)
    (fun c => readsFirstPage c.world = true ∧
      (∃ target ∈ c.world.selected firstPage firstPage.query, target.isTokenized = false) ∧
      ∀ target ∈ c.world.selected firstPage firstPage.query, target.isTokenized = false →
        (c.world.lookup .userIDToWalletAddress target.originalAuthorID).isSome = true)
    (by decide +kernel)
  obtain ⟨hread, hex, hwallet⟩ := of_decide_eq_true hp
  exact ⟨c, hc.any, hex, (agreesWithRead_iff rfl (exists_of_readsFirstPage hread)).2 hwallet⟩

/-- The author has not: the article can be read, but the search fails. -/
theorem not_agreesWithRead_unregistered : ∃ c, Run Any c ∧ firstPage.ownedBy = none ∧
    (∀ target ∈ c.world.selected firstPage firstPage.query,
      ∃ article, (read target.id).eval c.world.view = .ok article) ∧
    ¬ AgreesWithRead c.world firstPage := by
  obtain ⟨c, hc, hp⟩ := exists_reaches_of_run (fun _ _ => true) (createArticle 0)
    (.initial World.initial)
    (fun c => readsFirstPage c.world = true ∧
      ((searchForArticles firstPage).eval c.world.view).isOk = false)
    (by decide +kernel)
  obtain ⟨hread, hsearch⟩ := of_decide_eq_true hp
  refine ⟨c, hc.any, rfl, exists_of_readsFirstPage hread, ?_⟩
  rintro ⟨res, hres, -⟩
  rw [hres] at hsearch
  cases hsearch

end

end Knowtfolio
