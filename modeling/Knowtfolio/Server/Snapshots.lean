import Knowtfolio.Server.Blog
import Knowtfolio.Server.Pages

/-!
# What a search has found

A search loads the articles of its page, with their documents, by one query, and goes on with
them: it counts all that match, and looks the owners of those of the page up, while the articles
are changed. So a page is not of the moment at which it is answered. But all of it is of one
moment while it was searched for (`results_of_snapshot`).

The rows of a page come from one query, which joins the articles with their documents; what a
search does after that is only to look up owners and to count. So the entries are followed from
that query to the answer (`Found`), and the blog is looked at when the query is answered
(`blog_of_find`).
-/

namespace Knowtfolio

open Interaction Machine

section

variable [Environment] {c : server.Config} {request : SearchRequest}

/-! ## The entries of a page -/

/-- What an entry says of the article that it is made of, given the owner if it was searched
    for. -/
structure EntryOf (owner : Option (String × Option Address)) (target : Article)
    (entry : SearchResultEntry) : Prop where
  id : entry.id = target.id
  title : entry.title = target.document.title
  author : owner = none → target.isTokenized = false → entry.ownerID = target.originalAuthorID

/-- The owner of an article that is not tokenized is its author. -/
theorem wp_resolveOwner {l : Log} (target : Article) :
    Program.wp (fun _ _ => True) (fun _ r => ∀ owner, r = .ok owner →
      target.isTokenized = false → owner.1 = target.originalAuthorID) l (resolveOwner target) := by
  cases hflag : target.isTokenized with
  | true => exact Program.wp_trivial (fun _ _ _ _ h => by cases h) _
  | false =>
    -- The contract is not asked for the owner.
    have hnone : getOwnerAddressOf target = pure none := by
      rw [getOwnerAddressOf, hflag]
      rfl
    rw [resolveOwner, hnone]
    refine Program.wp_bind.2 (Program.wp_ret.2 (Program.wp_bind.2 ?_))
    refine (onlyLooksUp_getAddressByID _).wp (fun _ _ _ => trivial) fun l' r _ => ?_
    cases r with
    | error e => rintro _ ⟨⟩
    | ok a =>
      refine Program.wp_ret.2 ?_
      rintro _ ⟨⟩ -
      rfl

/-- An entry has the id and the title of the article that it is made of. -/
theorem wp_searchEntry {l : Log} (owner : Option (String × Option Address)) (target : Article) :
    Program.wp (fun _ _ => True) (fun _ r => ∀ entry, r = .ok entry → EntryOf owner target entry) l
      (searchEntry owner target) := by
  cases owner with
  | some owner =>
    refine Program.wp_ret.2 ?_
    rintro _ ⟨⟩
    exact ⟨rfl, rfl, fun h => by cases h⟩
  | none =>
    refine Program.wp_bind_ret (wp_resolveOwner target) (fun _ owner h => ?_)
      (fun _ _ _ _ h => by cases h)
    rintro _ ⟨⟩
    exact ⟨rfl, rfl, fun _ => h owner rfl⟩

/-- The entries are those of the articles, in their order; if one fails, all do. -/
theorem wp_searchEntries {l : Log} (owner : Option (String × Option Address))
    (targets : List Article) :
    Program.wp (fun _ _ => True) (fun _ r => ∀ entries, r = .ok entries →
      List.Forall₂ (EntryOf owner) targets entries) l (searchEntries owner targets) := by
  induction targets generalizing l with
  | nil =>
    refine Program.wp_ret.2 ?_
    rintro _ ⟨⟩
    exact .nil
  | cons target targets ih =>
    refine Program.wp_bind.2 (Program.wp_mono (fun _ _ h => h) ?_ (wp_searchEntry owner target))
    rintro l' (e | entry) hentry
    · rintro _ ⟨⟩
    · refine Program.wp_bind_ret ih (fun _ entries h => ?_) (fun _ _ _ _ h => by cases h)
      rintro _ ⟨⟩
      exact .cons (hentry entry rfl) (h entries rfl)

/-- The entries are those of the articles of one page that was loaded. -/
def Found (request : SearchRequest) (l : Log) (res : SearchResult) : Prop :=
  ∃ query, ∃ targets : List Article, ∃ owner,
    answered (.find query request.offset request.limit request.sortBy) targets ∈ l ∧
    (owner = none ↔ request.ownedBy = none) ∧
    List.Forall₂ (EntryOf owner) targets res.results

/-- All entries are of the answer to one query for rows. -/
theorem wp_searchQuery {l : Log} {request : SearchRequest} (query : Query)
    {owner : Option (String × Option Address)} (howner : owner = none ↔ request.ownedBy = none) :
    Program.wp (fun _ _ => True) (fun l r => ∀ res, r = .ok res → Found request l res) l
      (searchQuery request query owner) := by
  refine wp_call_bind.2 ⟨trivial, (fun _ _ h => by cases h), fun targets => ?_⟩
  refine wp_call_bind.2 ⟨trivial, (fun _ _ h => by cases h), fun totalCount => ?_⟩
  have hentries := Program.wp_prefix (wp_searchEntries (l := (l ++ [answered _ targets]) ++
    [answered (.count query) totalCount]) owner targets)
  refine Program.wp_bind_ret hentries (fun l' entries h => ?_) (fun _ _ _ _ h => by cases h)
  rintro _ ⟨⟩
  exact ⟨query, targets, owner, h.1.subset (by simp), howner, h.2 entries rfl⟩

/-- What a search answers was found by a query that it has made itself. -/
theorem wp_searchForArticles (request : SearchRequest) :
    Program.wp (fun _ _ => True) (fun l r => ∀ res, r = .ok res → Found request l res) []
      (searchForArticles request) := by
  unfold searchForArticles
  split
  next user howned =>
    refine Program.wp_bind.2 (Program.wp_mono (fun _ _ h => h) ?_
      (Program.wp_trivial (fun _ _ => trivial) (ownedByCond user)))
    rintro l (e | cond) -
    · rintro _ ⟨⟩
    · exact wp_searchQuery _ (by simp [howned])
  next howned => exact wp_searchQuery _ (by simp [howned])

/-- So is what the server answers to a request to search. -/
theorem serve_found (request : Request) :
    (serve request).wp (fun _ _ => True) (fun l r => ∀ search, request = .search search →
      ∀ res, r = .ok (.search res) → Found search l res) [] := by
  cases request with
  | search request =>
    refine Program.wp_bind_ret (wp_searchForArticles request) (fun l res h => ?_)
      (fun _ _ _ _ _ _ h => by cases h)
    rintro _ ⟨⟩ _ ⟨⟩
    exact h res rfl
  | _ => exact Program.wp_trivial (fun _ _ _ h => by cases h) _

/-! ## The moment of a page -/

/-- What an entry says was on the blog. -/
def Lists (request : SearchRequest) (b : Blog) (entry : SearchResultEntry) : Prop :=
  ∃ p, b entry.id = some p ∧ entry.title = p.title ∧
    (request.ownedBy = none → p.isTokenized = false → entry.ownerID = p.author)

/-- The articles that a query loads, in whatever order it gets them, are on the blog, and all are
    different. -/
theorem blog_of_find {w : World} {query : Query} {offset limit : ℤ} {l : List Article}
    (hl : l.Perm (w.matching query)) : ((page offset limit l).map (·.id)).Nodup ∧
    ∀ target ∈ page offset limit l, w.blog target.id =
      some ⟨target.originalAuthorID, target.document.title, target.document.content,
        target.isTokenized⟩ := by
  refine ⟨?_, fun target htarget => ?_⟩
  · exact ((hl.map _).nodup_iff.2 (w.nodup_matching query)).sublist ((page_sublist _ _ _).map _)
  · obtain ⟨r, hr, rfl⟩ := List.mem_map.1 (List.mem_filter.1 (hl.subset (mem_page htarget))).1
    exact World.blog_of_mem hr

/-- All entries of a page are of articles that were on the blog at one moment, while the page was
    searched for, and no two are of the same. -/
theorem results_of_snapshot (h : Run (isolated · ·) c) {i : ℕ} {t : server.Thread}
    (ht : c.threads[i]? = some t) (hrequest : t.request = .search request) {res : SearchResult}
    (hret : t.rest = .ret (.search res)) : (res.results.map (·.id)).Nodup ∧
    ∃ h₁ e h₂, c.history = h₁ ++ .asked i e :: h₂ ∧ ∀ entry ∈ res.results,
      Lists request (blog.replay c (h₁ ++ [.asked i e]) fun _ => none) entry := by
  have hfound : Found request t.log res := by
    have hwp := h.rest_wp (P := fun _ _ _ => True) serve_found ht
    rw [hret] at hwp
    exact Program.wp_ret.1 hwp request hrequest res rfl
  obtain ⟨query, targets, owner, hfind, howner, hentries⟩ := hfound
  -- The moment is the one of the query; what is asked after it only adds owners and users.
  obtain ⟨c₁, t₁, k, ch, w₁, h₂, -, -, -, -, -, hx, hhistory, -, hstate⟩ :=
    simulates_blog.asked h ht hfind
  obtain ⟨hw, rows, hrows, htargets⟩ : w₁ = c₁.world ∧ ∃ l : List Article,
      l.Perm (c₁.world.matching query) ∧ targets = page request.offset request.limit l := by
    rcases World.exec_cases hx with ⟨e, ⟨⟩, -⟩ | ⟨v, hv, heff⟩
    cases hv
    exact heff
  obtain ⟨hnodup, hblog⟩ := blog_of_find hrows
  rw [← htargets] at hnodup hblog
  -- Every article that was found makes one entry, in the order of the query.
  have hids : targets.map (·.id) = res.results.map (·.id) := by
    rw [← List.forall₂_eq_eq_eq, List.forall₂_map_left_iff, List.forall₂_map_right_iff]
    exact hentries.imp fun _ _ hentry => hentry.id.symm
  refine ⟨hids ▸ hnodup, c₁.history, _, h₂, hhistory, fun entry hentry => ?_⟩
  obtain ⟨target, htarget, hentry⟩ := Lists.exists_left hentries hentry
  have hreplay : w₁.blog = blog.replay c (c₁.history ++ [.asked i _]) fun _ => none := hstate
  refine ⟨⟨target.originalAuthorID, target.document.title, target.document.content,
    target.isTokenized⟩, ?_, hentry.title, fun howned => hentry.author (howner.2 howned)⟩
  rw [← hreplay, hw, hentry.id, hblog target htarget]

end

/-! A search of the first page, while the article that it has found gets another title. -/

section

attribute [local instance] Hardhat.environment

open Hardhat

/-- A search that has ended, with its answer. -/
def searchEnded (t : server.Thread) : Option (SearchRequest × SearchResult) :=
  match t.request, t.rest with
  | .search request, .ret (.search res) => some (request, res)
  | _, _ => none

/-- A search that has ended has answered a page. -/
theorem of_searchEnded {t : server.Thread} {request : SearchRequest} {res : SearchResult}
    (h : searchEnded t = some (request, res)) :
    t.request = .search request ∧ t.rest = .ret (.search res) := by
  unfold searchEnded at h
  split at h
  next request' res' hrequest hrest =>
    cases h
    exact ⟨hrequest, hrest⟩
  next => cases h

/-- The update is served after the query of the search, and before its other calls. -/
def searched : List server.Move :=
  [register 0, createArticle 1, [.arrive (.search firstPage),
    .step 2 (.rows [newArticle articleID "document_01" "title" "content" "author"]),
    .arrive (.update "author" articleID (some "title 2") none)],
    steps 3 [.ok, .ok, .ok, .recreate false], steps 2 [.ok, .ok]].flatten

/-- While the author is looked up, the article gets another title: the search answers the one that
    it had when it was found. -/
theorem results_of_snapshot_searched : ∃ (c : server.Config) (request : SearchRequest)
    (res : SearchResult), Run (isolated · ·) c ∧
    (c.world.blog articleID).map (·.title) = some "title 2" ∧ res.results.map (·.title) = ["title"] ∧
    ∃ h₁ e h₂, c.history = h₁ ++ .asked 2 e :: h₂ ∧ ∀ entry ∈ res.results,
      Lists request (blog.replay c (h₁ ++ [.asked 2 e]) fun _ => none) entry := by
  obtain ⟨c, hc, hp⟩ := exists_reaches_of_run isolated searched (.initial World.initial)
    (fun c => (c.world.blog articleID).map (·.title) = some "title 2" ∧
      (c.threads[2]?).any fun t => (searchEnded t).any fun ended =>
        ended.2.results.map (·.title) = ["title"]) (by decide +kernel)
  obtain ⟨hblog, h⟩ := of_decide_eq_true hp
  obtain ⟨t, ht, h⟩ := (Option.any_eq_true _ _).1 h
  obtain ⟨⟨request, res⟩, hended, htitles⟩ := (Option.any_eq_true _ _).1 h
  obtain ⟨hrequest, hret⟩ := of_searchEnded hended
  exact ⟨c, request, res, hc, hblog, of_decide_eq_true htitles,
    (results_of_snapshot hc ht hrequest hret).2⟩

end

end Knowtfolio
