import Knowtfolio.Server.SearchResults

/-!
# Pages

The page of a search is cut out of the list of its matches at an offset, computed as an
unsigned machine integer, read as a signed one, and left out if that is not positive.
Up to `2 ^ 63` matches before it, a page is what its number says. From there on the
offset wraps, to matches that are not of the page, or to the first ones
(`results_eq_window_iff`).
-/

namespace Knowtfolio

open Interaction

/-! ## The offset -/

/-- The offset of `m` rows as it gets into the query, modulo the machine. -/
def wrap (m : ℕ) : ℕ := if m % 2 ^ 64 < 2 ^ 63 then m % 2 ^ 64 else 0

/-- An offset that does not overflow is left as it is. -/
theorem wrap_of_lt {m : ℕ} (h : m < 2 ^ 63) : wrap m = m := by
  rw [wrap, Nat.mod_eq_of_lt (by omega), if_pos h]

/-- An offset is one that a signed integer can be. -/
theorem wrap_lt (m : ℕ) : wrap m < 2 ^ 63 := by
  unfold wrap
  split_ifs with h
  · exact h
  · exact Nat.two_pow_pos 63

/-- The page of the number `pageNum` of the same search. -/
def SearchRequest.at (request : SearchRequest) (pageNum : BitVec 64) (h : 1 ≤ pageNum) :
    SearchRequest :=
  { request with pageNum, pageNum_pos := h }

namespace SearchRequest

variable (request : SearchRequest)

/-- The number of matches before the page. -/
def first : ℕ := (request.pageNum.toNat - 1) * request.pageSize.toNat

/-- What the page is of a list of matches: those with an index from
    `(pageNum - 1) * pageSize` on and below `pageNum * pageSize`. -/
def window {α : Type} (l : List α) : List α :=
  (l.take (request.pageNum.toNat * request.pageSize.toNat)).drop request.first

/-- Pages are counted from one. -/
theorem pageNum_toNat_pos : 0 < request.pageNum.toNat := by
  have hpos := BitVec.le_def.1 request.pageNum_pos
  simp at hpos
  omega

/-- The limit is the size of a page, which is positive. -/
theorem limit_eq : request.limit = request.pageSize.toNat ∧ 0 < request.pageSize.toNat := by
  have hpos := BitVec.le_def.1 request.pageSize_pos
  have hle := BitVec.le_def.1 request.pageSize_le
  refine ⟨BitVec.toInt_eq_toNat_of_lt ?_, ?_⟩ <;> simp at hpos hle <;> omega

/-- The offset of the query, if it has one. -/
theorem offset_toNat : request.offset.toNat = wrap request.first := by
  have hsub : (request.pageNum - 1).toNat = request.pageNum.toNat - 1 := by
    rw [BitVec.toNat_sub_of_le request.pageNum_pos]
    rfl
  have hmul : ((request.pageNum - 1) * request.pageSize).toNat = request.first % 2 ^ 64 := by
    rw [BitVec.toNat_mul, hsub, first]
  rw [offset, BitVec.toInt_eq_toNat_cond, hmul, wrap]
  -- A negative offset counts as none.
  split_ifs <;> omega

/-- The rows of the page that the query asks for. -/
theorem page_eq (l : List Article) : page request.offset request.limit l =
    (l.drop (wrap request.first)).take request.pageSize.toNat := by
  obtain ⟨hlimit, hpos⟩ := request.limit_eq
  rw [page, hlimit, if_pos (by exact_mod_cast hpos), offset_toNat, Int.toNat_natCast]

/-- The window of a page is what comes after the pages before. -/
theorem window_eq {α : Type} (l : List α) :
    request.window l = (l.drop request.first).take request.pageSize.toNat := by
  have hnum := request.pageNum_toNat_pos
  have hlast : request.pageNum.toNat * request.pageSize.toNat =
      request.first + request.pageSize.toNat := by
    rw [first, ← Nat.succ_mul, Nat.succ_eq_add_one, Nat.sub_add_cancel hnum]
  rw [window, hlast, List.drop_take, Nat.add_sub_cancel_left]

/-- The first place of a page. -/
theorem first_at {q : ℕ} (hq : q + 1 < 2 ^ 64) (h : 1 ≤ BitVec.ofNat 64 (q + 1)) :
    (request.at (.ofNat 64 (q + 1)) h).first = q * request.pageSize.toNat := by
  rw [first, SearchRequest.at, BitVec.toNat_ofNat, Nat.mod_eq_of_lt hq, Nat.add_sub_cancel]

end SearchRequest

/-- Page numbers that do not overflow can be asked for: they are positive. -/
theorem one_le_ofNat {q : ℕ} (hq : q + 1 < 2 ^ 64) : 1 ≤ BitVec.ofNat 64 (q + 1) := by
  rw [BitVec.le_def, BitVec.toNat_ofNat, Nat.mod_eq_of_lt hq]
  simp

/-! ## The results -/

section

variable [Environment] {w : World} {request : SearchRequest}

/-- The query of a search, and the owner searched for. -/
def World.query (w : World) (request : SearchRequest) :
    Except Fault (Query × Option (String × Option Address)) :=
  match request.ownedBy with
  | some user => do
    let (ownedByAddr, ownedArticleIDs) ← (ownedByCond user).eval w.view
    pure (⟨some (ownedArticleIDs, user), request.likes⟩, some (user, ownedByAddr))
  | none => pure (⟨none, request.likes⟩, none)

/-- The matches of a search, in their order. -/
def World.found (w : World) (request : SearchRequest) : Except Fault (List Article) := do
  let (query, _) ← w.query request
  pure (MySQL.order request.sortBy (w.matching query))

/-- A search first finds out its condition, and then asks its query. -/
theorem eval_searchForArticles : (searchForArticles request).eval w.view =
    w.query request >>= fun q => (searchQuery request q.1 q.2).eval w.view := by
  rw [searchForArticles, World.query]
  cases request.ownedBy with
  | none => rfl
  | some user =>
    simp only [Program.eval_bind]
    cases (ownedByCond user).eval w.view <;> rfl

/-- An entry is of the article that it is made of. -/
theorem id_of_eval_searchEntry {owner : Option (String × Option Address)} {target : Article}
    {entry : SearchResultEntry} (h : (searchEntry owner target).eval w.view = .ok entry) :
    entry.id = target.id := by
  rw [searchEntry, Program.eval_bind] at h
  cases howner : ((owner.map pure).getD (resolveOwner target)).eval w.view with
  | error e => simp [howner] at h
  | ok o =>
    simp only [howner, Program.ok_bind, Program.pure_eq, Program.eval_ret, Except.ok.injEq] at h
    rw [← h]

/-- The articles of an answer are those of the page, and its total is the number of
    all matches. -/
theorem results_of_eval {res : SearchResult}
    (h : (searchForArticles request).eval w.view = .ok res) :
    ∃ l, w.found request = .ok l ∧ res.totalCount = l.length ∧
      res.results.map (·.id) = (page request.offset request.limit l).map (·.id) := by
  rw [eval_searchForArticles] at h
  rw [World.found]
  cases hquery : w.query request with
  | error e => simp [hquery] at h
  | ok q =>
    rw [hquery, Program.ok_bind, eval_searchQuery, eval_searchEntries] at h
    obtain ⟨htotal, hentries⟩ := h
    refine ⟨_, rfl, by rw [htotal, (MySQL.order_perm _ _).length_eq], ?_⟩
    rw [← List.forall₂_eq_eq_eq, List.forall₂_map_left_iff, List.forall₂_map_right_iff]
    exact hentries.flip.imp fun _ _ hentry => id_of_eval_searchEntry hentry

/-- No two matches of a query have the same id. -/
theorem World.nodup_matching (w : World) (query : Query) :
    ((w.matching query).map (·.id)).Nodup := by
  have hstored : (w.stored.map (·.id)).Nodup := by
    rw [World.stored, List.map_map]
    exact w.articles.nodup
  exact hstored.sublist (List.filter_sublist.map _)

/-- Articles are found once. -/
theorem World.nodup_found {l : List Article} (h : w.found request = .ok l) :
    (l.map (·.id)).Nodup := by
  rw [World.found] at h
  cases hquery : w.query request with
  | error e => simp [hquery] at h
  | ok q =>
    rw [hquery, Program.ok_bind] at h
    cases h
    exact ((MySQL.order_perm _ _).map _).nodup_iff.2 (w.nodup_matching q.1)

/-- An answer has the matches that its page says, in their order, exactly if there are
    fewer than `2 ^ 63` of them before the page, or none at the offset that the machine
    makes of them. -/
theorem results_eq_window_iff {res : SearchResult}
    (h : (searchForArticles request).eval w.view = .ok res) :
    ∃ l, w.found request = .ok l ∧
      (res.results.map (·.id) = (request.window l).map (·.id) ↔
        request.first < 2 ^ 63 ∨ l.length ≤ wrap request.first) := by
  obtain ⟨l, hl, -, hresults⟩ := results_of_eval h
  obtain ⟨-, hpos⟩ := request.limit_eq
  refine ⟨l, hl, ?_⟩
  rw [hresults, request.page_eq, request.window_eq, List.map_take, List.map_drop, List.map_take,
    List.map_drop, Lists.take_drop_inj (World.nodup_found hl) hpos, List.length_map]
  have hwrap := wrap_lt request.first
  constructor
  · rintro (heq | ⟨hle, -⟩)
    · exact .inl (heq ▸ hwrap)
    · exact .inr hle
  · rintro (hlt | hle)
    · exact .inl (wrap_of_lt hlt)
    · by_cases hlt : request.first < 2 ^ 63
      · exact .inl (wrap_of_lt hlt)
      · exact .inr ⟨hle, by omega⟩

end

/-! One article, on the first page, and on a page that would begin with the row of the
index `2 ^ 64`. -/

section

attribute [local instance] Hardhat.environment

open Machine Hardhat

/-- Whether the search is answered with the matches that its page says. -/
def answersWindow (w : World) (request : SearchRequest) : Option Bool :=
  match (searchForArticles request).eval w.view, w.found request with
  | .ok res, .ok l => some (res.results.map (·.id) = (request.window l).map (·.id))
  | _, _ => none

/-- What is evaluated of the example, as a proposition. -/
theorem exists_of_answersWindow {w : World} {request : SearchRequest} {b : Bool}
    (h : answersWindow w request = some b) : ∃ res l,
      (searchForArticles request).eval w.view = .ok res ∧ w.found request = .ok l ∧
        decide (res.results.map (·.id) = (request.window l).map (·.id)) = b := by
  unfold answersWindow at h
  split at h
  next res l hres hl => exact ⟨res, l, hres, hl, Option.some.inj h⟩
  next => cases h

/-- The first page. -/
theorem results_eq_window_first : ∃ c, Run Any c ∧ ∃ res l,
    (searchForArticles firstPage).eval c.world.view = .ok res ∧
      c.world.found firstPage = .ok l ∧
        res.results.map (·.id) = (firstPage.window l).map (·.id) := by
  obtain ⟨c, hc, hp⟩ := exists_reaches_of_run (fun _ _ => true)
    [register 0, createArticle 1].flatten (.initial World.initial)
    (fun c => (answersWindow c.world firstPage).isSome) (by decide +kernel)
  obtain ⟨b, hb⟩ := Option.isSome_iff_exists.1 hp
  obtain ⟨res, -, hres, -, -⟩ := exists_of_answersWindow hb
  obtain ⟨l, hl, hiff⟩ := results_eq_window_iff hres
  exact ⟨c, hc.any, res, l, hres, hl, hiff.2 (.inl (by decide))⟩

/-- The page of the number `2 ^ 63 + 1`, of which the rows would begin at `2 ^ 64`. -/
def pageBeyond : SearchRequest :=
  { firstPage with
    pageNum := 9223372036854775809
    pageSize := 2
    pageNum_pos := by decide
    pageSize_pos := by decide
    pageSize_le := by decide }

/-- The offset of this page overflows, so that the first rows are on it. -/
theorem results_ne_window_beyond : ∃ c, Run Any c ∧ ∃ res l,
    (searchForArticles pageBeyond).eval c.world.view = .ok res ∧
      c.world.found pageBeyond = .ok l ∧
        res.results.map (·.id) ≠ (pageBeyond.window l).map (·.id) := by
  obtain ⟨c, hc, hp⟩ := exists_reaches_of_run (fun _ _ => true)
    [register 0, createArticle 1].flatten (.initial World.initial)
    (fun c => answersWindow c.world pageBeyond = some false) (by decide +kernel)
  obtain ⟨res, l, hres, hl, hne⟩ := exists_of_answersWindow (of_decide_eq_true hp)
  exact ⟨c, hc.any, res, l, hres, hl, of_decide_eq_false hne⟩

end

end Knowtfolio
