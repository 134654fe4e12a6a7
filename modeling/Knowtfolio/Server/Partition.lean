import Knowtfolio.Data.Windows
import Knowtfolio.Server.Transfers

/-!
# The pages of a search

All pages of a search, each asked for by a request of its own, while the tables stay as
they are. The database sorts the matches by a time, and may return those with the same
time in any order, a new one for each query (`Arrangement`). The pages then are a
partition of the matches, whatever the orders, exactly if no two matches with the same
time are on different sides of the end of a page, and the last page has an offset that
is a machine integer (`pagesPartition_iff`).

That untied matches are enough is a fact about windows of a sorted list, which are the same in
every order that sorts it. That they are needed is shown by arrangements that put one of two tied
matches on both pages, or on none (`not_tie_of_pagesPartition`); and that offsets must not
overflow, by the page that gets the first rows again (`offset_lt_of_pagesPartition`).
-/

namespace Knowtfolio

open Interaction Machine

/-- The times at which the documents of the articles were created and updated. -/
abbrev Times := SortBy → Article → ℕ

/-- The orders in which the database may return rows. -/
structure Arrangement (times : Times) where
  order : SortBy → List Article → List Article
  order_perm : ∀ sortBy l, (order sortBy l).Perm l
  sorted : ∀ sortBy l, Windows.Sorted (times sortBy) (order sortBy l)

namespace Arrangement

variable {times : Times}

/-- A list sorted by the times. -/
def sort (times : Times) (sortBy : SortBy) (l : List Article) : List Article :=
  l.insertionSort fun a b => times sortBy a ≤ times sortBy b

/-- Sorting neither loses nor adds an article. -/
theorem sort_perm (sortBy : SortBy) (l : List Article) : (sort times sortBy l).Perm l :=
  List.perm_insertionSort _ _

/-- The articles come out in the order of their times. -/
theorem sorted_sort (sortBy : SortBy) (l : List Article) :
    Windows.Sorted (times sortBy) (sort times sortBy l) := by
  have : Std.Total fun a b : Article => times sortBy a ≤ times sortBy b :=
    ⟨fun _ _ => le_total _ _⟩
  have : IsTrans Article fun a b => times sortBy a ≤ times sortBy b := ⟨fun _ _ _ => le_trans⟩
  exact List.pairwise_insertionSort _ _

/-- The arrangement that returns the rows `l` of a query in the order `l'`. -/
def of (sortBy : SortBy) {l l' : List Article} (hp : l'.Perm l)
    (hs : Windows.Sorted (times sortBy) l') : Arrangement times where
  order sortBy' m := if sortBy' = sortBy ∧ m = l then l' else sort times sortBy' m
  order_perm sortBy' m := by
    split_ifs with h
    · exact h.2 ▸ hp
    · exact sort_perm sortBy' m
  sorted sortBy' m := by
    split_ifs with h
    · exact h.1 ▸ hs
    · exact sorted_sort sortBy' m

/-- An arrangement that gives a list the order chosen for it. -/
theorem order_of (sortBy : SortBy) {l l' : List Article} (hp : l'.Perm l)
    (hs : Windows.Sorted (times sortBy) l') : (of sortBy hp hs).order sortBy l = l' :=
  if_pos ⟨rfl, rfl⟩

/-- Rows with the same time are returned in the order in which they are stored. -/
def asStored : Arrangement times where
  order := sort times
  order_perm := sort_perm
  sorted := sorted_sort

/-- The environment whose database returns rows in these orders. -/
@[reducible] def environment [E : Environment] (o : Arrangement times) : Environment :=
  { E with
    order := o.order
    order_perm := o.order_perm }

end Arrangement

section

variable [Environment] {times : Times} {w : World} {request : SearchRequest} {l : List Article}

/-- What a search answers, if the database returns rows in these orders. -/
def answer (o : Arrangement times) (w : World) (request : SearchRequest) :
    Except Fault SearchResult :=
  (searchForArticles request).eval (@World.view o.environment.toMySQL w)

/-- The matches of a search, in no order. -/
def World.matches (w : World) (request : SearchRequest) : Except Fault (List Article) := do
  let (query, _) ← w.query request
  pure (w.matching query)

/-- The number of pages of `n` matches. -/
def SearchRequest.pageCount (request : SearchRequest) (n : ℕ) : ℕ :=
  (n + (request.pageSize.toNat - 1)) / request.pageSize.toNat

/-- Whatever the orders in which the database returns the rows to the requests for the
    pages, their results together are the matches, each of them once, and all report
    the number of the matches as the total. -/
def PagesPartition (times : Times) (w : World) (request : SearchRequest) : Prop :=
  ∀ (o : ℕ → Arrangement times) (results : ℕ → SearchResult) (l : List Article),
    w.matches request = .ok l →
    (∀ q < request.pageCount l.length, ∀ h,
      answer (o q) w (request.at (.ofNat 64 (q + 1)) h) = .ok (results q)) →
    ((List.range (request.pageCount l.length)).flatMap fun q =>
      (results q).results.map (·.id)).Perm (l.map (·.id)) ∧
      ∀ q < request.pageCount l.length, (results q).totalCount = l.length

/-- The requests for pages are answered, whatever the order of the rows. -/
def Answers (times : Times) (w : World) (request : SearchRequest) : Prop :=
  ∀ (o : Arrangement times) (pageNum : BitVec 64) (h : 1 ≤ pageNum),
    ∃ res, answer o w (request.at pageNum h) = .ok res

/-- The offset of the last page is a machine integer, and no page ends between two
    matches with the same time. -/
def Untied (times : Times) (w : World) (request : SearchRequest) : Prop :=
  ∀ l, w.matches request = .ok l →
    (request.pageCount l.length - 1) * request.pageSize.toNat < 2 ^ 63 ∧
      ∀ q < request.pageCount l.length,
        ¬ Windows.Tie (Windows.keys (times request.sortBy) l) (q * request.pageSize.toNat)

/-! ## The rows of a page -/

/-- No article matches twice, as the ids are keys. -/
theorem World.nodup_matches (h : w.matches request = .ok l) : (l.map (·.id)).Nodup := by
  rw [World.matches] at h
  cases hquery : w.query request with
  | error e => simp [hquery] at h
  | ok q =>
    rw [hquery, Program.ok_bind] at h
    cases h
    exact w.nodup_matching q.1

/-- The tokens that a search by owner asks for are those of the address registered, if there is one.
    -/
theorem eval_ownedByCond_eq {user : String} :
    (ownedByCond user).eval w.view =
      match (w.lookup .userIDToWalletAddress user).map hexToAddress with
      | none => .ok (none, [])
      | some addr => ((ofView (w.contract.getArticleIdsOwnedBy addr)).mapError .err).map fun urls =>
          (some addr, urls.map (Text.trimPrefix · "https://knowtfolio.com/nfts/")) := by
  rw [ownedByCond, Program.eval_bind, eval_findAddressByID, Program.ok_bind]
  cases (w.lookup .userIDToWalletAddress user).map hexToAddress with
  | none => rfl
  | some addr =>
    rw [Program.eval_bind, eval_call]
    cases ofView (w.contract.getArticleIdsOwnedBy addr) <;> rfl

/-- The query does not depend on the order of rows. -/
theorem query_environment (o : Arrangement times) :
    @World.query o.environment w request = w.query request := by
  unfold World.query
  cases request.ownedBy with
  | none => rfl
  | some user =>
    dsimp only
    rw [eval_ownedByCond_eq, @eval_ownedByCond_eq o.environment w user]

/-- What a page has, in whatever order the rows are returned. -/
theorem results_of_answer {o : Arrangement times} {res : SearchResult}
    (hl : w.matches request = .ok l) (h : answer o w request = .ok res) :
    res.totalCount = l.length ∧ res.results.map (·.id) =
      (page request.offset request.limit (o.order request.sortBy l)).map (·.id) := by
  obtain ⟨l', hfound, htotal, hresults⟩ := @results_of_eval o.environment w request res h
  unfold World.found at hfound
  unfold World.matches at hl
  rw [query_environment] at hfound
  cases hquery : w.query request with
  | error e => simp [hquery] at hl
  | ok q =>
    rw [hquery, Program.ok_bind] at hl hfound
    cases hl
    cases hfound
    exact ⟨htotal.trans (o.order_perm _ _).length_eq, hresults⟩

/-- What the page of the number `q + 1` has. -/
theorem results_of_answer_at {o : Arrangement times} {res : SearchResult} {q : ℕ}
    (hl : w.matches request = .ok l) (hq : q + 1 < 2 ^ 64) {hone : 1 ≤ BitVec.ofNat 64 (q + 1)}
    (h : answer o w (request.at (.ofNat 64 (q + 1)) hone) = .ok res) :
    res.totalCount = l.length ∧ res.results.map (·.id) =
      (((o.order request.sortBy l).drop (wrap (q * request.pageSize.toNat))).take
        request.pageSize.toNat).map (·.id) := by
  have hl' : w.matches (request.at (.ofNat 64 (q + 1)) hone) = .ok l := hl
  obtain ⟨htotal, hids⟩ := results_of_answer hl' h
  rw [SearchRequest.page_eq, SearchRequest.first_at _ hq] at hids
  exact ⟨htotal, hids⟩

omit [Environment] in
/-- The pages are enough for all matches. -/
theorem SearchRequest.le_pageCount_mul (request : SearchRequest) (n : ℕ) :
    n ≤ request.pageCount n * request.pageSize.toNat := by
  obtain ⟨-, hpos⟩ := request.limit_eq
  have hdiv := Nat.div_add_mod (n + (request.pageSize.toNat - 1)) request.pageSize.toNat
  have hmod := Nat.mod_lt (n + (request.pageSize.toNat - 1)) hpos
  rw [pageCount, Nat.mul_comm]
  omega

/-! ## The partition -/

/-- Where no page ends between two matches of the same time, every arrangement gives the same pages.
    -/
theorem pagesPartition_of_untied (h : Untied times w request) :
    PagesPartition times w request := by
  intro o results l hl hresults
  obtain ⟨hlast, htie⟩ := h l hl
  obtain ⟨-, hpos⟩ := request.limit_eq
  have hlength := request.le_pageCount_mul l.length
  have hpage : ∀ q < request.pageCount l.length, (results q).totalCount = l.length ∧
      (results q).results.map (·.id) = (Windows.window request.pageSize.toNat q
        ((o q).order request.sortBy l)).map (·.id) := by
    intro q hq
    have hoffset : q * request.pageSize.toNat < 2 ^ 63 :=
      (Nat.mul_le_mul_right _ (Nat.le_sub_one_of_lt hq)).trans_lt hlast
    have hnum : q + 1 < 2 ^ 64 := by
      have := Nat.le_mul_of_pos_right q hpos
      omega
    obtain ⟨htotal, hids⟩ := results_of_answer_at hl hnum (hresults q hq (one_le_ofNat hnum))
    rw [wrap_of_lt hoffset] at hids
    exact ⟨htotal, hids⟩
  refine ⟨?_, fun q hq => (hpage q hq).1⟩
  -- The end of the last page is the end of the list, or after it.
  have hcut : ∀ q ≤ request.pageCount l.length, ¬ Windows.Tie
      (Windows.keys (times request.sortBy) l) (q * request.pageSize.toNat) := by
    intro q hq
    rcases hq.lt_or_eq with hq | rfl
    · exact htie q hq
    · rintro ⟨-, hlt, -⟩
      rw [Windows.length_keys] at hlt
      omega
  have hperm := Windows.perm_flatMap_window (fun q => (o q).order_perm request.sortBy l)
    (fun q => (o q).sorted request.sortBy l) hcut (Arrangement.sort_perm request.sortBy l)
    (Arrangement.sorted_sort request.sortBy l)
  rw [List.take_of_length_le ((Arrangement.sort_perm _ l).length_eq.trans_le hlength)] at hperm
  calc _ = ((List.range (request.pageCount l.length)).flatMap fun q => Windows.window
        request.pageSize.toNat q ((o q).order request.sortBy l)).map (·.id) := by
        rw [List.map_flatMap]
        exact List.flatMap_congr fun q hq => (hpage q (List.mem_range.1 hq)).2
    _ |>.Perm (l.map (·.id)) := (hperm.trans (Arrangement.sort_perm _ l)).map _

omit [Environment] in
/-- Every page has a match on it. -/
theorem SearchRequest.mul_lt_of_lt_pageCount {n q : ℕ} (h : q < request.pageCount n) :
    q * request.pageSize.toNat < n := by
  obtain ⟨-, hpos⟩ := request.limit_eq
  have hle := (Nat.le_div_iff_mul_le hpos).1 (Nat.succ_le_of_lt h)
  rw [Nat.succ_mul] at hle
  omega

/-- What the requests for all pages are answered. -/
theorem Answers.exists_results (hans : Answers times w request) (o : ℕ → Arrangement times) :
    ∃ results : ℕ → SearchResult, ∀ q h,
      answer (o q) w (request.at (.ofNat 64 (q + 1)) h) = .ok (results q) := by
  have hres : ∀ q, ∃ res, ∀ h, answer (o q) w (request.at (.ofNat 64 (q + 1)) h) = .ok res := by
    intro q
    by_cases h : 1 ≤ BitVec.ofNat 64 (q + 1)
    · obtain ⟨res, hres⟩ := hans (o q) _ h
      exact ⟨res, fun _ => hres⟩
    · exact ⟨⟨[], 0⟩, fun h' => absurd h' h⟩
  choose results hresults using hres
  exact ⟨results, hresults⟩

/-- If the pages are a partition, no match is on two of them. -/
theorem not_mem_two_pages (hans : Answers times w request) (hp : PagesPartition times w request)
    (hl : w.matches request = .ok l) (o : ℕ → Arrangement times) {i j : ℕ} (hij : i < j)
    (hj : j < request.pageCount l.length) (hnum : j + 1 < 2 ^ 64) {a : Article}
    (hi : a ∈ (((o i).order request.sortBy l).drop (wrap (i * request.pageSize.toNat))).take
      request.pageSize.toNat) :
    a ∉ (((o j).order request.sortBy l).drop (wrap (j * request.pageSize.toNat))).take
      request.pageSize.toNat := by
  obtain ⟨results, hresults⟩ := hans.exists_results o
  obtain ⟨hperm, -⟩ := hp o results l hl fun q _ h => hresults q h
  have hfound : (l.map (·.id)).Nodup := World.nodup_matches hl
  have hids : ∀ q, q + 1 < 2 ^ 64 → (results q).results.map (·.id) =
      (((o q).order request.sortBy l).drop (wrap (q * request.pageSize.toNat))
        |>.take request.pageSize.toNat).map (·.id) := fun q hq =>
    (results_of_answer_at hl hq (hresults q (one_le_ofNat hq))).2
  intro hmem
  refine Windows.not_mem_of_nodup_flatMap (hperm.nodup_iff.2 hfound) hij hj (a := a.id) ?_ ?_
  · rw [hids i (by omega)]
    exact List.mem_map_of_mem hi
  · rw [hids j hnum]
    exact List.mem_map_of_mem hmem

omit [Environment] in
/-- The first page of which the offset is no machine integer. -/
theorem exists_first_overflow {s p : ℕ} (hpos : 0 < s) (hs : s ≤ 100)
    (hp : 2 ^ 63 ≤ (p - 1) * s) :
    ∃ q, 0 < q ∧ q < p ∧ q + 1 < 2 ^ 64 ∧ 2 ^ 63 ≤ q * s ∧ q * s < 2 ^ 64 := by
  obtain ⟨d, hd⟩ : ∃ d, (2 ^ 63 - 1) / s = d := ⟨_, rfl⟩
  have hdiv := Nat.div_add_mod (2 ^ 63 - 1) s
  have hmod := Nat.mod_lt (2 ^ 63 - 1) hpos
  have hself := Nat.div_le_self (2 ^ 63 - 1) s
  rw [hd] at hdiv hself
  have hmul : (d + 1) * s = s * d + s := by rw [Nat.succ_mul, Nat.mul_comm]
  refine ⟨d + 1, Nat.succ_pos _, ?_, by omega, by omega, by omega⟩
  by_contra hlt
  have hle : (p - 1) * s ≤ d * s := Nat.mul_le_mul_right s (by omega)
  rw [Nat.mul_comm d] at hle
  omega

omit [Environment] in
/-- An offset that overflows is negative, and is left out of the query. -/
theorem wrap_of_overflow {m : ℕ} (hle : 2 ^ 63 ≤ m) (hlt : m < 2 ^ 64) : wrap m = 0 := by
  rw [wrap, Nat.mod_eq_of_lt hlt, if_neg (by omega)]

/-- The page of which the offset wraps begins with the first match, as does the first page. -/
theorem offset_lt_of_pagesPartition (hans : Answers times w request)
    (hp : PagesPartition times w request) (hl : w.matches request = .ok l) :
    (request.pageCount l.length - 1) * request.pageSize.toNat < 2 ^ 63 := by
  obtain ⟨-, hpos⟩ := request.limit_eq
  by_contra hge
  obtain ⟨q, hq, hlt, hnum, hle, hlt'⟩ := exists_first_overflow hpos
    (by simpa using BitVec.le_def.1 request.pageSize_le) (Nat.not_lt.1 hge)
  let o : Arrangement times := .of request.sortBy (.refl _) (Arrangement.sorted_sort _ l)
  have hlen : 0 < (o.order request.sortBy l).length := by
    rw [(o.order_perm _ l).length_eq]
    exact (Nat.zero_le _).trans_lt (request.mul_lt_of_lt_pageCount hlt)
  have hfirst : ∀ m, wrap m = 0 → (o.order request.sortBy l)[0] ∈
      ((o.order request.sortBy l).drop (wrap m)).take request.pageSize.toNat := by
    intro m hm
    rw [hm, List.drop_zero]
    exact List.mem_take_iff_getElem.2 ⟨0, by omega, rfl⟩
  exact not_mem_two_pages hans hp hl (fun _ => o) hq hlt hnum
    (hfirst _ (by rw [Nat.zero_mul]; rfl)) (hfirst _ (wrap_of_overflow hle hlt'))

/-- Where a page ends at a tie, the next one may begin with the match that it ended with. -/
theorem not_tie_of_pagesPartition (hans : Answers times w request)
    (hp : PagesPartition times w request) (hl : w.matches request = .ok l) {q : ℕ}
    (hq : q < request.pageCount l.length) :
    ¬ Windows.Tie (Windows.keys (times request.sortBy) l) (q * request.pageSize.toNat) := by
  intro htie
  obtain ⟨-, hpos⟩ := request.limit_eq
  have hlast := offset_lt_of_pagesPartition hans hp hl
  have hoffset : q * request.pageSize.toNat < 2 ^ 63 :=
    (Nat.mul_le_mul_right _ (Nat.le_sub_one_of_lt hq)).trans_lt hlast
  obtain ⟨i, rfl⟩ : ∃ i, q = i + 1 :=
    Nat.exists_eq_succ_of_ne_zero (Nat.pos_of_mul_pos_right htie.1).ne'
  have hnum : i + 1 + 1 < 2 ^ 64 := by
    have := Nat.le_mul_of_pos_right (i + 1) hpos
    omega
  have hmul : (i + 1) * request.pageSize.toNat =
      i * request.pageSize.toNat + request.pageSize.toNat := Nat.succ_mul _ _
  have hsort : (Arrangement.sort times request.sortBy l).Perm l :=
    Arrangement.sort_perm request.sortBy l
  have hsorted : Windows.Sorted (times request.sortBy) (Arrangement.sort times request.sortBy l) :=
    Arrangement.sorted_sort request.sortBy l
  rw [← Windows.keys_congr hsort] at htie
  obtain ⟨l', a, hperm, hsorted', hlast', hfirst⟩ := Windows.exists_of_tie hsorted htie
  -- All pages have the sorted order but the one after the tie.
  let o : ℕ → Arrangement times := fun j => if j = i + 1 then
    .of request.sortBy (hperm.trans hsort) hsorted' else .of request.sortBy hsort hsorted
  have ho : (o i).order request.sortBy l = Arrangement.sort times request.sortBy l := by
    rw [show o i = _ from if_neg (Nat.lt_succ_self i).ne]
    exact Arrangement.order_of _ hsort hsorted
  have ho' : (o (i + 1)).order request.sortBy l = l' := by
    rw [show o (i + 1) = _ from if_pos rfl]
    exact Arrangement.order_of _ (hperm.trans hsort) hsorted'
  refine not_mem_two_pages hans hp hl o (Nat.lt_succ_self i) hq hnum (a := a) ?_ ?_
  · rw [ho, wrap_of_lt (by omega)]
    exact Windows.mem_window hlast' (by omega) (by omega)
  · rw [ho', wrap_of_lt hoffset]
    exact Windows.mem_window hfirst le_rfl (Nat.mul_lt_mul_of_pos_right (Nat.lt_succ_self _) hpos)

/-- The pages are a partition of the matches exactly if no page ends between two matches
    with the same time, and the offsets are machine integers. -/
theorem pagesPartition_iff :
    (Untied times w request → PagesPartition times w request) ∧
      (Answers times w request → PagesPartition times w request → Untied times w request) :=
  ⟨pagesPartition_of_untied, fun hans hp _ hl =>
    ⟨offset_lt_of_pagesPartition hans hp hl, fun _ => not_tie_of_pagesPartition hans hp hl⟩⟩

/-- A search without an owner is answered, if the owners of all articles are known. -/
theorem answers_of_unowned (howned : request.ownedBy = none)
    (h : ∀ r ∈ w.articles.rows, (∃ owner, w.owner r = some owner) ∧ (r.isTokenized = false →
      (w.lookup .userIDToWalletAddress r.originalAuthorID).isSome = true)) :
    Answers times w request := by
  intro o pageNum hpos
  refine (@exists_eval_searchForArticles o.environment w (request.at pageNum hpos) howned).2 ?_
  intro target htarget
  obtain ⟨r, hr, rfl⟩ := @World.mem_selected o.environment w _ _ _ htarget
  obtain ⟨⟨owner, howner⟩, hwallet⟩ := h r hr
  exact ⟨owner, (@eval_resolveOwner o.environment w r _ owner).2 ⟨howner, hwallet⟩⟩

end

/-! Two articles, one on each page, created one after the other or at the same time. -/

section

attribute [local instance] Hardhat.environment

open Hardhat

/-- The search for all articles, one on each page. -/
def oneEach : SearchRequest :=
  { firstPage with
    pageSize := 1
    pageSize_pos := firstPage.pageNum_pos
    pageSize_le := by decide }

/-- The user `author` creates two articles. -/
def createArticles : List server.Move :=
  [register 0, createArticle 1, .arrive (.create "author" "another title" "content") ::
    steps 2 [.id "article_002", .id "document_02", .ok]].flatten

/-- The first article is older. -/
def ages : Times := fun _ a => if a.id = articleID then 0 else 1

/-- Whether the search has `n` matches, and no page ends at a tie. -/
def isUntied (times : Times) (w : World) (request : SearchRequest) (n : ℕ) : Bool :=
  match w.matches request with
  | .ok l => l.length = n ∧ (request.pageCount l.length - 1) * request.pageSize.toNat < 2 ^ 63 ∧
      ∀ q < request.pageCount l.length,
        ¬ Windows.Tie (Windows.keys (times request.sortBy) l) (q * request.pageSize.toNat)
  | .error _ => false

/-- That no page ends at a tie can be evaluated. -/
theorem exists_of_isUntied {times : Times} {w : World} {request : SearchRequest} {n : ℕ}
    (h : isUntied times w request n = true) :
    ∃ l, w.matches request = .ok l ∧ l.length = n ∧ Untied times w request := by
  unfold isUntied at h
  split at h
  next l hl =>
    obtain ⟨hlength, huntied⟩ := of_decide_eq_true h
    refine ⟨l, hl, hlength, fun l' hl' => ?_⟩
    cases hl.symm.trans hl'
    exact huntied
  next => cases h

/-- Two articles of different times, on pages of one each. -/
theorem pagesPartition_ages : ∃ c, Run Any c ∧ Answers ages c.world oneEach ∧
    (∃ l, c.world.matches oneEach = .ok l ∧ l.length = 2) ∧
    PagesPartition ages c.world oneEach ∧ Untied ages c.world oneEach := by
  obtain ⟨c, hc, hp⟩ := exists_reaches_of_run (fun _ _ => true) createArticles
    (.initial World.initial)
    (fun c => isUntied ages c.world oneEach 2 = true ∧
      ∀ r ∈ c.world.articles.rows, (c.world.owner r).isSome = true ∧ (r.isTokenized = false →
        (c.world.lookup .userIDToWalletAddress r.originalAuthorID).isSome = true))
    (by decide +kernel)
  obtain ⟨huntied, hrows⟩ := of_decide_eq_true hp
  have hans : Answers ages c.world oneEach := answers_of_unowned rfl fun r hr =>
    ⟨Option.isSome_iff_exists.1 (hrows r hr).1, (hrows r hr).2⟩
  obtain ⟨l, hl, hlength, huntied⟩ := exists_of_isUntied huntied
  have hpages : PagesPartition ages c.world oneEach := pagesPartition_iff.1 huntied
  exact ⟨c, hc.any, hans, ⟨l, hl, hlength⟩, hpages, pagesPartition_iff.2 hans hpages⟩

/-- All articles were created at the same time. -/
def atOnce : Times := fun _ _ => 0

/-- The database returns the rows as they are stored. -/
def inOrder : Arrangement atOnce where
  order _ l := l
  order_perm _ l := .refl l
  sorted _ _ := List.pairwise_of_forall fun _ _ => le_rfl

/-- The database returns the rows from the last one to the first. -/
def reversed : Arrangement atOnce where
  order _ l := l.reverse
  order_perm _ l := List.reverse_perm l
  sorted _ _ := List.pairwise_of_forall fun _ _ => le_rfl

/-- Whether the first page, in order, and the second one, reversed, are of the same
    match of two. -/
def repeatsMatch (w : World) : Bool :=
  match w.matches oneEach, answer inOrder w (oneEach.at (.ofNat 64 (0 + 1)) (by decide)),
    answer reversed w (oneEach.at (.ofNat 64 (1 + 1)) (by decide)) with
  | .ok l, .ok res, .ok res' => oneEach.pageCount l.length = 2 ∧ res.results ≠ [] ∧
      res.results.map (·.id) = res'.results.map (·.id)
  | _, _, _ => false

/-- Two articles of the same time: both pages may have the same one. -/
theorem not_pagesPartition_atOnce : ∃ c, Run Any c ∧ Answers atOnce c.world oneEach ∧
    ¬ PagesPartition atOnce c.world oneEach := by
  obtain ⟨c, hc, hp⟩ := exists_reaches_of_run (fun _ _ => true) createArticles
    (.initial World.initial)
    (fun c => repeatsMatch c.world = true ∧
      ∀ r ∈ c.world.articles.rows, (c.world.owner r).isSome = true ∧ (r.isTokenized = false →
        (c.world.lookup .userIDToWalletAddress r.originalAuthorID).isSome = true))
    (by decide +kernel)
  obtain ⟨hrepeats, hrows⟩ := of_decide_eq_true hp
  refine ⟨c, hc.any, answers_of_unowned rfl fun r hr =>
    ⟨Option.isSome_iff_exists.1 (hrows r hr).1, (hrows r hr).2⟩, fun hpages => ?_⟩
  unfold repeatsMatch at hrepeats
  split at hrepeats
  next l res res' hl hres hres' =>
    obtain ⟨hcount, hne, hsame⟩ := of_decide_eq_true hrepeats
    obtain ⟨hperm, -⟩ := hpages (fun q => if q = 0 then inOrder else reversed)
      (fun q => if q = 0 then res else res') l hl (by
        rw [hcount]
        rintro (_ | _ | q) hq h
        · exact hres
        · exact hres'
        · omega)
    -- Both pages are allowed to have the same entry, while the matches have it once.
    have hnodup := hperm.nodup_iff.2 (World.nodup_matches hl)
    rw [hcount] at hnodup
    obtain ⟨entry, hentry⟩ := List.exists_mem_of_ne_nil _ hne
    have hmem : entry.id ∈ res.results.map (·.id) := List.mem_map_of_mem hentry
    exact Windows.not_mem_of_nodup_flatMap hnodup Nat.zero_lt_one Nat.one_lt_two hmem (hsame ▸ hmem)
  next => cases hrepeats

end

end Knowtfolio
