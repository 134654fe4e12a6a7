import Knowtfolio.Data.JsNumber
import Knowtfolio.Errors
import Knowtfolio.Interaction.Component

/-!
# The table of the articles found

`client/src/components/organisms/tables/SearchResultTable` with the form above it
(`SearchForm`): what is searched for stands in the parameters of the address. Every keystroke
in the form changes them, as does a page that is chosen; every change of them starts a
search. Each response sets the articles and the number of pages, whichever search it is for.

The last search is for the parameters as they are. What is shown is the response that has
arrived last (`state_eq`); so the table shows the articles of the parameters exactly if this
is the response to the last search, or one that looks the same (`showsLast_iff`).
-/

namespace Knowtfolio.Client

open Interaction

/-! ## Requests -/

/-- How results are sorted. -/
inductive SortBy
  | createdAt
  | updatedAt
  deriving DecidableEq

/-- `searchQuery`. -/
structure SearchQuery where
  keywords : Option String
  ownedBy : Option String
  sortBy : Option SortBy
  pageNum : Option JsNumber
  pageSize : Option ℕ
  deriving DecidableEq

/-- `SearchResultEntry`. -/
structure SearchResultEntry where
  id : String
  title : String
  ownerAddress : String
  deriving DecidableEq

/-- `searchArticlesResponse`. -/
structure SearchArticlesResponse where
  results : List SearchResultEntry
  totalCount : JsNumber
  deriving DecidableEq

/-- The only call is a search, answered by the data of a response, or by an error. -/
abbrev searchCalls : Signature := ⟨SearchQuery, fun _ => Except Err SearchArticlesResponse⟩

/-- `searchArticles`. -/
def searchArticles (queryParams : SearchQuery) : Program searchCalls Err SearchArticlesResponse :=
  Program.ask (S := searchCalls) queryParams Program.ofExcept

/-! ## The parameters of the address -/

/-- `URLSearchParams`: names with their values, in their order. -/
abbrev SearchParams := List (String × String)

namespace SearchParams

/-- The first value of a name. -/
def get (params : SearchParams) (name : String) : Option String := params.lookup name

/-- The values of a name are taken out. -/
def delete (params : SearchParams) (name : String) : SearchParams :=
  params.filter fun p => p.1 ≠ name

/-- The first value of a name is set, and the others are taken out. A name without a value
    gets one at the end. -/
def set (params : SearchParams) (name value : String) : SearchParams :=
  match params with
  | [] => [(name, value)]
  | p :: params =>
    if p.1 = name then (name, value) :: delete params name else p :: set params name value

end SearchParams

namespace SearchResultTable

/-- `pageSize`. -/
def pageSize : ℕ := 12

/-- `pageNum`. -/
def pageNum (searchParams : SearchParams) : JsNumber :=
  let n := JsNumber.ofText (searchParams.get "page")
  if n.isPositive then n else .finite 1

/-- What is searched for. Keywords that are empty are none. -/
def query (searchParams : SearchParams) : SearchQuery where
  keywords := (searchParams.get "q").filter fun q => q ≠ ""
  ownedBy := none
  sortBy := some .updatedAt
  pageNum := some (pageNum searchParams)
  pageSize := some pageSize

/-- The number of pages of a response. -/
def numOfPage (response : SearchArticlesResponse) : JsNumber :=
  (response.totalCount.div pageSize).ceil

/-! ## The component -/

/-- The state of the table, with the parameters. -/
structure State where
  searchParams : SearchParams
  articles : List SearchResultEntry
  totalNumOfPage : JsNumber
  deriving DecidableEq

/-- What changes the parameters: the keywords of the form, a page that is chosen, or another
    address. -/
inductive Change
  | changeKeywords (value : String)
  | changePage (page : ℕ)
  | navigate (searchParams : SearchParams)

/-- `onChangeKeywords` and `changePage`. -/
def Change.apply (searchParams : SearchParams) : Change → SearchParams
  | changeKeywords value =>
    if value ≠ "" then (searchParams.set "q" value).delete "page" else searchParams.delete "q"
  | changePage page => searchParams.set "page" (toString page)
  | navigate searchParams => searchParams

/-- A change of the address. It may be that this writes the same parameters in another way. -/
structure Event where
  change : Change
  rewritten : Bool

namespace State

/-- Parameters that have changed, or are written in another way, are searched for. -/
def handle (s : State) (e : Event) : Option (State × Option SearchQuery) :=
  let searchParams := e.change.apply s.searchParams
  if searchParams ≠ s.searchParams ∨ e.rewritten = true then
    some ({ s with searchParams := searchParams }, some (query searchParams))
  else some (s, none)

/-- What is set after the response, unless there is an error. -/
def finish (s : State) (_ : SearchQuery) : Except Err SearchArticlesResponse → State
  | .ok response =>
    { s with articles := response.results, totalNumOfPage := numOfPage response }
  | .error _ => s

end State

/-- The component. A search may be answered by any response. -/
abbrev component : Component searchCalls Err where
  State := State
  Event := Event
  Call := SearchQuery
  Result := SearchArticlesResponse
  Choice := Except Err SearchArticlesResponse
  handle := State.handle
  program := searchArticles
  finish := State.finish
  answer _ ch := some ch

/-- The component as it starts at an address, searching for its parameters. -/
def mounted (searchParams : SearchParams) : component.Config :=
  .mount ⟨searchParams, [], .finite 1⟩ (query searchParams)

/-- What a response shows. -/
def shown (response : SearchArticlesResponse) : List SearchResultEntry × JsNumber :=
  (response.results, numOfPage response)

/-- The responses, in the order of their arrival. -/
def arrived (c : component.Config) : List SearchArticlesResponse :=
  Component.written (C := component) (fun _ r => r.toOption) c.ended

/-- The end of the last search, if it has ended. -/
def lastEnd (c : component.Config) : Option component.End :=
  c.ended.find? fun e => e.number + 1 = c.calls.length

/-- The response to the last search, if it has arrived. -/
def lastResponse (c : component.Config) : Option SearchArticlesResponse :=
  (lastEnd c).bind fun e => e.result.toOption

/-- The table shows the response to the last search, if there is one. -/
def ShowsLast (c : component.Config) : Prop :=
  ∀ response ∈ lastResponse c, (c.state.articles, c.state.totalNumOfPage) = shown response

/-- The response that has arrived last is that to the last search, or looks the same. -/
def LastArrivesLast (c : component.Config) : Prop :=
  ∀ response ∈ lastResponse c, (arrived c).getLast?.map shown = some (shown response)

instance (c : component.Config) : Decidable (ShowsLast c) :=
  inferInstanceAs (Decidable (∀ response ∈ lastResponse c,
    (c.state.articles, c.state.totalNumOfPage) = shown response))

instance (c : component.Config) : Decidable (LastArrivesLast c) :=
  inferInstanceAs (Decidable (∀ response ∈ lastResponse c,
    (arrived c).getLast?.map shown = some (shown response)))

/-! ## What is shown -/

section

variable {ok : component.Config → component.Move → Prop} {searchParams : SearchParams}
  {c : component.Config}

/-- Parameters that are set are searched for; otherwise nothing happens. -/
theorem handle_cases {s s' : State} {e : Event} {call : Option SearchQuery}
    (h : s.handle e = some (s', call)) :
    (∃ searchParams, s' = { s with searchParams := searchParams } ∧
      call = some (query searchParams)) ∨ (s' = s ∧ call = none) := by
  rw [State.handle] at h
  split at h
  · cases h
    exact .inl ⟨_, rfl, rfl⟩
  · cases h
    exact .inr ⟨rfl, rfl⟩

/-- The table searches for what is in the address bar. -/
theorem follows_query : component.Follows fun s => query s.searchParams where
  handle := by
    intro s e s' call h
    rcases handle_cases h with ⟨searchParams, rfl, rfl⟩ | ⟨rfl, rfl⟩
    · exact .inl rfl
    · exact .inr ⟨rfl, rfl⟩
  finish := by
    intro s q r
    cases r <;> rfl

/-- The last search is for the parameters as they are. -/
theorem calls_getLast? (h : Component.Reaches ok (mounted searchParams) c) :
    c.calls.getLast? = some (query c.state.searchParams) :=
  h.calls_getLast? follows_query

/-- What the table shows is set as a whole, by the search that ends. -/
theorem overwrites_shown : component.Overwrites (fun s => (s.articles, s.totalNumOfPage))
    fun _ r => r.toOption.map shown where
  handle := by
    intro s e s' call h
    rcases handle_cases h with ⟨searchParams, rfl, -⟩ | ⟨rfl, -⟩
    · rfl
    · rfl
  finish := by
    intro s q r
    cases r <;> rfl

/-- What is shown is the response that has arrived last. -/
theorem state_eq (h : Component.Reaches ok (mounted searchParams) c) :
    (c.state.articles, c.state.totalNumOfPage) =
      ((arrived c).getLast?.map shown).getD ([], .finite 1) := by
  have harrived : Component.written (C := component) (fun _ r => r.toOption.map shown) c.ended =
      (arrived c).map shown := by
    rw [arrived, Component.written, Component.written, List.map_filterMap]
  rw [h.view_eq overwrites_shown, harrived, List.getLast?_map]

/-- When all searches have been answered, there is an answer for the parameters as they are. -/
theorem exists_lastEnd (h : Component.Reaches ok (mounted searchParams) c) (hquiet : c.Quiet) :
    ∃ e ∈ lastEnd c, e.call = query c.state.searchParams := by
  have hlast := calls_getLast? h
  rw [List.getLast?_eq_getElem?] at hlast
  have hlength : 0 < c.calls.length := by
    obtain ⟨hlt, -⟩ := List.getElem?_eq_some_iff.1 hlast
    omega
  obtain ⟨r, hend⟩ := h.exists_end hquiet hlast
  have hfound : (lastEnd c).isSome = true := by
    refine List.find?_isSome.2 ⟨_, hend, ?_⟩
    simp only [decide_eq_true_eq]
    omega
  obtain ⟨e, he⟩ := Option.isSome_iff_exists.1 hfound
  have hnumber : e.number + 1 = c.calls.length := by simpa using List.find?_some he
  have hcall := h.call_of_end (List.mem_of_find?_eq_some he)
  rw [← hnumber, Nat.add_sub_cancel, hcall] at hlast
  exact ⟨e, he, Option.some.inj hlast⟩

/-- The last response is one that has arrived. -/
theorem mem_arrived {response : SearchArticlesResponse} (hlast : response ∈ lastResponse c) :
    response ∈ arrived c := by
  obtain ⟨e, he, hresponse⟩ := Option.bind_eq_some_iff.1 hlast
  exact List.mem_filterMap.2 ⟨e, List.mem_of_find?_eq_some he, hresponse⟩

/-- In every run, the last search is for the parameters as they are. When all searches have
    been answered, so has this one; and the table shows the response to it exactly if that, or
    one that looks the same, has arrived last. -/
theorem showsLast_iff : ∀ searchParams c, Component.Reaches Trace.Any (mounted searchParams) c →
    c.calls.getLast? = some (query c.state.searchParams) ∧
      (c.Quiet → (∃ e ∈ lastEnd c, e.call = query c.state.searchParams) ∧
        (ShowsLast c ↔ LastArrivesLast c)) := by
  intro searchParams c h
  refine ⟨calls_getLast? h, fun hquiet => ⟨exists_lastEnd h hquiet, ?_⟩⟩
  refine forall₂_congr fun response hlast => ?_
  rw [state_eq h]
  cases harrived : (arrived c).getLast? with
  | none =>
    have hmem := mem_arrived hlast
    rw [List.getLast?_eq_none_iff.1 harrived] at hmem
    cases hmem
  | some response' => simp

end

/-! A text of two letters, for both of which there are responses, in either order. -/

section

/-- A response with one article. -/
def found (title : String) : SearchArticlesResponse := ⟨[⟨title, title, ""⟩], .finite 1⟩

/-- The two letters, and the responses to all searches, the last two in an order. -/
def typed (order : List (ℕ × String)) : List component.Move :=
  [.event ⟨.changeKeywords "g", false⟩, .event ⟨.changeKeywords "go", false⟩,
    .resume 0 (.ok (found "all"))] ++ order.map fun r => .resume r.1 (.ok (found r.2))

/-- The keywords are typed and searched for; then the table shows what was found for them. -/
theorem showsLast_typed : ∃ c, Component.Reaches Trace.Any (mounted []) c ∧ c.Quiet ∧
    c.state.articles = (found "go").results ∧ ShowsLast c := by
  obtain ⟨c, hc, hp⟩ := Trace.Reaches.exists_of_run Component.Config.next (fun _ _ => true)
    (typed [(1, "g"), (2, "go")]) (mounted [])
    (fun c => c.Quiet ∧ c.state.articles = (found "go").results ∧ LastArrivesLast c)
    (by decide +kernel)
  obtain ⟨hquiet, hshown, hlast⟩ := of_decide_eq_true hp
  exact ⟨c, hc.any, hquiet, hshown, ((showsLast_iff [] c hc.any).2 hquiet).2.2 hlast⟩

/-- The response for the first letter arrives after the one for both. -/
theorem not_showsLast : ¬ ∀ searchParams c,
    Component.Reaches Trace.Any (mounted searchParams) c → c.Quiet → ShowsLast c := by
  intro h
  obtain ⟨c, hc, hp⟩ := Trace.Reaches.exists_of_run Component.Config.next (fun _ _ => true)
    (typed [(2, "go"), (1, "g")]) (mounted []) (fun c => c.Quiet ∧ ¬ ShowsLast c)
    (by decide +kernel)
  obtain ⟨hquiet, hshown⟩ := of_decide_eq_true hp
  exact hshown (h [] c hc.any hquiet)

end

end SearchResultTable

end Knowtfolio.Client
