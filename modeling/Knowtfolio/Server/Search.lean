import Knowtfolio.Data.Text
import Knowtfolio.Server.Articles

/-!
# The search

`server/services/search.go`. The number and the size of a page are machine
integers, within the bounds that the API checks, and so is the offset that is
computed from them.
-/

namespace Knowtfolio

open Interaction

/-- `SearchRequest`. -/
structure SearchRequest where
  keywords : Option String
  ownedBy : Option String
  sortBy : SortBy
  pageNum : BitVec 64
  pageSize : BitVec 64
  pageNum_pos : 1 ≤ pageNum
  pageSize_pos : 1 ≤ pageSize
  pageSize_le : pageSize ≤ 100

/-- `SearchResultEntry`. -/
structure SearchResultEntry where
  id : String
  title : String
  ownerID : String
  ownerAddress : Option String
  deriving DecidableEq

/-- `Searchresult`. -/
structure SearchResult where
  results : List SearchResultEntry
  totalCount : ℕ
  deriving DecidableEq

namespace SearchRequest

variable (request : SearchRequest)

/-- The number of rows before the page. -/
def offset : ℤ := ((request.pageNum - 1) * request.pageSize).toInt

/-- The number of rows of the page. -/
def limit : ℤ := request.pageSize.toInt

/-- The patterns of the keywords. -/
def likes : List String :=
  match request.keywords with
  | none => []
  | some keywords => (Text.split keywords ' ').map fun keyword => "%" ++ keyword ++ "%"

end SearchRequest

variable [Crypto]

/-- The address of the owner searched for, and the condition of the query. -/
def ownedByCond (user : String) : Prog (Option Address × List String) := do
  match ← findAddressByID user with
  | none => pure (none, [])
  | some addr =>
    let urls ← call (.getArticleIdsOwnedBy addr)
    pure (some addr, urls.map (Text.trimPrefix · "https://knowtfolio.com/nfts/"))

/-- The owner of an article found without a condition on its owner. -/
def resolveOwner (target : Article) : Prog (String × Option Address) := do
  match ← getOwnerAddressOf target with
  | some ownerAddr =>
    let ownerID ← getIDByAddress ownerAddr
    pure (ownerID, some ownerAddr)
  | none =>
    let ownerAddr ← getAddressByID target.originalAuthorID
    pure (target.originalAuthorID, some ownerAddr)

/-- The entry of an article, given the owner if it was searched for. -/
def searchEntry (owner : Option (String × Option Address)) (target : Article) :
    Prog SearchResultEntry := do
  let (ownerID, ownerAddr) ← (owner.map pure).getD (resolveOwner target)
  pure ⟨target.id, target.document.title, ownerID, ownerAddr.map Address.string⟩

/-- The entries of the articles found. -/
def searchEntries (owner : Option (String × Option Address)) :
    List Article → Prog (List SearchResultEntry)
  | [] => pure []
  | target :: targets => do
    let entry ← searchEntry owner target
    let entries ← searchEntries owner targets
    pure (entry :: entries)

/-- The part of `SearchForArticles` after its query has been built. -/
def searchQuery (request : SearchRequest) (query : Query)
    (owner : Option (String × Option Address)) : Prog SearchResult := do
  let targets ← call (.find query request.offset request.limit request.sortBy)
  let totalCount ← call (.count query)
  let entries ← searchEntries owner targets
  pure ⟨entries, totalCount⟩

/-- `SearchForArticles`. -/
def searchForArticles (request : SearchRequest) : Prog SearchResult :=
  match request.ownedBy with
  | some user => do
    let (ownedByAddr, ownedArticleIDs) ← ownedByCond user
    searchQuery request ⟨some (ownedArticleIDs, user), request.likes⟩ (some (user, ownedByAddr))
  | none => searchQuery request ⟨none, request.likes⟩ none

end Knowtfolio
