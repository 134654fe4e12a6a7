import Knowtfolio.Contract.Basic
import Knowtfolio.Data.Keyed
import Knowtfolio.Interaction.Pool
import Knowtfolio.Server.Search

/-!
# The server and its world

What the requests of the server share (`World`): the two tables of MySQL, the
address table, the contract, and the mints that were submitted and are neither
mined nor dropped yet. A call reads or changes it (`World.exec`), or fails, and
then it has had no effect. Besides, mints are mined or dropped, and other
accounts send messages to the contract (`World.act`). All this may happen
between any two calls of a request: `server` is the machine of it.

Assumed are

* of the random generators, that they never give the same value twice, and of
  the one for ids, that it does not fail: its error is not looked at, and an
  article would be stored under the empty id;
* of DynamoDB, that keys are compared as texts, and that calls are atomic;
* of MySQL, that a transaction reads one snapshot, and that what it saves is
  written when it is committed, over what others have committed meanwhile. A row
  deleted meanwhile may be created again by the commit, depending on what its
  transaction sees of the deletion; of a document this is always so.

Of two rows with the same time, MySQL may return either one first, and decides
so anew for each query. So in a run every query gets its rows in some order, a
choice of its own (`Choice.rows`). The evaluation of one request on one state
takes the order from the environment (`MySQL.order`), which is any; statements
about several queries on a state give each an order of its own
(`Server/Partition`).

The chain mines the mints of the server in any order, and drops any of them,
although the nonces of its account put them in one: the runs are more than there
are. Where it is said that something can be reached, they are mined in the order
in which they were submitted.
-/

namespace Knowtfolio

open Interaction

/-- What of MySQL is left open. -/
class MySQL where
  /-- The order of the rows that match a query, where there is one query only. -/
  order : SortBy → List Article → List Article
  order_perm : ∀ sortBy l, (order sortBy l).Perm l
  /-- The operator `LIKE`. -/
  like : String → String → Bool

/-- What the server runs on, and the account that it submits its mints from. -/
class Environment extends Crypto, Chain, Bluemonday, MySQL where
  admin : Address
  admin_ne_zero : admin ≠ 0
  isContract_admin : Chain.isContract admin = false

/-- The primary key of the address table. -/
def Item.primaryKey (i : Item) : KeyValueType × String := (i.type, i.key)

/-- A mint that was submitted. -/
structure Mint where
  recipient : Address
  articleId : String
  deriving DecidableEq

/-- What the requests share. -/
structure World where
  articles : Keyed.Table ArticleRow.id
  documents : Keyed.Table Document.id
  items : Keyed.Table Item.primaryKey
  contract : Contract.State
  /-- The mints that are neither mined nor dropped. -/
  mempool : List Mint
  /-- The nonces that were generated. -/
  nonces : List Hash
  /-- The ids that were generated. -/
  ids : List String

/-- What is open in the answer to a call: whether it fails, the values that the
    random generators, the chain and the marshaller give, the order of the rows
    that match a query, and whether a commit creates again a row that was deleted. -/
inductive Choice
  | ok
  | fail (message : String)
  | nonce (n : Hash)
  | id (s : String)
  | gasPrice (n : ℕ)
  | tx (t : MintTx)
  | json (s : String)
  | rows (l : List Article)
  | recreate (b : Bool)

/-- The calls that only read, and leave nothing open. -/
def Op.isRead : Op → Bool
  | getItem _ _ | getOwnerOfArticle _ | getArticleIdsOwnedBy _ | first _ _ | preload _
  | count _ => true
  | _ => false

/-- The rows of a page: the limit counts if it is positive. -/
def page (offset limit : ℤ) (l : List Article) : List Article :=
  if 0 < limit then (l.drop offset.toNat).take limit.toNat else l.drop offset.toNat

/-- The error of a message to the contract that is reverted. -/
def executionReverted : Err := .external "execution reverted"

/-- What a view of the contract answers. -/
def ofView {α : Type} (v : Option α) : Except Err α :=
  match v with
  | some a => .ok a
  | none => .error executionReverted

/-- The reason why an action of a transaction of DynamoDB is refused, if it is. -/
def TransactWriteItem.reason (items : Keyed.Table Item.primaryKey) :
    TransactWriteItem → CancellationReason
  | put item =>
    match items.get item.primaryKey with
    | some old => .conditionalCheckFailed old.type "The conditional request failed"
    | none => .none
  | delete _ _ => .none

/-- The table after an action of a transaction. -/
def TransactWriteItem.apply (items : Keyed.Table Item.primaryKey) :
    TransactWriteItem → Keyed.Table Item.primaryKey
  | put item => items.put item
  | delete type key => items.erase (type, key)

namespace World

section

variable [MySQL]

/-- The condition of a query. -/
def holds (q : Query) (a : Article) : Bool :=
  (match q.ownedBy with
    | none => true
    | some (ids, user) => ids.contains a.id || (!a.isTokenized && a.originalAuthorID = user)) &&
  q.likes.all (MySQL.like a.document.rawText)

end

/-- The document of an article. -/
def documentOf (w : World) (id : String) : Document :=
  (w.documents.rows.find? fun d => d.ownerID = id).getD .zero

/-- The articles stored, with their documents. -/
def stored (w : World) : List Article := w.articles.rows.map fun r => r.article (w.documentOf r.id)

/-- The articles stored that match a query. -/
def matching [MySQL] (w : World) (q : Query) : List Article := w.stored.filter (holds q)

/-- What the world answers to a call that only reads, if the call does not fail. -/
def view [MySQL] (w : World) : (o : Op) → Except Err o.Val
  | .getItem type key => .ok ((w.items.get (type, key)).map fun i => some i.value)
  | .getOwnerOfArticle articleId => ofView (w.contract.getOwnerOfArticle articleId)
  | .getArticleIdsOwnedBy user => ofView (w.contract.getArticleIdsOwnedBy user)
  | .first id preload =>
    match w.articles.get id with
    | some r => .ok (r.article (if preload then w.documentOf id else .zero))
    | none => .error .recordNotFound
  | .preload ownerID => .ok (w.documentOf ownerID)
  | .find query offset limit sortBy => .ok (page offset limit (MySQL.order sortBy (w.matching query)))
  | .count query => .ok (w.matching query).length
  | _ => .error (.external "not a call that only reads")

/-- The transaction of DynamoDB: it is cancelled if one of its conditions fails. -/
def transact (w : World) (items : List TransactWriteItem) : Except Err Unit × World :=
  if items.all fun i => i.reason w.items = .none then
    (.ok (), { w with items := items.foldl TransactWriteItem.apply w.items })
  else (.error (.transactionCanceled (items.map (·.reason w.items))), w)

/-- The world with a new article and its document, unless there is one of its id. -/
def insert (w : World) (a : Article) : Except Err Unit × World :=
  match w.articles.get a.id with
  | some _ => (.error (.external "Duplicate entry"), w)
  | none =>
    (.ok (), { w with articles := w.articles.put a.row, documents := w.documents.put a.document })

/-- The tables after the commit of an article. A zero document is left out. -/
def write (w : World) (a : Article) (recreate : Bool) : World :=
  { w with
    articles :=
      if (w.articles.get a.id).isSome ∨ recreate then w.articles.put a.row else w.articles
    documents :=
      if a.document = .zero then w.documents
      else w.documents.put { a.document with ownerID := a.id } }

/-- A call on the world. -/
def exec [MySQL] (w : World) (o : Op) (ch : Choice) : Option (Except Err o.Val × World) :=
  match o, ch with
  | .generateString _, .id s =>
    if s ∉ w.ids ∧ IsArticleID s then some (.ok s, { w with ids := s :: w.ids }) else none
  | .generateString _, _ => none
  | _, .fail message => some (.error (.external message), w)
  | .generateNonce, .nonce n =>
    if n ∉ w.nonces then some (.ok n, { w with nonces := n :: w.nonces }) else none
  | .putItem item, .ok =>
    some (.ok ((w.items.get item.primaryKey).map (·.value)), { w with items := w.items.put item })
  | .transactWriteItems items, .ok => some (w.transact items)
  | .suggestGasPrice, .gasPrice n => some (.ok n, w)
  | .mintNFT _ recipient articleId, .tx t =>
    some (.ok t, { w with mempool := w.mempool ++ [⟨recipient, articleId⟩] })
  | .marshal _, .json s => some (.ok s, w)
  | .find query offset limit _, .rows l =>
    if l.Perm (w.matching query) then some (.ok (page offset limit l), w) else none
  | .upload _ _, .ok => some (.ok (), w)
  | .begin, .ok => some (.ok (), w)
  | .create article, .ok => some (w.insert article)
  | .save _, .ok => some (.ok (), w)
  | .commit article, .recreate b => some (.ok (), w.write article b)
  | .delete id, .ok => some (.ok (), { w with articles := w.articles.erase id })
  | o, .ok => if o.isRead then some (w.view o, w) else none
  | _, _ => none

end World

/-- What happens without the server. -/
inductive Action [Chain]
  /-- The mint at the place `k` is mined; when it calls its recipient back, that
      does `inner`, and accepts or not. -/
  | mine (k : ℕ) (inner : List Contract.Reentry) (accepts : Bool)
  /-- The mint at the place `k` is dropped. -/
  | drop (k : ℕ)
  /-- Another account sends a message to the contract. -/
  | message (m : Contract.Message)

variable [Environment]

/-- The message of a mint. -/
def Mint.message (p : Mint) (inner : List Contract.Reentry) (accepts : Bool) : Contract.Message where
  sender := Environment.admin
  sender_ne_zero := Environment.admin_ne_zero
  fn := .mintNFT p.recipient p.articleId
  inner := inner
  accepts := accepts

namespace World

/-- The world after an action. -/
def act (w : World) : Action → Option World
  | .mine k inner accepts =>
    w.mempool[k]?.map fun p => { w with
      contract := (p.message inner accepts).apply w.contract
      mempool := w.mempool.eraseIdx k }
  | .drop k => w.mempool[k]?.map fun _ => { w with mempool := w.mempool.eraseIdx k }
  | .message m =>
    if m.sender = Environment.admin then none
    else some { w with contract := m.apply w.contract }

/-- The contract that the account of the server has initialised. -/
def initialContract : Contract.State :=
  { Contract.State.deployed with initialized := true, owner := Environment.admin }

/-- Nothing is stored, and there are no tokens. -/
def initial : World where
  articles := .empty
  documents := .empty
  items := .empty
  contract := initialContract
  mempool := []
  nonces := []
  ids := []

end World

/-- What clients send, the user of a token being known already. -/
inductive Request
  | create (userID title content : String)
  | read (id : ArticleID)
  | update (userID : String) (id : ArticleID) (title content : Option String)
  | delete (userID : String) (id : ArticleID)
  | createForArticle (articleID : ArticleID) (address signature : String)
  | search (request : SearchRequest)
  | putUserWallet (userID walletAddress : String)

/-- The requests to tokenize an article. -/
def Request.isCreateForArticle : Request → Bool
  | .createForArticle _ _ _ => true
  | _ => false

/-- What clients get back. -/
inductive Reply
  | article (r : ArticleResult)
  | nft (r : CreateNftForArticleResult)
  | search (r : SearchResult)
  | done
  deriving DecidableEq

/-- The program serving a request. -/
def serve : Request → Prog Reply
  | .create userID title content => do pure (.article (← create userID title content))
  | .read id => do pure (.article (← read id))
  | .update userID id title content => do pure (.article (← update userID id title content))
  | .delete userID id => do pure (.article (← delete userID id))
  | .createForArticle articleID address signature => do
    pure (.nft (← createForArticle articleID address signature))
  | .search request => do pure (.search (← searchForArticles request))
  | .putUserWallet userID walletAddress => do
    putUserWallet userID walletAddress
    pure .done

/-- The server. -/
abbrev server : Machine calls Fault where
  World := World
  Request := Request
  Reply := Reply
  Choice := Choice
  Action := Action
  program := serve
  exec := World.exec
  act := World.act

end Knowtfolio
