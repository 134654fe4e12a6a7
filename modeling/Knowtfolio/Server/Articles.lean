import Knowtfolio.Server.AddressTable

/-!
# The services for articles and their tokens

`server/services/articles.go` and `server/services/nfts.go`, with
`GetOwnerAddressOf` of the contract client. The user of a request is the one of
its token. The id of a request is the id of an article (`ArticleID`), as the
API requires before a service is called.
-/

namespace Knowtfolio

open Interaction

/-- A character of an id. -/
def isIDChar (c : Char) : Bool := c.isAlphanum || c = '_' || c = '-'

/-- The text is an article's id: eleven characters of `[A-Za-z0-9_-]`. -/
def IsArticleID (s : String) : Prop := s.length = 11 ∧ s.toList.all isIDChar = true

instance (s : String) : Decidable (IsArticleID s) := inferInstanceAs (Decidable (_ ∧ _))

/-- The id of an article. -/
abbrev ArticleID := {s : String // IsArticleID s}

/-- `ArticleResult`. -/
structure ArticleResult where
  id : String
  title : String
  content : String
  ownerID : String
  ownerAddress : Option String
  deriving DecidableEq

/-- `CreateNftForArticleResult`. -/
structure CreateNftForArticleResult where
  hash : String
  cost : ℤ
  deriving DecidableEq

/-- `config.SignData["CreateNFT"]`. -/
def createNFTSignData : String := "Mint NFT"

/-- The error that a record was not found, as the one of the API. -/
def recordNotFoundAs (f : Err → Err) (e : Err) : Err := if e = .recordNotFound then f e else e

/-- An id of `nanoid`, whose error is not looked at. -/
def generateID : Prog String :=
  Program.ask (S := calls) (.generateString 11) fun
    | .ok id => pure id
    | .error _ => pure ""

section

variable [Crypto]

/-- `GetOwnerAddressOf`. -/
def getOwnerAddressOf (target : Article) : Prog (Option Address) :=
  if target.isTokenized then do
    let owner ← call (.getOwnerOfArticle target.id)
    if owner.string = (0 : Address).string then
      .throw (.err (.text ("couldn't find nft for article " ++ target.id ++
        " although `isTokenized` is set to true")))
    else pure (some owner)
  else pure none

/-- The error of `AuthorizeEdit`. -/
def noEditRight (editorID articleID : String) : Err :=
  .unauthorized (.text ("User " ++ editorID ++
    " does not have the right to execute the specified operation on article " ++ articleID ++ "."))

/-- Whether `AuthorizeEdit` lets the user edit the article. -/
def isAuthorized (editorID : String) (target : Article) (requireNFT : Bool) : Prog Bool :=
  if target.isTokenized then do
    let ownerAddr ← call (.getOwnerOfArticle target.id)
    let ownerID ← getIDByAddress ownerAddr
    pure (editorID = ownerID)
  else if !requireNFT then pure (editorID = target.originalAuthorID)
  else pure false

/-- `AuthorizeEdit`. -/
def authorizeEdit (editorID : String) (target : Article) (requireNFT : Bool) : Prog Unit := do
  if ← isAuthorized editorID target requireNFT then pure ()
  else .throw (.err (noEditRight editorID target.id))

/-- `GetAddressByID`, with nil where there is no item. -/
def findAddressByID (userID : String) : Prog (Option Address) :=
  Program.handle (fun
      | .err e => if e.isItemNotFound then pure none else .throw (.err e)
      | .panic m => .throw (.panic m))
    (do pure (some (← getAddressByID userID)))

end

section

variable [Bluemonday]

/-- `articleToResult`. -/
def articleToResult (src : Article) : ArticleResult where
  id := src.id
  title := src.document.title
  content := src.document.sanitizedContent
  ownerID := ""
  ownerAddress := none

/-- `withOwnerInfo`. -/
def withOwnerInfo [Crypto] (id : String) (addr : Option Address) (res : ArticleResult) :
    ArticleResult :=
  { res with ownerID := id, ownerAddress := addr.map Address.string }

/-- `Create`. -/
def create (userID title content : String) : Prog ArticleResult := do
  let id ← generateID
  let documentID ← generateID
  let article := newArticle id documentID title content userID
  call (.create article)
  pure (articleToResult article)

variable [Crypto]

/-- `Preload("Document").First`, outside of a transaction: the article, and then its document. -/
def preloadFirst (id : String) : Prog Article := do
  let target ← call (.first id false)
  let document ← call (.preload target.id)
  pure { target with document }

/-- `Read`. -/
def read (id : String) : Prog ArticleResult := do
  let target ← mapErr (recordNotFoundAs .notFound) (preloadFirst id)
  match ← getOwnerAddressOf target with
  | some ownerAddr =>
    let ownerID ← getIDByAddress ownerAddr
    pure (withOwnerInfo ownerID (some ownerAddr) (articleToResult target))
  | none =>
    let originalAuthorAddr ← findAddressByID target.originalAuthorID
    pure (withOwnerInfo target.originalAuthorID originalAuthorAddr (articleToResult target))

/-- The article with the fields of its document set that are present. -/
def editArticle (target : Article) (title content : Option String) : Article :=
  { target with document := (target.document.setTitleIfPresent title).setContentIfPresent content }

/-- The transaction of `Update`. -/
def updateTransaction (userID : String) (id : ArticleID) (title content : Option String) :
    Prog Article := do
  call .begin
  let target ← call (.first id true)
  authorizeEdit userID target false
  let target := editArticle target title content
  call (.save target)
  call (.commit target)
  pure target

/-- `Update`. -/
def update (userID : String) (id : ArticleID) (title content : Option String) :
    Prog ArticleResult := do
  let target ← mapErr (recordNotFoundAs .notFound) (updateTransaction userID id title content)
  pure (articleToResult target)

/-- The article that `Delete` goes on with: errors other than that there is none
    are not looked at. -/
def deleteTarget (id : ArticleID) : Except Err Article → Prog Article
  | .ok target => pure target
  | .error .recordNotFound => .throw (.err (.notFound .recordNotFound))
  | .error _ => pure ⟨id, .zero, "", false⟩

/-- `Delete`. -/
def delete (userID : String) (id : ArticleID) : Prog ArticleResult :=
  Program.ask (S := calls) (.first id false) fun r => do
    let target ← deleteTarget id r
    authorizeEdit userID target false
    call (.delete target.id)
    pure (articleToResult target)

end

section

variable [Crypto]

/-- The error that an address is not the one of the author. -/
def notOriginalOwner (address articleID : String) : Err :=
  .unauthorized (.text ("Address " ++ address ++ " is not the orignial owner of article " ++
    articleID ++ "."))

/-- The part of `CreateForArticle` before its transaction: whose address it is,
    and that the request is signed with their nonce. -/
def authenticate (address signature : String) : Prog Unit := do
  let userID ← mapErr .unauthenticated (getIDByAddress (hexToAddress address))
  let nonce ← mapErr .unauthenticated (getAndReplaceNonceByID userID)
  mapErr .unauthenticated <| Program.ofExcept <|
    verifySignature address signature createNFTSignData (some nonce)

/-- The part of the transaction of `CreateForArticle` up to the mint, given the
    article. -/
def submitMint (address : String) (target : Article) : Prog MintTx := do
  let originalAuthorAddress ← getAddressByID target.originalAuthorID
  if originalAuthorAddress.string ≠ address then .throw (.err (notOriginalOwner address target.id))
  else
    let gasPrice ← call .suggestGasPrice
    call (.mintNFT gasPrice (hexToAddress address) target.id)

/-- The part of the transaction of `CreateForArticle` after the mint. -/
def storeTokenized (target : Article) : Prog Unit := do
  let metadataJson ← call (.marshal (newNFTMetadata target))
  call (.upload ("nfts/" ++ target.id ++ ".json") metadataJson)
  let target := target.setIsTokenized
  call (.save target)
  call (.commit target)

/-- `CreateForArticle`. -/
def createForArticle (articleID : ArticleID) (address signature : String) :
    Prog CreateNftForArticleResult := do
  authenticate address signature
  call .begin
  let target ← mapErr (recordNotFoundAs .articleNotFound) (call (.first articleID false))
  let mintTx ← submitMint address target
  storeTokenized target
  pure ⟨mintTx.hash.hex, (BitVec.ofNat 64 mintTx.cost).toInt⟩

end

end Knowtfolio
