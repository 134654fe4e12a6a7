import Knowtfolio.Data.Erc721
import Knowtfolio.Ethereum.Address

/-!
# The contract

`blockchain/contracts/Knowtfolio.sol`, on top of an ERC-721 ledger with
enumeration. A message to the contract either succeeds, with a new state, or
is reverted (`none`).

Minting and safe transfers call back a recipient that is a contract, before
they return. What the recipient does meanwhile is a list of messages of
contracts (of its own, or of others it calls), each of which may call back in
turn: a tree (`Contract.Reentry`), which `Reentry.run` executes. A nested
message that is reverted changes nothing, and the others go on.
-/

namespace Knowtfolio

/-- The accounts of the chain, and what of OpenZeppelin is left open: the order
    in which a token is taken out of an account's list. -/
class Chain where
  /-- Whether there is code at an address. -/
  isContract : Address → Bool
  isContract_zero : isContract 0 = false
  enumeration : Erc721.Enumeration

/-- The chain with code at the addresses `contracts`, whose enumeration leaves
    the other tokens in their order. -/
@[reducible] def Chain.ofContracts (contracts : List Address) (h : 0 ∉ contracts) : Chain where
  isContract a := a ∈ contracts
  isContract_zero := by simpa using h
  enumeration := .inOrder

namespace Contract

/-- The storage of the contract. -/
structure State where
  /-- Whether `initialize` has been called. -/
  initialized : Bool
  /-- `owner()`, of `OwnableUpgradeable`. -/
  owner : Address
  /-- The value of the counter `_tokenIds`. -/
  tokenIds : ℕ
  tokenIdOf : String → ℕ
  /-- `_tokenURIs`, of `ERC721URIStorageUpgradeable`. -/
  tokenURIs : ℕ → String
  ledger : Erc721.Ledger Address

/-- The storage of a contract just deployed. -/
def State.deployed : State where
  initialized := false
  owner := 0
  tokenIds := 0
  tokenIdOf _ := 0
  tokenURIs _ := ""
  ledger := .empty

/-- The functions that change the storage. -/
inductive Call
  /-- `initialize`. -/
  | initializeContract
  | mintNFT (recipient : Address) (articleId : String)
  | transferFrom (old new : Address) (tokenId : ℕ)
  | safeTransferFrom (old new : Address) (tokenId : ℕ)
  | approve (dest : Address) (tokenId : ℕ)
  | setApprovalForAll (operator : Address) (approved : Bool)
  | transferOwnership (newOwner : Address)
  | renounceOwnership
  deriving DecidableEq

/-- `_baseURI`. -/
def baseURI : String := "https://knowtfolio.com/nfts/"

/-- `CountersUpgradeable.increment`, which is not checked for overflow. -/
def increment (value : ℕ) : ℕ := (value + 1) % 2 ^ 256

section

variable [Chain]

/-- `_checkOnERC721Received`: a recipient that is a contract is called back, and
    has to accept. -/
def checkOnERC721Received (callback : State → State) (accepts : Bool) (recipient : Address)
    (s : State) : Option State :=
  if Chain.isContract recipient then if accepts then some (callback s) else none
  else some s

/-- `mintNFT`. -/
def mintNFT (callback : State → State) (accepts : Bool) (sender recipient : Address)
    (articleId : String) (s : State) : Option State :=
  if sender ≠ s.owner then none
  else if articleId = "" ∨ s.tokenIdOf articleId ≠ 0 then none
  else
    let newItemId := increment s.tokenIds
    -- `_safeMint`
    match s.ledger.mint recipient newItemId with
    | none => none
    | some ledger =>
      match checkOnERC721Received callback accepts recipient
          { s with tokenIds := newItemId, ledger } with
      | none => none
      | some s =>
        -- `_setTokenURI` requires that the token exists.
        if s.ledger.owners newItemId = none then none
        else some { s with
          tokenURIs := Function.update s.tokenURIs newItemId articleId
          tokenIdOf := Function.update s.tokenIdOf articleId newItemId }

/-- The message `fn` of `sender`, with what a recipient called back does, and
    whether it accepts. -/
def exec (callback : State → State) (accepts : Bool) (sender : Address) :
    Call → State → Option State
  | .initializeContract, s =>
    if s.initialized then none else some { s with initialized := true, owner := sender }
  | .mintNFT recipient articleId, s => mintNFT callback accepts sender recipient articleId s
  | .transferFrom old new tokenId, s =>
    (s.ledger.transferFrom Chain.enumeration sender old new tokenId).map ({ s with ledger := · })
  | .safeTransferFrom old new tokenId, s =>
    match s.ledger.transferFrom Chain.enumeration sender old new tokenId with
    | none => none
    | some ledger => checkOnERC721Received callback accepts new { s with ledger }
  | .approve dest tokenId, s =>
    (s.ledger.approve sender dest tokenId).map ({ s with ledger := · })
  | .setApprovalForAll operator approved, s =>
    (s.ledger.setApprovalForAll sender operator approved).map ({ s with ledger := · })
  | .transferOwnership newOwner, s =>
    if sender ≠ s.owner ∨ newOwner = 0 then none else some { s with owner := newOwner }
  | .renounceOwnership, s => if sender ≠ s.owner then none else some { s with owner := 0 }

/-- A message of a contract, while the contract is calling back: its own
    callback does `inner`, and accepts or not. -/
inductive Reentry
  | call (sender : {a : Address // Chain.isContract a = true}) (fn : Call)
      (inner : List Reentry) (accepts : Bool)

mutual

/-- A nested message: reverted, it leaves the state as it was. -/
def Reentry.run : Reentry → State → State
  | .call sender fn inner accepts => fun s =>
    (exec (Reentry.runAll inner) accepts sender.1 fn s).getD s

/-- Nested messages, one after the other. -/
def Reentry.runAll : List Reentry → State → State
  | [] => fun s => s
  | r :: rs => fun s => Reentry.runAll rs (r.run s)

end

/-- A message to the contract from outside any callback. Nobody sends as the
    zero account. -/
structure Message where
  sender : Address
  sender_ne_zero : sender ≠ 0
  fn : Call
  inner : List Reentry
  accepts : Bool

/-- The state after the message, if it is not reverted. -/
def Message.exec (m : Message) (s : State) : Option State :=
  Contract.exec (Reentry.runAll m.inner) m.accepts m.sender m.fn s

/-- The state after the message, reverted or not. -/
def Message.apply (m : Message) (s : State) : State := (m.exec s).getD s

/-- The state after a sequence of messages. -/
def applyAll : List Message → State → State
  | [], s => s
  | m :: ms, s => applyAll ms (m.apply s)

/-- Whether a message is one to `mintNFT`. -/
def Message.isMint (m : Message) : Bool :=
  match m.fn with
  | .mintNFT _ _ => true
  | _ => false

/-- The number of mints in a sequence of messages: those that are not reverted. -/
def mints : List Message → State → ℕ
  | [], _ => 0
  | m :: ms, s => (if m.isMint ∧ (m.exec s).isSome then 1 else 0) + mints ms (m.apply s)

end

/-! ## Views -/

namespace State

variable (s : State)

/-- `ownerOf`, which reverts for a token that does not exist. -/
def ownerOf (tokenId : ℕ) : Option Address := s.ledger.owners tokenId

/-- `balanceOf`, which reverts for the zero account. -/
def balanceOf (user : Address) : Option ℕ :=
  if user = 0 then none else some (s.ledger.tokensOf user).length

/-- `tokenOfOwnerByIndex`, which reverts out of bounds. -/
def tokenOfOwnerByIndex (user : Address) (index : ℕ) : Option ℕ :=
  (s.ledger.tokensOf user)[index]?

/-- `tokenURI`, which reverts for a token that does not exist. -/
def tokenURI (tokenId : ℕ) : Option String :=
  match s.ledger.owners tokenId with
  | none => none
  | some _ =>
    if s.tokenURIs tokenId ≠ "" then some (baseURI ++ s.tokenURIs tokenId)
    else some (baseURI ++ toString tokenId)

/-- `getOwnerOfArticle`. -/
def getOwnerOfArticle (articleId : String) : Option Address :=
  let tokenId := s.tokenIdOf articleId
  if tokenId = 0 then some 0 else s.ownerOf tokenId

/-- `getArticleIdsOwnedBy`. -/
def getArticleIdsOwnedBy (user : Address) : Option (List String) := do
  let numberOfTokens ← s.balanceOf user
  (List.range numberOfTokens).mapM fun index => do
    let token ← s.tokenOfOwnerByIndex user index
    s.tokenURI token

/-- `getTokenId`. -/
def getTokenId (articleId : String) : ℕ := s.tokenIdOf articleId

end State

end Contract

end Knowtfolio
