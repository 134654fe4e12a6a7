import Mathlib.Data.List.Infix
import Knowtfolio.Ethereum.Signature
import Knowtfolio.Server.World

/-!
# A Hardhat node

An environment to run the server on: the first three accounts of a Hardhat node,
the first of which is the server's, with the hashes, keys and signatures of
theirs that the runs of this development need.
-/

namespace Knowtfolio.Hardhat

/-- The bytes written in hexadecimal. -/
def hex (s : String) : List UInt8 := Hex.decodePrefix (Hex.utf8 s)

/-- The account of the server. -/
def admin : Address := .ofList 20 (hex "f39fd6e51aad88f6f4ce6ab8827279cfffb92266")

/-- An account whose key signs. -/
def author : Address := .ofList 20 (hex "70997970c51812dc3a010c7d01b50e0d17dc79c8")

/-- Another account. -/
def buyer : Address := .ofList 20 (hex "3c44cdddb6a900fa2b585dd299e03d12fa4293bc")

/-- The author's account is not the zero one. -/
theorem author_ne_zero : author ≠ 0 := by decide

/-- The key of `author`. -/
def authorKey : PublicKey := .ofList 64 (
  hex "ba5734d8f7091719471e7f7ed6b9df170dc70cc661ca05e688601ad984f068b0" ++
  hex "d67351e5f06073092499336ab0839ef8a521afd334e53807205fa2f08eec74f4")

/-- The nonce whose text is signed. -/
def nonce : Hash := .ofList 32 [1]

/-- The digits of the signature of `author` over `createNFTSignData` with `nonce`. -/
def signatureDigits : String :=
  "51ade4abb62566c06f0f111b9f84d5e3a770eb7b4bd79d76487084f69b84a1ed" ++
    "6050c2ef1a6372346ce0a64fe399facd104eb37fd762672a180ee147628f109701"

/-- The signature. -/
def signature : String := "0x" ++ signatureDigits

/-- The hash that is signed. -/
def signedHash : Hash := .ofList 32 (hex
  "5e67c572805c2ddf478fc17590d438b288c17a31755b6573a86f415fca411668")

/-- The hashes of the digits of the addresses, and of the text signed. -/
def hashes : List (List UInt8 × Hash) :=
  [(Hex.utf8 "70997970c51812dc3a010c7d01b50e0d17dc79c8",
      .ofList 32 (hex "ab0b23228b24d84488ffaac5e35a6017af55d9b5c00c385c9311735b71867ebc")),
    (Hex.utf8 "3c44cdddb6a900fa2b585dd299e03d12fa4293bc",
      .ofList 32 (hex "e99ff086e441a435146f1743931244249ce5259cdf9f981c4d200b64301593aa")),
    (Hex.utf8 "0000000000000000000000000000000000000000",
      .ofList 32 (hex "ccc527fe1f9391bff444994ddca404bed1dc008a066ff7f1b243e115cab70720")),
    (Hex.utf8 ("\x19Ethereum Signed Message:\n84" ++ generateSignData createNFTSignData nonce),
      signedHash)]

/-- The environment. Its texts have no tags, and are stored in the order of their
    creation. -/
@[reducible] def environment : Environment where
  toCrypto := .ofTables hashes [((signedHash, hex signatureDigits), authorKey)]
    [(authorKey, author)]
  toChain := .ofContracts [] (by decide)
  stripTags := id
  ugc := id
  order _ l := l
  order_perm _ l := .refl l
  like text pattern := (pattern.toList.drop 1).dropLast <:+: text.toList
  admin := admin
  admin_ne_zero := by decide
  isContract_admin := by decide

/-! ## Requests one after the other -/

open Interaction Machine

attribute [local instance] environment

/-- The moves of the request `i`, every call being answered by the choice given. -/
def steps (i : ℕ) (chs : List Choice) : List server.Move := chs.map (.step i)

/-- The id of the article that the runs create. -/
def articleID : ArticleID := ⟨"article_001", by decide⟩

/-- `author` registers its address as the request `i`, with the nonce that is signed. -/
def register (i : ℕ) : List server.Move :=
  .arrive (.putUserWallet "author" author.string) :: steps i [.nonce nonce, .ok]

/-- `buyer` registers its address as the request `i`. -/
def registerBuyer (i : ℕ) : List server.Move :=
  .arrive (.putUserWallet "buyer" buyer.string) :: steps i [.nonce (.ofList 32 [4]), .ok]

/-- The author transfers the first token to `buyer`. -/
def sell : server.Move :=
  .act (.message ⟨author, author_ne_zero, .transferFrom author buyer 1, [], true⟩)

/-- The user `author` creates the article as the request `i`. -/
def createArticle (i : ℕ) : List server.Move :=
  .arrive (.create "author" "title" "content") ::
    steps i [.id articleID, .id "document_01", .ok]

/-- The request to tokenize the article. -/
def tokenize : Request := .createForArticle articleID author.string signature

/-- The calls that tokenize the article as the request `i`, up to the mint. -/
def mint (i : ℕ) : List server.Move :=
  steps i [.ok, .nonce (.ofList 32 [2]), .ok, .ok, .ok, .ok, .gasPrice 1, .tx ⟨.ofList 32 [3], 1⟩]

/-- The calls of the request `i` after the mint. -/
def storeToken (i : ℕ) : List server.Move := steps i [.json "{}", .ok, .ok, .recreate false]

end Knowtfolio.Hardhat
