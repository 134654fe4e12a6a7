import Knowtfolio.Ethereum.Signature
import Knowtfolio.Server.Operations

/-!
# The address table

`server/gateways/aws/dynamodb.go`: the items of DynamoDB that map users to
their wallet addresses and nonces, and wallet addresses to their users. An
address is looked up, and deleted, under its spelling; it is put under the text
that was received.
-/

namespace Knowtfolio

open Interaction

/-- The error that `value` is missing. -/
def valueFieldNotFound (kvType : KeyValueType) (key : String) : Err :=
  .api .valueFieldNotFound ("`value` field for " ++ kvType.toString ++ "/" ++ key ++ " not found")
    .server

/-- The error that a nonce could not be generated. -/
def nonceGenerationFailed (e : Err) : Err := .api .nonceGenerationFailed e.message .server

/-- What `getValue` makes of the item that it got. -/
def decodeValue (kvType : KeyValueType) (key : String) : Option (Option String) → Except Err String
  | none => .error (.api .itemNotFound
      ("item for " ++ kvType.toString ++ "/" ++ key ++ " not found") .client)
  | some none => .error (valueFieldNotFound kvType key)
  | some (some value) => .ok value

/-- A value is decoded exactly if there is an item that has one. -/
theorem decodeValue_eq_ok {kvType : KeyValueType} {key value : String}
    {item : Option (Option String)} :
    decodeValue kvType key item = .ok value ↔ item = some (some value) := by
  cases item with
  | none => simp [decodeValue]
  | some v => cases v <;> simp [decodeValue]

/-- `getValue`. -/
def getValue (kvType : KeyValueType) (key : String) : Prog String := do
  let item ← call (.getItem kvType key)
  Program.ofExcept ((decodeValue kvType key item).mapError .err)

/-- The rule of `getValue`: it asks for the item, and returns its value. -/
theorem wp_getValue {P : Log → Op → Prop} {Q : Log → Except Fault String → Prop} {l : Log}
    {kvType : KeyValueType} {key : String} (hP : P l (.getItem kvType key))
    (herr : ∀ r e, Q (l ++ [⟨.getItem kvType key, r⟩]) (.error (.err e)))
    (hok : ∀ value, Q (l ++ [answered (.getItem kvType key) (some (some value))]) (.ok value)) :
    Program.wp P Q l (getValue kvType key) := by
  refine wp_call_bind.2 ⟨hP, fun e => herr _ e, fun item => ?_⟩
  rw [Program.wp_ofExcept]
  cases h : decodeValue kvType key item with
  | error e => exact herr _ e
  | ok value =>
    rw [decodeValue_eq_ok.1 h]
    exact hok value

/-- `GetAddressByID`. -/
def getAddressByID (userID : String) : Prog Address := do
  let addrStr ← getValue .userIDToWalletAddress userID
  pure (hexToAddress addrStr)

/-- `GetAndReplaceNonceByID`. -/
def getAndReplaceNonceByID (userID : String) : Prog Hash := do
  let nonce ← mapErr nonceGenerationFailed (call .generateNonce)
  Program.ask (S := calls) (.putItem ⟨.userIDToNonce, userID, nonce.hex⟩) fun
    -- The error is not looked at, and the result is nil then.
    | .error _ => .throw (.panic "invalid memory address or nil pointer dereference")
    | .ok (some value) => pure (hexToHash value)
    | .ok none => .throw (.err (valueFieldNotFound .userIDToNonce userID))

/-- `GenerateAndPutNonce`. -/
def generateAndPutNonce (userID : String) : Prog Unit := do
  let nonce ← mapErr nonceGenerationFailed (call .generateNonce)
  let _ ← call (.putItem ⟨.userIDToNonce, userID, nonce.hex⟩)

/-- What `PutUserWallet` makes of the reasons why its transaction was cancelled:
    the first condition that failed. -/
def conditionFailure : List CancellationReason → Option Err
  | [] => none
  | .none :: reasons => conditionFailure reasons
  | .conditionalCheckFailed .walletAddressToUserID message :: _ =>
    some (.api .walletAddressAlreadyUsed message .client)
  | .conditionalCheckFailed _ message :: _ =>
    some (.api .userAlreadyHasWalletAddress message .client)

/-- The error of `PutUserWallet` for the error of its transaction. -/
def transactionError : Err → Err
  | .transactionCanceled reasons => (conditionFailure reasons).getD (.transactionCanceled reasons)
  | e => e

section

variable [Crypto]

/-- `GetIDByAddress`. -/
def getIDByAddress (walletAddress : Address) : Prog String :=
  getValue .walletAddressToUserID walletAddress.string

/-- The items that `PutUserWallet` puts. -/
def userWalletItems (userID walletAddress : String) (nonce : Hash) : List Item :=
  [⟨.userIDToWalletAddress, userID, walletAddress⟩, ⟨.userIDToNonce, userID, nonce.hex⟩,
    ⟨.walletAddressToUserID, walletAddress, userID⟩]

/-- `PutUserWallet`. -/
def putUserWallet (userID walletAddress : String) : Prog Unit := do
  let nonce ← mapErr nonceGenerationFailed (call .generateNonce)
  mapErr transactionError <| call <| .transactWriteItems <|
    (userWalletItems userID walletAddress nonce).map .put

/-- `DeleteUserWalletByID`. -/
def deleteUserWalletByID (userID : String) : Prog Unit := do
  let walletAddress ← getAddressByID userID
  call (.transactWriteItems [.delete .userIDToWalletAddress userID, .delete .userIDToNonce userID,
    .delete .walletAddressToUserID walletAddress.string])

end

end Knowtfolio
