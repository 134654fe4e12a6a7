import Mathlib.Data.List.Basic

/-!
# Errors

What a Go function of the server returns as its `error`, and what may end it
otherwise: a panic, which no caller checks for.
-/

namespace Knowtfolio

/-- The type of an item of the address table, which is the first part of its key. -/
inductive KeyValueType
  | userIDToWalletAddress
  | userIDToNonce
  | walletAddressToUserID
  deriving DecidableEq, Repr

/-- The text of a type, as it stands in the table. -/
def KeyValueType.toString : KeyValueType → String
  | .userIDToWalletAddress => "user_id_to_wallet_address"
  | .userIDToNonce => "user_id_to_nonce"
  | .walletAddressToUserID => "wallet_address_to_user_id"

/-- The codes of the errors that the DynamoDB client makes itself. -/
inductive ErrorCode
  | itemNotFound
  | valueFieldNotFound
  | userAlreadyHasWalletAddress
  | walletAddressAlreadyUsed
  | nonceGenerationFailed
  deriving DecidableEq, Repr

/-- Whose fault an API error is. -/
inductive FaultSide
  | client
  | server
  deriving DecidableEq, Repr

/-- Why one action of a cancelled transaction was refused: nothing is wrong with
    it, or its condition failed on an item of the given type. -/
inductive CancellationReason
  | none
  | conditionalCheckFailed (item : KeyValueType) (message : String)
  deriving DecidableEq, Repr

/-- An `error`. -/
inductive Err
  /-- A call out of the process failed: the network, an SDK, a driver. -/
  | external (message : String)
  /-- `smithy.GenericAPIError`. -/
  | api (code : ErrorCode) (message : String) (fault : FaultSide)
  /-- `types.TransactionCanceledException`. -/
  | transactionCanceled (reasons : List CancellationReason)
  /-- `gorm.ErrRecordNotFound`. -/
  | recordNotFound
  /-- `errors.New`. -/
  | text (message : String)
  /-- The errors of the API, with their cause. -/
  | notFound (cause : Err)
  | unauthenticated (cause : Err)
  | unauthorized (cause : Err)
  | articleNotFound (cause : Err)
  deriving DecidableEq, Repr

/-- `errors.As(err, &apiErr) && apiErr.ErrorCode() == ItemNotFoundCode`. -/
def Err.isItemNotFound : Err → Bool
  | .api .itemNotFound _ _ => true
  | _ => false

/-- `err.Error()`, of an error that gets into a message. -/
def Err.message : Err → String
  | .external message | .text message => message
  | _ => ""

/-- What ends a function without a result. -/
inductive Fault
  | err (e : Err)
  | panic (message : String)
  deriving DecidableEq, Repr

/-- The error of a fault replaced by another one; a panic goes on. -/
def Fault.mapErr (f : Err → Err) : Fault → Fault
  | .err e => .err (f e)
  | .panic m => .panic m

end Knowtfolio
