import Knowtfolio.Ethereum.Signature

/-!
# Validation of requests

`infrastructure/function_scripts/pkg/models`: the structs that the Lambda functions
decode from JSON, and the validator that checks them by their tags. The check of a
signature is registered with it for whatever implements `EthSignatureValidatable`, by
the value of a variable of that type. That value is nil, and has no type: the check is
filed under no struct, and never made (`structLevelFuncs_requestValidator`,
`validateJSONRequest_eq_ok`).
-/

namespace Knowtfolio

/-- `SignUpForm`. -/
structure SignUpForm where
  userName : String
  password : String
  email : String
  deriving DecidableEq

/-- `PostWalletAddressRequest`. -/
structure PostWalletAddressRequest where
  userID : String
  walletAddress : String
  signature : String
  deriving DecidableEq

/-- The structs that are validated. -/
inductive StructType
  | signUpForm
  | postWalletAddressRequest
  deriving DecidableEq

namespace StructType

/-- The values of a struct type. -/
abbrev Value : StructType → Type
  | signUpForm => SignUpForm
  | postWalletAddressRequest => PostWalletAddressRequest

/-- The name of a struct type, which the names of its fields start with. -/
def name : StructType → String
  | signUpForm => "SignUpForm"
  | postWalletAddressRequest => "PostWalletAddressRequest"

end StructType

/-- What a variable of an interface type holds: nothing, a struct, or a pointer to one. -/
inductive Boxed
  | nil
  | value (type : StructType) (v : type.Value)
  | pointer (type : StructType) (v : type.Value)

/-! ## The validator -/

/-- `validator.FieldError`. -/
structure FieldError where
  ns : String
  field : String
  tag : String
  deriving DecidableEq

/-- `FieldError.Error`. -/
def FieldError.error (e : FieldError) : String :=
  "Key: '" ++ e.ns ++ "' Error:Field validation for '" ++ e.field ++ "' failed on the '" ++
    e.tag ++ "' tag"

/-- A tag, with its check. -/
structure Tag where
  name : String
  check : String → Bool

/-- A field by its name in JSON, with its value and its tags. -/
structure Field where
  name : String
  value : String
  tags : List Tag

/-- The first tag of a field that does not hold. -/
def Field.error (ns : String) (f : Field) : Option FieldError :=
  (f.tags.find? fun tag => !tag.check f.value).map fun tag => ⟨ns ++ "." ++ f.name, f.name, tag.name⟩

/-- A check of a whole struct: the errors that it reports of the current value. -/
abbrev StructLevelFunc := Boxed → Except Fault (List FieldError)

/-- The type that a check of structs is filed under: the dynamic type of the value that
    it is registered with, or of what that points to. -/
def Boxed.typeKey : Boxed → Option StructType
  | nil => none
  | value type _ | pointer type _ => some type

/-- A validator, as far as the checks of structs go. -/
structure Validate where
  structLevelFuncs : Option StructType → Option StructLevelFunc

/-- `validator.New`. -/
def Validate.new : Validate := ⟨fun _ => none⟩

/-- `RegisterStructValidation`. -/
def Validate.registerStructValidation (v : Validate) (fn : StructLevelFunc) (t : Boxed) : Validate :=
  ⟨Function.update v.structLevelFuncs t.typeKey (some fn)⟩

/-- What `Struct` reports of a struct: the errors of its fields, then those of the check
    filed under its type, which gets the struct and not a pointer to it. -/
def Validate.struct (v : Validate) (fields : (type : StructType) → type.Value → List Field)
    (type : StructType) (s : type.Value) : Except Fault (List FieldError) := do
  let errs := (fields type s).filterMap (Field.error type.name)
  match v.structLevelFuncs (some type) with
  | none => pure errs
  | some fn =>
    let structErrs ← fn (.value type s)
    pure (errs ++ structErrs)

/-! ## The fields and their tags -/

/-- What the Lambda functions have from packages to read a request: JSON, and the tag
    `email` of the validator. -/
class Decoders where
  /-- `json.Unmarshal` into a zero value, or the text of its error. -/
  unmarshal : (type : StructType) → String → Except String type.Value
  isEmail : String → Bool

/-- `validateCognitoUserName`. -/
def validateCognitoUserName (val : String) : Bool :=
  let containsValidCharactersOnly :=
    val ≠ "" && val.toList.all fun c => c.isDigit || c.isLower || c = '-'
  let doesNotStartWithHyphen := val.toList.head? ≠ some '-'
  let doesNotEndWithHyphen := val.toList.getLast? ≠ some '-'
  let isLengthInRange := 1 ≤ (Hex.utf8 val).length && (Hex.utf8 val).length < 40
  containsValidCharactersOnly && doesNotStartWithHyphen && doesNotEndWithHyphen && isLengthInRange

/-- The special characters of a password. -/
def specialCharacters : List Char := "^$*.[]\x7b\x7d()?\"!@#%&/\\,><':;|_~`=+-".toList

/-- `validateCognitoPassword`. -/
def validateCognitoPassword (val : String) : Bool :=
  let containsNumber := val.toList.any Char.isDigit
  let containsLowercase := val.toList.any Char.isLower
  let containsUppercase := val.toList.any Char.isUpper
  let containsSpecialCharacter := val.toList.any specialCharacters.contains
  let containsValidCharactersOnly :=
    val ≠ "" && val.toList.all fun c => c.isAlphanum || specialCharacters.contains c
  let isLengthInRange := 8 ≤ (Hex.utf8 val).length && (Hex.utf8 val).length ≤ 256
  containsNumber && containsLowercase && containsUppercase && containsSpecialCharacter &&
    containsValidCharactersOnly && isLengthInRange

/-- The tag `required` of a string. -/
def required : Tag := ⟨"required", fun val => val ≠ ""⟩

section

variable [Crypto]

/-- The tagged fields of a struct. -/
def taggedFields [Decoders] : (type : StructType) → type.Value → List Field
  | .signUpForm, form =>
    [⟨"username", form.userName, [required, ⟨"cognito_username", validateCognitoUserName⟩]⟩,
      ⟨"password", form.password, [required, ⟨"cognito_password", validateCognitoPassword⟩]⟩,
      ⟨"email", form.email, [required, ⟨"email", Decoders.isEmail⟩]⟩]
  | .postWalletAddressRequest, request =>
    [⟨"user_id", request.userID, [required]⟩,
      ⟨"wallet_address", request.walletAddress, [required, ⟨"eth_addr", isEthAddr⟩]⟩,
      ⟨"signature", request.signature, [required]⟩]

/-! ## Signatures -/

/-- `EthSignatureValidationInfo`. -/
structure EthSignatureValidationInfo where
  address : Address
  message : String
  nonce : Option Hash
  signature : String
  signatureFieldName : String

/-- `PostWalletAddressRequest.ValidationInfo`, with its error. -/
def PostWalletAddressRequest.validationInfo (p : PostWalletAddressRequest) :
    EthSignatureValidationInfo × Option Err :=
  (⟨hexToAddress p.walletAddress, "Register wallet address", none, p.signature, "Signature"⟩, none)

/-- The method of `EthSignatureValidatable`, if the value has it. The method has a
    pointer for its receiver, so that the struct itself is without it. -/
def Boxed.validationInfo : Boxed → Option (EthSignatureValidationInfo × Option Err)
  | pointer .postWalletAddressRequest p => some p.validationInfo
  | _ => none

/-- `validateEthSignature`. -/
def validateEthSignature : StructLevelFunc := fun current =>
  match current.validationInfo with
  | none => .error (.panic ("Do not register `validateEthSignature` for types other than " ++
      "`EthSignatureValidatable`."))
  | some (valInfo, err) =>
    let errs := err.toList.map fun _ => ⟨"PostWalletAddressRequest.", "", "eth_sign_addr"⟩
    match verifySignature valInfo.address.string valInfo.signature valInfo.message valInfo.nonce with
    | .ok () => .ok errs
    | .error (.panic m) => .error (.panic m)
    -- The field is asked of the value that has the method, which is a pointer.
    | .error (.err _) => .error (.panic "reflect: call of reflect.Value.FieldByName on ptr Value")

/-- `requestValidator`, after `init`. The variable `validatable` is nil. -/
def requestValidator : Validate := Validate.new.registerStructValidation validateEthSignature .nil

/-- No check is filed under a struct. -/
theorem structLevelFuncs_requestValidator (type : StructType) :
    requestValidator.structLevelFuncs (some type) = none :=
  Function.update_of_ne (nofun : some type ≠ none) (some validateEthSignature) _

/-- An error of `ValidateJSONRequest`. -/
inductive RequestError
  | json (message : String)
  | validation (errs : List FieldError)
  deriving DecidableEq

omit [Crypto] in
/-- The text of the error. -/
def RequestError.error : RequestError → String
  | json message => message
  | validation errs => "\n".intercalate (errs.map FieldError.error)

variable [Decoders]

/-- `ValidateJSONRequest`: the struct decoded, or its error. -/
def validateJSONRequest (type : StructType) (srcJSON : String) :
    Except Fault (Except RequestError type.Value) :=
  match Decoders.unmarshal type srcJSON with
  | .error message => .ok (.error (.json message))
  | .ok s => do
    let errs ← requestValidator.struct taggedFields type s
    pure (if errs = [] then .ok s else .error (.validation errs))

/-- What is reported of a struct are the errors of its fields. -/
theorem struct_requestValidator (type : StructType) (s : type.Value) :
    requestValidator.struct taggedFields type s =
      .ok ((taggedFields type s).filterMap (Field.error type.name)) := by
  rw [Validate.struct, structLevelFuncs_requestValidator]
  rfl

/-- The tags of a struct hold. -/
def TagsHold (type : StructType) (s : type.Value) : Prop :=
  ∀ f ∈ taggedFields type s, ∀ tag ∈ f.tags, tag.check f.value = true

instance (type : StructType) (s : type.Value) : Decidable (TagsHold type s) :=
  inferInstanceAs (Decidable (∀ f ∈ taggedFields type s, _))

/-- There are no errors exactly if every tag holds. -/
theorem errors_eq_nil {type : StructType} {s : type.Value} :
    (taggedFields type s).filterMap (Field.error type.name) = [] ↔ TagsHold type s := by
  rw [List.filterMap_eq_nil_iff]
  refine forall₂_congr fun f _ => ?_
  simp [Field.error]

/-- A request that decodes is accepted if its tags hold, and the others are reported
    otherwise. -/
theorem validateJSONRequest_of_unmarshal {type : StructType} {srcJSON : String} {s : type.Value}
    (h : Decoders.unmarshal type srcJSON = .ok s) : validateJSONRequest type srcJSON =
      .ok (if TagsHold type s then .ok s
        else .error (.validation ((taggedFields type s).filterMap (Field.error type.name)))) := by
  rw [validateJSONRequest, h]
  dsimp only
  rw [struct_requestValidator]
  exact congrArg Except.ok (if_congr errors_eq_nil rfl rfl)

/-- A request is accepted exactly if it decodes and its tags hold. -/
theorem validateJSONRequest_eq_ok {type : StructType} {srcJSON : String} {s : type.Value} :
    validateJSONRequest type srcJSON = .ok (.ok s) ↔
      Decoders.unmarshal type srcJSON = .ok s ∧ TagsHold type s := by
  cases hdecode : Decoders.unmarshal type srcJSON with
  | error message => simp [validateJSONRequest, hdecode]
  | ok s' =>
    rw [validateJSONRequest_of_unmarshal hdecode, Except.ok.injEq]
    split_ifs with htags
    · simp only [Except.ok.injEq]
      exact ⟨fun h => ⟨h, h ▸ htags⟩, fun h => h.1⟩
    · simp only [Except.ok.injEq, false_iff, not_and]
      exact fun h => h ▸ htags

end

end Knowtfolio
