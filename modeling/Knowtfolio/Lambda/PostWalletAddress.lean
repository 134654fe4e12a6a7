import Knowtfolio.Data.Text
import Knowtfolio.Lambda.Validation
import Knowtfolio.Server.AddressBook

/-!
# The registration of wallet addresses

`infrastructure/function_scripts/cmd/post_wallet_address`: a request to register a
wallet address, with the token of its user and a signature of the address. The token is
verified, the signature is not: whatever text is sent for one, the address is
registered, unless the request is refused for another reason
(`provesPossession_iff`).
-/

namespace Knowtfolio

open Interaction

/-! ## Tokens -/

/-- The value of a claim. -/
inductive ClaimValue
  | string (s : String)
  | other

/-- The options of `jwt.ParseString`, apart from the keys. -/
structure ParseOptions where
  validate : Bool
  issuer : String
  audience : String
  claimValue : String × String
  deriving DecidableEq

/-- The user pool, and the package that its tokens are parsed with. -/
class Cognito where
  issuer : String
  clientID : String
  /-- `jwt.ParseString`, with the keys of the user pool: the claims of a valid token. -/
  parseString : String → ParseOptions → Except String (String → Option ClaimValue)

section

variable [Cognito]

/-- The options that tokens are parsed with. -/
def parseOptions : ParseOptions := ⟨true, Cognito.issuer, Cognito.clientID, ("token_use", "id")⟩

/-- `VerifyCognitoToken`. -/
def verifyCognitoToken (idTokenStr : String) : Except Fault String :=
  match Cognito.parseString idTokenStr parseOptions with
  | .error message => .error (.err (.external message))
  | .ok validatedToken =>
    match validatedToken "cognito:username" with
    | some (.string userID) => .ok userID
    -- That the claim is missing is an error, with which the function goes on.
    | none => .error (.panic "interface conversion: interface \x7b\x7d is nil, not string")
    | some .other => .error (.panic "interface conversion: interface \x7b\x7d is not string")

/-- The token is a valid one of the user. -/
def VerifiedToken (token user : String) : Prop :=
  ∃ claims, Cognito.parseString token parseOptions = .ok claims ∧
    claims "cognito:username" = some (.string user)

/-- A token passes if Cognito's keys verify it and it names its user. -/
theorem verifyCognitoToken_eq_ok {token user : String} :
    verifyCognitoToken token = .ok user ↔ VerifiedToken token user := by
  rw [verifyCognitoToken, VerifiedToken]
  cases Cognito.parseString token parseOptions with
  | error message => simp
  | ok claims =>
    cases hclaim : claims "cognito:username" with
    | none => simp [hclaim]
    | some value => cases value <;> simp [hclaim]

end

/-! ## The handler -/

/-- `events.APIGatewayProxyRequest`. -/
structure APIGatewayProxyRequest where
  headers : String → Option String
  body : String

/-- `events.APIGatewayProxyResponse`. -/
structure APIGatewayProxyResponse where
  statusCode : ℕ
  body : String
  deriving DecidableEq

/-- What the function runs on. -/
class LambdaEnvironment extends Environment, Decoders, Cognito

section

variable [LambdaEnvironment]

/-- The part of the handler after the checks. -/
def registerWallet (req : PostWalletAddressRequest) : Prog APIGatewayProxyResponse :=
  Program.handle (fun
      | .err (.api .userAlreadyHasWalletAddress _ _) =>
        pure ⟨400, "user already has a wallet address registered"⟩
      | .err (.api .walletAddressAlreadyUsed _ _) => pure ⟨400, "wallet address is already used"⟩
      | e => .throw e) do
    putUserWallet req.userID req.walletAddress
    pure ⟨200, ""⟩

/-- `handler`. -/
def handler (request : APIGatewayProxyRequest) : Prog APIGatewayProxyResponse :=
  match request.headers "authorization" with
  | none => pure ⟨401, "authorization header is required"⟩
  | some authHeader =>
    match verifyCognitoToken (Text.trimPrefix authHeader "Bearer ") with
    | .error (.panic m) => .throw (.panic m)
    | .error (.err _) => pure ⟨401, "invalid token"⟩
    | .ok tokenUserID =>
      match validateJSONRequest .postWalletAddressRequest request.body with
      | .error e => .throw e
      | .ok (.error e) => pure ⟨400, e.error⟩
      | .ok (.ok req) =>
        if req.userID ≠ tokenUserID then
          pure ⟨403, "user [" ++ tokenUserID ++ "] cannot register user [" ++ req.userID ++
            "]'s wallet address"⟩
        else registerWallet req

/-- The request that the handler gets to after its checks. -/
structure Checked (request : APIGatewayProxyRequest) (req : PostWalletAddressRequest) : Prop where
  decoded : Decoders.unmarshal .postWalletAddressRequest request.body = .ok req
  tags : TagsHold .postWalletAddressRequest req
  token : ∃ authHeader, request.headers "authorization" = some authHeader ∧
    VerifiedToken (Text.trimPrefix authHeader "Bearer ") req.userID

/-- What passes the checks is registered. -/
theorem handler_of_checked {request : APIGatewayProxyRequest} {req : PostWalletAddressRequest}
    (h : Checked request req) : handler request = registerWallet req := by
  obtain ⟨authHeader, hheader, htoken⟩ := h.token
  have hvalid := validateJSONRequest_eq_ok.2 ⟨h.decoded, h.tags⟩
  simp only [handler, hheader, verifyCognitoToken_eq_ok.2 htoken]
  rw [hvalid]
  exact if_neg fun hne => hne rfl

variable {w w' : World} {response : APIGatewayProxyResponse}

/-- A response that is not an error is to a registration that succeeded. -/
theorem runs_registerWallet {req : PostWalletAddressRequest}
    (h : Program.Runs World.exec w (registerWallet req) (.ok response) w')
    (hstatus : response.statusCode = 200) :
    Program.Runs World.exec w (putUserWallet req.userID req.walletAddress) (.ok ()) w' := by
  have hne : ∀ {status : ℕ} {body : String} {w₁ : World}, status ≠ 200 →
      ¬ Program.Runs World.exec w₁ (pure ⟨status, body⟩ : Prog _) (.ok response) w' := by
    intro status body w₁ hne hret
    cases (Program.runs_ret.1 hret).1
    exact hne hstatus
  rcases Program.runs_handle.1 h with ⟨res, hrun, -⟩ | ⟨e, w₁, -, herror⟩
  · rcases Program.runs_bind.1 hrun with ⟨u, w₁, hput, hret⟩ | ⟨e, -, ⟨⟩⟩
    obtain ⟨-, rfl⟩ := Program.runs_ret.1 hret
    exact hput
  · split at herror
    next => exact absurd herror (hne (by decide))
    next => exact absurd herror (hne (by decide))
    next => exact absurd (Program.runs_throw.1 herror).1 nofun

/-- A response that is not an error is to a request that was checked. -/
theorem runs_handler {request : APIGatewayProxyRequest}
    (h : Program.Runs World.exec w (handler request) (.ok response) w')
    (hstatus : response.statusCode = 200) : ∃ req, Checked request req ∧
      Program.Runs World.exec w (putUserWallet req.userID req.walletAddress) (.ok ()) w' := by
  have hne : ∀ {status : ℕ} {body : String}, status ≠ 200 →
      ¬ Program.Runs World.exec w (pure ⟨status, body⟩ : Prog _) (.ok response) w' := by
    intro status body hne hret
    cases (Program.runs_ret.1 hret).1
    exact hne hstatus
  -- The checks one by one: what fails one of them is answered by another status.
  unfold handler at h
  split at h
  next => exact absurd h (hne (by decide))
  next authHeader hheader =>
    split at h
    next => exact absurd (Program.runs_throw.1 h).1 nofun
    next => exact absurd h (hne (by decide))
    next tokenUserID htoken =>
      split at h
      next => exact absurd (Program.runs_throw.1 h).1 nofun
      next => exact absurd h (hne (by decide))
      next req hvalid =>
        obtain ⟨hdecoded, htags⟩ := validateJSONRequest_eq_ok.1 hvalid
        split_ifs at h with huser
        · exact absurd h (hne (by decide))
        · obtain rfl : req.userID = tokenUserID := not_not.1 huser
          exact ⟨req, ⟨hdecoded, htags, authHeader, hheader, verifyCognitoToken_eq_ok.1 htoken⟩,
            runs_registerWallet h hstatus⟩

/-! ## Possession -/

/-- The world in which the address table is `t`. -/
def World.ofItems (t : Keyed.Table Item.primaryKey) : World := { World.initial with items := t }

/-- There is no item that the registration of the address by the user would put. -/
def Unregistered (t : Keyed.Table Item.primaryKey) (user address : String) : Prop :=
  t.get (.userIDToWalletAddress, user) = none ∧ t.get (.userIDToNonce, user) = none ∧
    t.get (.walletAddressToUserID, address) = none

instance (t : Keyed.Table Item.primaryKey) (user address : String) :
    Decidable (Unregistered t user address) := inferInstanceAs (Decidable (_ ∧ _))

/-- A registration goes through exactly if nothing that it would put is there. -/
theorem exists_runs_putUserWallet {t : Keyed.Table Item.primaryKey} {user address : String} :
    (∃ w', Program.Runs World.exec (.ofItems t) (putUserWallet user address) (.ok ()) w') ↔
      Unregistered t user address := by
  constructor
  · rintro ⟨w', h⟩
    rcases runs_putUserWallet h with ⟨hne, -⟩ | ⟨n, w₁, hitems, heff⟩
    · exact absurd rfl hne
    obtain ⟨hnone, -⟩ := World.mem_items_of_transact
      (by simp [userWalletItems, Item.primaryKey]) heff
    rw [hitems] at hnone
    exact ⟨hnone _ (.head _), hnone _ (.tail _ (.head _)), hnone _ (.tail _ (.tail _ (.head _)))⟩
  · rintro ⟨hwallet, hnonce, haddress⟩
    have hreason : ∀ i ∈ (userWalletItems user address 0).map TransactWriteItem.put,
        i.reason t = .none := by
      simp [userWalletItems, TransactWriteItem.reason, Item.primaryKey, hwallet, hnonce, haddress]
    exact ⟨_, Program.runs_bind.2 (.inl ⟨(0 : Hash), _,
      runs_mapErr_call (World.exec_generateNonce List.not_mem_nil),
      runs_mapErr_call (World.exec_transactWriteItems hreason)⟩)⟩

/-- A request that was checked is answered 200 if its registration goes through. -/
theorem exists_runs_handler {t : Keyed.Table Item.primaryKey} {request : APIGatewayProxyRequest}
    {req : PostWalletAddressRequest} (hreq : Checked request req)
    (hnone : Unregistered t req.userID req.walletAddress) :
    ∃ w', Program.Runs World.exec (.ofItems t) (handler request) (.ok ⟨200, ""⟩) w' := by
  obtain ⟨w', hput⟩ := exists_runs_putUserWallet.2 hnone
  rw [handler_of_checked hreq, registerWallet]
  exact ⟨w', Program.runs_handle.2
    (.inl ⟨_, Program.runs_bind.2 (.inl ⟨(), w', hput, .ret⟩), rfl⟩)⟩

/-- Whoever is answered 200 has a token of the user, and has sent a signature of the
    address. -/
def ProvesPossession (t : Keyed.Table Item.primaryKey) (request : APIGatewayProxyRequest) : Prop :=
  ∀ response w', Program.Runs World.exec (.ofItems t) (handler request) (.ok response) w' →
    response.statusCode = 200 → ∃ authHeader req,
      request.headers "authorization" = some authHeader ∧
      Decoders.unmarshal .postWalletAddressRequest request.body = .ok req ∧
      VerifiedToken (Text.trimPrefix authHeader "Bearer ") req.userID ∧
      recoverSigner req.signature "Register wallet address" = some (hexToAddress req.walletAddress)

/-- A registration proves possession exactly if it is refused for another reason, or its
    signature is one of the address. -/
theorem provesPossession_iff {t : Keyed.Table Item.primaryKey} {request : APIGatewayProxyRequest} :
    ProvesPossession t request ↔ ∀ req, Checked request req →
      Unregistered t req.userID req.walletAddress →
        recoverSigner req.signature "Register wallet address" =
          some (hexToAddress req.walletAddress) := by
  constructor
  · intro h req hreq hnone
    obtain ⟨w', hrun⟩ := exists_runs_handler hreq hnone
    obtain ⟨authHeader, req', -, hdecoded, -, hsignature⟩ := h _ _ hrun rfl
    cases hreq.decoded.symm.trans hdecoded
    exact hsignature
  · intro h response w' hrun hstatus
    obtain ⟨req, hreq, hput⟩ := runs_handler hrun hstatus
    obtain ⟨authHeader, hheader, htoken⟩ := hreq.token
    exact ⟨authHeader, req, hheader, hreq.decoded, htoken,
      h req hreq (exists_runs_putUserWallet.1 ⟨w', hput⟩)⟩

end

/-! Somebody registers the zero address, without a signature. -/

section

/-- The request that the text of the body decodes to. -/
def unsigned : PostWalletAddressRequest where
  userID := "nobody"
  walletAddress := "0x0000000000000000000000000000000000000000"
  signature := "unsigned"

/-- The request, with a token of its user. -/
def unsignedRequest : APIGatewayProxyRequest where
  headers name := if name = "authorization" then some "Bearer token" else none
  body := "\x7b\"user_id\":\"nobody\"," ++
    "\"wallet_address\":\"0x0000000000000000000000000000000000000000\"," ++
    "\"signature\":\"unsigned\"\x7d"

/-- An environment with the token, as far as JSON is concerned for the one text. -/
@[reducible] def unsignedEnvironment : LambdaEnvironment where
  toEnvironment := Hardhat.environment
  unmarshal
    | .postWalletAddressRequest, src =>
      if src = unsignedRequest.body then .ok unsigned else .error "unexpected end of JSON input"
    | .signUpForm, _ => .error "unexpected end of JSON input"
  isEmail _ := true
  issuer := "https://cognito-idp.ap-northeast-1.amazonaws.com/pool"
  clientID := "client"
  parseString token _ :=
    if token = "token" then
      .ok fun name => if name = "cognito:username" then some (.string "nobody") else none
    else .error "invalid JWT"

attribute [local instance] unsignedEnvironment

/-- The signature of this request is no signature at all. -/
theorem not_provesPossession_unsigned : ¬ ProvesPossession .empty unsignedRequest := by
  have hreq : Checked unsignedRequest unsigned :=
    ⟨rfl, by decide +kernel, "Bearer token", rfl, _, rfl, rfl⟩
  obtain ⟨w', hrun⟩ := exists_runs_handler (t := .empty) hreq ⟨rfl, rfl, rfl⟩
  intro h
  obtain ⟨authHeader, req, -, hdecoded, -, hsignature⟩ := h _ _ hrun rfl
  cases hreq.decoded.symm.trans hdecoded
  have hnone : recoverSigner unsigned.signature "Register wallet address" = none := by
    decide +kernel
  rw [hnone] at hsignature
  cases hsignature

end

end Knowtfolio
