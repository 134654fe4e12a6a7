import Knowtfolio.Client.Forms
import Knowtfolio.Client.MintArticle
import Knowtfolio.Lambda.PostWalletAddress
import Knowtfolio.Server.Ownership

/-!
# Registering a wallet from the client

`client/src/components/organisms/forms/RegisterWalletForm`: the account of the wallet signs a
text, and is posted with the name of the user, whose token is sent along. The Lambda function
`post_wallet_address` puts three items into the address table, if none of them is there.

The form warns that a wallet address can be neither changed nor removed. So it is: from every
configuration that a run of the server reaches, a user who has none can register an address that
is nobody's; and from then on, whatever is requested, the user has this address, and a nonce to
sign, and every other registration of the user or of the address is refused
(`registerWalletAddress_reaches`).
-/

namespace Knowtfolio

open Interaction Machine

/-! ## The request -/

/-- `sessionToHeader`, by the names of headers in lower case. -/
def Client.sessionToHeader (idToken : String) (name : String) : Option String :=
  if name = "authorization" then some ("Bearer " ++ idToken) else none

/-- `postWalletAddress`. -/
def Client.postWalletAddress (userId walletAddress signature idToken : String) :
    APIGatewayProxyRequest where
  headers := sessionToHeader idToken
  body := stringify [("user_id", userId), ("wallet_address", walletAddress),
    ("signature", signature)]

/-- `registerWalletAddress`, given what the wallet signs. -/
def Client.registerWalletAddress (username account idToken : String) (sign : String → String) :
    APIGatewayProxyRequest :=
  postWalletAddress username account (sign "Register wallet address") idToken

/-- What the form posts is what the function reads. -/
theorem unmarshal_registration (userID walletAddress signature : String) :
    Json.unmarshal PreSignUp.decodeRequest (Client.stringify [("user_id", userID),
      ("wallet_address", walletAddress), ("signature", signature)]) =
      .ok ⟨userID, walletAddress, signature⟩ := by
  have hnames : ([("user_id", userID), ("wallet_address", walletAddress),
      ("signature", signature)].map fun m => Json.foldName m.1).Nodup := by
    show [Json.foldName "user_id", Json.foldName "wallet_address", Json.foldName "signature"].Nodup
    decide
  rw [Client.unmarshal_stringify]
  simp only [PreSignUp.decodeRequest, Json.decodeStruct]
  rw [Json.stringField_of_mem_texts hnames (s := userID) (by simp),
    Json.stringField_of_mem_texts hnames (s := walletAddress) (by simp),
    Json.stringField_of_mem_texts hnames (s := signature) (by simp)]
  rfl

/-- What the function runs on, apart from the decoder of JSON. -/
class WalletFunction extends Environment, Cognito where
  isEmail : String → Bool

section

variable [WalletFunction]

/-- The environment with the decoder of JSON. -/
@[reducible] instance walletEnvironment : LambdaEnvironment where
  unmarshal
    | .signUpForm, src => (Json.unmarshal PreSignUp.decodeForm src).mapError PreSignUp.decodeError
    | .postWalletAddressRequest, src =>
      (Json.unmarshal PreSignUp.decodeRequest src).mapError PreSignUp.decodeError
  isEmail := WalletFunction.isEmail

/-- An address is never written as the empty text. -/
theorem string_ne_empty (a : Address) : a.string ≠ "" := fun h => by
  have := congrArg Hex.utf8 h
  rw [Address.string, utf8_spell] at this
  cases this

/-- The request passes the checks of the function, if its token is one of the user. -/
theorem checked_registerWalletAddress {user idToken : String} {a : Address}
    {sign : String → String} (htoken : VerifiedToken idToken user) (huser : user ≠ "")
    (hsign : sign "Register wallet address" ≠ "") :
    Checked (Client.registerWalletAddress user a.string idToken sign)
      ⟨user, a.string, sign "Register wallet address"⟩ where
  decoded := by
    show (Json.unmarshal PreSignUp.decodeRequest (Client.stringify [("user_id", user),
      ("wallet_address", a.string), ("signature", sign "Register wallet address")])).mapError _ = _
    rw [unmarshal_registration]
    rfl
  tags := by
    have heth : isEthAddr a.string = true := isEthAddr_iff.2 ⟨a, .inr (.inr rfl)⟩
    simp [TagsHold, taggedFields, required, huser, hsign, heth, string_ne_empty a]
  token := ⟨_, rfl, by rwa [Text.trimPrefix_append]⟩

/-! ## Serving it -/

variable {w w' : World} {user : String} {a : Address} {n : Hash}

/-- The world after the user has registered the address. -/
def World.registered (w : World) (user : String) (a : Address) (n : Hash) : World :=
  { w with
    nonces := n :: w.nonces
    items := (userWalletItems user a.string n).foldl Keyed.Table.put w.items }

/-- What is to be put is not there, so it is put. -/
theorem runs_putUserWallet_ok (hnone : Unregistered w.items user a.string) (hfresh : n ∉ w.nonces) :
    Program.Runs World.exec w (putUserWallet user a.string) (.ok ()) (w.registered user a n) := by
  obtain ⟨hwallet, hnonce, haddress⟩ := hnone
  have hreason : ∀ i ∈ (userWalletItems user a.string n).map TransactWriteItem.put,
      i.reason w.items = .none := by
    simp [userWalletItems, TransactWriteItem.reason, Item.primaryKey, hwallet, hnonce, haddress]
  exact (runs_mapErr_call (World.exec_generateNonce hfresh)).bind
    (runs_mapErr_call (World.exec_transactWriteItems hreason))

/-- After the transaction, the user has the address and a nonce. -/
theorem registered_registered : (w.registered user a n).Registered user a n := by
  have hmem : ∀ i ∈ userWalletItems user a.string n, i ∈ (w.registered user a n).items.rows := by
    simp [World.registered, userWalletItems, Keyed.Table.mem_put, Item.primaryKey]
  exact ⟨World.lookup_eq_some.2 (hmem _ (.head _)),
    World.lookup_eq_some.2 (hmem _ (.tail _ (.tail _ (.head _)))),
    World.lookup_eq_some.2 (hmem _ (.tail _ (.head _)))⟩

/-- Only another user can register, and only another address. -/
theorem refused_of_registered (h : w.Registered user a n) {request : APIGatewayProxyRequest}
    {response : APIGatewayProxyResponse}
    (hrun : Program.Runs World.exec w (handler request) (.ok response) w')
    (hstatus : response.statusCode = 200) :
    ∃ req, Checked request req ∧ req.userID ≠ user ∧ req.walletAddress ≠ a.string := by
  obtain ⟨req, hreq, hput⟩ := runs_handler hrun hstatus
  rcases runs_putUserWallet hput with ⟨hne, -⟩ | ⟨n', w₁, hitems, heff⟩
  · exact absurd rfl hne
  obtain ⟨hnone, -⟩ := World.mem_items_of_transact
    (by simp [userWalletItems, Item.primaryKey]) heff
  rw [hitems] at hnone
  have hwallet : w.lookup .userIDToWalletAddress req.userID = none :=
    congrArg _ (hnone _ (.head _))
  have haddress : w.lookup .walletAddressToUserID req.walletAddress = none :=
    congrArg _ (hnone _ (.tail _ (.tail _ (.head _))))
  refine ⟨req, hreq, fun huser => ?_, fun heq => ?_⟩
  · rw [huser, h.lookupAddress] at hwallet
    cases hwallet
  · rw [heq, h.lookupUser] at haddress
    cases haddress

/-! ## From every configuration -/

variable {ok : server.Config → server.Move → Prop} {c c' : server.Config}

/-- A user who has a nonce always has one. -/
theorem nonce_mono (h : Run ok c) (h' : Reaches ok c c')
    (hn : ⟨.userIDToNonce, user, Hash.hex n⟩ ∈ c.world.items.rows) :
    ∃ n', ⟨.userIDToNonce, user, Hash.hex n'⟩ ∈ c'.world.items.rows := by
  refine h'.induction (fun c' : server.Config =>
    ∃ n', ⟨.userIDToNonce, user, Hash.hex n'⟩ ∈ c'.world.items.rows) ⟨n, hn⟩
    (fun _ _ _ hc _ => hc) ?_ ?_
  · rintro c₁ i ch th o k ans w' h₁ ⟨n', hc⟩ _ ht hk he
    rcases World.exec_cases he with ⟨e, rfl, rfl⟩ | ⟨v, rfl, heff⟩
    · exact ⟨n', hc⟩
    have hperm := (asks_of_rest (h.trans h₁) ht hk).2
    cases o with
    | putItem item =>
      obtain ⟨-, rfl⟩ := heff
      -- A nonce of the same user takes the place of the old one.
      obtain ⟨_, _, _, user', n'', -, rfl, -⟩ := hperm
      by_cases huser : user' = user
      · subst huser
        exact ⟨n'', Keyed.Table.mem_put.2 (.inr rfl)⟩
      · exact ⟨n', Keyed.Table.mem_put.2 (.inl
          ⟨hc, fun hkey => huser (congrArg Prod.snd hkey).symm⟩)⟩
    | transactWriteItems items =>
      -- A registration puts new items only.
      obtain ⟨userID, walletAddress, n'', -, rfl, -⟩ := hperm
      obtain ⟨-, hmem⟩ :=
        World.mem_items_of_transact (by simp [userWalletItems, Item.primaryKey]) heff
      exact ⟨n', (hmem _).2 (.inl hc)⟩
    | _ => exact ⟨n', (heff.changes.items rfl) ▸ hc⟩
  · rintro c₁ x w' _ ⟨n', hc⟩ _ hx
    have hitems : w'.items = c₁.world.items := World.items_of_act hx
    exact ⟨n', hitems ▸ hc⟩

/-- A user who has registered an address stays so. -/
theorem registered_mono (h : Run ok c) (h' : Reaches ok c c') (hc : c.world.Registered user a n) :
    ∃ n', c'.world.Registered user a n' := by
  obtain ⟨n', hnonce⟩ := nonce_mono h h' (World.lookup_eq_some.1 hc.lookupNonce)
  have hmem : ∀ {i : Item}, i ∈ c.world.items.rows → i.type ≠ .userIDToNonce →
      i ∈ c'.world.items.rows := items_mono h h'
  exact ⟨n', World.lookup_eq_some.2 (hmem (World.lookup_eq_some.1 hc.lookupAddress)
      (fun h => by cases h)),
    World.lookup_eq_some.2 (hmem (World.lookup_eq_some.1 hc.lookupUser) (fun h => by cases h)),
    World.lookup_eq_some.2 hnonce⟩

/-- From every configuration that a run reaches, a user without a wallet can register an address
    that is nobody's; and then it is the user's for ever. -/
theorem registerWalletAddress_reaches (h : Run Any c)
    (hnone : Unregistered c.world.items user a.string) (hfresh : ∃ n, n ∉ c.world.nonces)
    (huser : user ≠ "") {idToken : String} (htoken : VerifiedToken idToken user)
    (sign : String → String) (hsign : sign "Register wallet address" ≠ "") :
    ∃ c', Reaches Any (c.arrive (.putUserWallet user a.string)) c' ∧
      Program.Runs World.exec c.world
        (handler (Client.registerWalletAddress user a.string idToken sign)) (.ok ⟨200, ""⟩)
        c'.world ∧
      ∀ c'', Reaches Any c' c'' → (∃ n, c''.world.Registered user a n) ∧
        ∀ request response w', Program.Runs World.exec c''.world (handler request)
          (.ok response) w' → response.statusCode = 200 →
          ∃ req, Checked request req ∧ req.userID ≠ user ∧ req.walletAddress ≠ a.string := by
  obtain ⟨n, hn⟩ := hfresh
  have hput := runs_putUserWallet_ok hnone hn
  have hthread : (c.arrive (.putUserWallet user a.string)).threads[c.threads.length]? =
      some ⟨.putUserWallet user a.string, [], serve (.putUserWallet user a.string)⟩ := by
    simp [Config.arrive]
  obtain ⟨c', -, hreaches, hworld, -⟩ :=
    exists_reaches_of_runs Any (fun _ _ _ => trivial) hthread (hput.bind .ret)
  have hregistered : c'.world.Registered user a n := hworld ▸ registered_registered
  have hrun : Run Any c' := (h.move (m := .arrive _) trivial rfl).trans hreaches
  refine ⟨c', hreaches, ?_, fun c'' h'' => ?_⟩
  · rw [handler_of_checked (checked_registerWalletAddress htoken huser hsign), hworld,
      registerWallet]
    exact Program.runs_handle.2 (.inl ⟨_, hput.bind .ret, rfl⟩)
  · obtain ⟨n', hn'⟩ := registered_mono hrun h'' hregistered
    exact ⟨⟨n', hn'⟩, fun request response w' => refused_of_registered hn'⟩

end

/-! The author registers while the server has articles, and another user. -/

section

/-- An environment with a token of the user. -/
@[reducible] def tokenEnvironment : WalletFunction where
  toEnvironment := Hardhat.environment
  isEmail _ := true
  issuer := "https://cognito-idp.ap-northeast-1.amazonaws.com/pool"
  clientID := "client"
  parseString token _ :=
    if token = "token" then
      .ok fun name => if name = "cognito:username" then some (.string "author") else none
    else .error "invalid JWT"

attribute [local instance] tokenEnvironment

open Hardhat

/-- The author registers a wallet, next to a buyer who has one already. -/
theorem registerWalletAddress_reaches_author : ∃ c c' : server.Config, Run Any c ∧
    Reaches Any (c.arrive (.putUserWallet "author" author.string)) c' ∧
    (∃ n, c'.world.Registered "author" author n) ∧ c.world.wallet "buyer" = some buyer := by
  obtain ⟨c, h, hp⟩ := exists_reaches_of_run (fun _ _ => true) (registerBuyer 0)
    (.initial World.initial) (fun c => Unregistered c.world.items "author" author.string ∧
      (0 : Hash) ∉ c.world.nonces ∧ c.world.wallet "buyer" = some buyer) (by decide +kernel)
  obtain ⟨hnone, hfresh, hbuyer⟩ := of_decide_eq_true hp
  have htoken : VerifiedToken "token" "author" := ⟨_, rfl, rfl⟩
  obtain ⟨c', h', -, hstays⟩ := registerWalletAddress_reaches h.any hnone ⟨0, hfresh⟩ (by decide)
    htoken (fun _ => "0x") (by decide)
  exact ⟨c, c', h.any, h', (hstays c' .refl).1, hbuyer⟩

end

end Knowtfolio
