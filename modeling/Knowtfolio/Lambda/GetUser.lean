import Mathlib.Data.List.DropRight
import Knowtfolio.Data.Json
import Knowtfolio.Server.DynamoDB
import Knowtfolio.Server.Hardhat

/-!
# The page of a user

`infrastructure/function_scripts/cmd/get_user`: the function that tells the profile of a
user, from the attributes of the account, and the wallet address, from the address table.
The pool of accounts and the table know nothing of each other: an account need not have an
address.

Texts that may be missing are pointers (`deref`). So are the names and the values of the
attributes, and the address that the look-up returns, which is nil with an error. The error
is not looked at (`served_iff`).

Assumed is of Cognito that it answers with the account of the user name, if there is one.
-/

namespace Knowtfolio.GetUser

open Interaction DynamoDB

/-! ## The stores -/

/-- `types.AttributeType`. -/
structure AttributeType where
  name : Option String
  value : Option String
  deriving DecidableEq

/-- An account of the pool. -/
structure Account where
  userName : String
  attributes : List AttributeType
  deriving DecidableEq

/-- What the function reads: the pool, and the address table. -/
structure Stores where
  accounts : Keyed.Table Account.userName
  table : Table

/-- `cognitoidentityprovider.AdminGetUserOutput`. -/
structure AdminGetUserOutput where
  username : Option String
  userAttributes : List AttributeType
  deriving DecidableEq

/-- The calls of the function. -/
inductive UserOp
  | adminGetUser (username : String)
  /-- `GetItem`, of the attribute `value`. -/
  | getItem (type : KeyValueType) (key : String)

/-- The value of a call that succeeds. -/
def UserOp.Val : UserOp → Type
  | adminGetUser _ => AdminGetUserOutput
  | getItem _ _ => Option Attributes

/-- The calls, each answered by its value or an error. -/
abbrev userCalls : Signature := ⟨UserOp, fun o => Except Err o.Val⟩

/-- The function, or a part of it. -/
abbrev UserProg := Program userCalls Fault

/-- Whether a call is answered, or fails. -/
inductive Answering
  | ok
  | fail (message : String)
  deriving DecidableEq

/-- A call on the stores. -/
def Stores.exec (s : Stores) (o : UserOp) : Answering → Option (Except Err o.Val × Stores)
  | .fail message => some (.error (.external message), s)
  | .ok =>
    match o with
    | .adminGetUser username =>
      match s.accounts.get username with
      | none => some (.error (.external "UserNotFoundException: User does not exist."), s)
      | some a => some (.ok ⟨some a.userName, a.attributes⟩, s)
    | .getItem type key =>
      some (.ok ((s.table.get type key).map fun item => item.filter (·.1 = "value")), s)

/-! ## The function -/

/-- The panic of a nil pointer. -/
def nilPointer : Fault := .panic "invalid memory address or nil pointer dereference"

/-- What a pointer points to. -/
def deref {α : Type} : Option α → Except Fault α
  | some a => .ok a
  | none => .error nilPointer

/-- `searchAttribute`. -/
def searchAttribute (key : String) : List AttributeType → Except Fault String
  | [] => .ok ""
  | attr :: attrs =>
    match deref attr.name with
    | .error e => .error e
    | .ok name => if name = key then deref attr.value else searchAttribute key attrs

/-- `path.Base`. -/
def pathBase (path : String) : String :=
  let stripped := path.toList.rdropWhile (· = '/')
  let last := stripped.rtakeWhile (· ≠ '/')
  if path = "" then "." else if last = [] then "/" else String.ofList last

/-- What `getValue` makes of the answer to `GetItem`. -/
def decodeItem (kvType : KeyValueType) (key : String) :
    Except Err (Option Attributes) → Except Fault String
  | .error e => .error (.err e)
  | .ok none => .error (.err (.api .itemNotFound
      ("item for " ++ kvType.toString ++ "/" ++ key ++ " not found") .client))
  | .ok (some item) =>
    match item.lookup "value" with
    | some (.s value) => .ok value
    | some .other => .error (.panic ("interface conversion: types.AttributeValue is not " ++
        "*types.AttributeValueMemberS"))
    | none => .error (.err (valueFieldNotFound kvType key))

/-- `GetAddressByID`. -/
def getAddressByID (userID : String) : UserProg Address :=
  Program.ask (S := userCalls) (.getItem .userIDToWalletAddress userID) fun r =>
    Program.ofExcept ((decodeItem .userIDToWalletAddress userID r).map hexToAddress)

/-- `AdminGetUser`. -/
def adminGetUser (username : String) : UserProg AdminGetUserOutput :=
  Program.ask (S := userCalls) (.adminGetUser username) fun r =>
    Program.ofExcept (r.mapError .err)

/-- The error of a call as a value. A panic is none. -/
def caught {α : Type} : Fault → UserProg (Except Err α)
  | .err e => pure (.error e)
  | .panic m => .throw (.panic m)

/-- A result with its error. -/
def attempt {α : Type} (p : UserProg α) : UserProg (Except Err α) :=
  Program.handle caught (p >>= fun a => pure (.ok a))

/-- `models.UserInfo`. -/
structure UserInfo where
  userName : String
  websiteUrl : String
  iconUrl : String
  biography : String
  walletAddress : String
  deriving DecidableEq

/-- `json.Marshal`, which makes no errors of texts. -/
def marshalUserInfo (info : UserInfo) : String :=
  String.ofList (Json.writeObject [("username", info.userName), ("website_url", info.websiteUrl),
    ("icon_url", info.iconUrl), ("biography", info.biography),
    ("wallet_address", info.walletAddress)])

/-- `events.LambdaFunctionURLRequest`. -/
structure LambdaFunctionURLRequest where
  rawPath : String

/-- `events.LambdaFunctionURLResponse`. -/
structure LambdaFunctionURLResponse where
  statusCode : ℕ
  body : String
  deriving DecidableEq

section

variable [Crypto]

/-- `handler`. -/
def handler (request : LambdaFunctionURLRequest) : UserProg LambdaFunctionURLResponse := do
  let username := pathBase request.rawPath
  let user ← attempt (adminGetUser username)
  match user with
  | .error e => pure ⟨404, e.message⟩
  | .ok user => do
    let biography ← Program.ofExcept (searchAttribute "custom:description" user.userAttributes)
    let website ← Program.ofExcept (searchAttribute "website" user.userAttributes)
    let picture ← Program.ofExcept (searchAttribute "picture" user.userAttributes)
    -- With an error the address is nil.
    let address ← attempt (getAddressByID username)
    let userName ← Program.ofExcept (deref user.username)
    let address ← Program.ofExcept (deref address.toOption)
    pure ⟨200, marshalUserInfo ⟨userName, website, picture, biography, address.string⟩⟩

end

/-! ## Attributes -/

/-- The value of the first attribute of the name, or nothing. -/
def firstValue (key : String) (attrs : List AttributeType) : String :=
  ((attrs.find? (·.name = some key)).bind AttributeType.value).getD ""

/-- The attributes up to the first one of the name have names, and that one has a value. -/
def Searchable (key : String) (attrs : List AttributeType) : Prop :=
  (∀ attr ∈ attrs.takeWhile (·.name ≠ some key), attr.name ≠ none) ∧
    ∀ attr, attrs.find? (·.name = some key) = some attr → attr.value ≠ none

/-- A search finds the first value, or runs into a nil pointer. -/
theorem searchAttribute_cases (key : String) (attrs : List AttributeType) :
    (Searchable key attrs ∧ searchAttribute key attrs = .ok (firstValue key attrs)) ∨
      (¬ Searchable key attrs ∧ searchAttribute key attrs = .error nilPointer) := by
  induction attrs with
  | nil => exact .inl ⟨⟨nofun, nofun⟩, rfl⟩
  | cons attr attrs ih =>
    obtain ⟨name, value⟩ := attr
    cases name with
    | none =>
      -- The name is dereferenced before it is compared with the key.
      refine .inr ⟨fun h => ?_, rfl⟩
      exact h.1 ⟨none, value⟩ (by simp) rfl
    | some name =>
      by_cases hname : name = key
      · subst hname
        cases value with
        | none =>
          refine .inr ⟨fun h => ?_, by simp [searchAttribute, deref]⟩
          exact h.2 ⟨some name, none⟩ (by simp) rfl
        | some value =>
          exact .inl ⟨by simp [Searchable], by simp [searchAttribute, deref, firstValue]⟩
      · have hsearchable : Searchable key (⟨some name, value⟩ :: attrs) ↔ Searchable key attrs := by
          simp [Searchable, hname]
        have hfirst : firstValue key (⟨some name, value⟩ :: attrs) = firstValue key attrs := by
          simp [firstValue, hname]
        have hsearch : searchAttribute key (⟨some name, value⟩ :: attrs) =
            searchAttribute key attrs := by
          simp [searchAttribute, deref, hname]
        rw [hsearchable, hfirst, hsearch]
        exact ih

/-- The last element of a path. -/
theorem pathBase_append {dir name : String} (hname : name ≠ "") (hslash : '/' ∉ name.toList) :
    pathBase (dir ++ "/" ++ name) = name := by
  have hchars : name.toList ≠ [] := by simpa using hname
  have hpath : dir ++ "/" ++ name ≠ "" := by simp [hname]
  have htext : (dir ++ "/" ++ name).toList = dir.toList ++ '/' :: name.toList := by simp
  have hstripped : (dir.toList ++ '/' :: name.toList).rdropWhile (· = '/') =
      dir.toList ++ '/' :: name.toList := by
    -- The text ends with a character of the name.
    rw [List.rdropWhile_eq_self_iff]
    intro hne
    have hlast : (dir.toList ++ '/' :: name.toList).getLast hne ∈ name.toList := by
      rw [List.getLast_append_of_ne_nil _ (by simp), List.getLast_cons hchars]
      exact List.getLast_mem hchars
    have hne : ∀ c ∈ name.toList, c ≠ '/' := fun c hc heq => hslash (heq ▸ hc)
    simpa using hne _ hlast
  have hlast : (dir.toList ++ '/' :: name.toList).rtakeWhile (· ≠ '/') = name.toList := by
    rw [List.rtakeWhile, List.reverse_append, List.reverse_cons, List.append_assoc,
      List.takeWhile_append_of_pos, List.singleton_append, List.takeWhile_cons_of_neg,
      List.append_nil, List.reverse_reverse]
    · simp
    · intro c hc
      have hne : c ≠ '/' := fun heq => hslash (heq ▸ List.mem_reverse.1 hc)
      simpa using hne
  simp only [pathBase, htext, hstripped, hlast, if_neg hpath, if_neg hchars, String.ofList_toList]

/-! ## The page -/

/-- What the look-up of the address returns. -/
def lookUp (s : Stores) (userName : String) : Answering → Except Fault Address
  | .fail message => .error (.err (.external message))
  | .ok => (decodeItem .userIDToWalletAddress userName
      (.ok ((s.table.get .userIDToWalletAddress userName).map fun item =>
        item.filter (·.1 = "value")))).map hexToAddress

/-- The names of the attributes that make the profile. -/
def profileKeys : List String := ["custom:description", "website", "picture"]

/-- What the page of an account tells, with the wallet address given. -/
def Account.userInfo (a : Account) (walletAddress : String) : UserInfo where
  userName := a.userName
  websiteUrl := firstValue "website" a.attributes
  iconUrl := firstValue "picture" a.attributes
  biography := firstValue "custom:description" a.attributes
  walletAddress := walletAddress

/-- Only the attribute `value` of an item matters to a search for it. -/
theorem lookup_filter_value (item : Attributes) :
    (item.filter (·.1 = "value")).lookup "value" = item.lookup "value" := by
  induction item with
  | nil => rfl
  | cons attr item ih =>
    obtain ⟨name, value⟩ := attr
    by_cases hname : name = "value"
    · subst hname
      simp
    · have hbeq : ("value" == name) = false := by simpa using Ne.symm hname
      rw [List.filter_cons_of_neg (by simpa using hname), ih, List.lookup_cons, hbeq]

/-- A look-up returns an address exactly if it is answered with the text of one. -/
theorem lookUp_eq_ok {s : Stores} {userName : String} {c : Answering} {address : Address} :
    lookUp s userName c = .ok address ↔ c = .ok ∧ ∃ value,
      s.table.value .userIDToWalletAddress userName = some (.s value) ∧
        hexToAddress value = address := by
  cases c with
  | fail message => simp [lookUp]
  | ok =>
    cases hitem : s.table.get .userIDToWalletAddress userName with
    | none => simp [lookUp, Table.value, hitem, decodeItem, Except.map]
    | some item =>
      have hvalue : s.table.value .userIDToWalletAddress userName = item.lookup "value" := by
        rw [Table.value, hitem, Option.bind_some]
      rw [lookUp, hitem, Option.map_some, decodeItem, lookup_filter_value, hvalue]
      cases item.lookup "value" with
      | none => simp [Except.map]
      | some value => cases value <;> simp [Except.map]

section

variable [Crypto] {s s' : Stores} {a : Account} {request : LambdaFunctionURLRequest}
  {c : Answering} {r : Except Fault LambdaFunctionURLResponse}

omit [Crypto] in
/-- The user pool has the account that the path names. -/
theorem runLeaving_attempt_adminGetUser (ha : a ∈ s.accounts.rows) (cs : List Answering) :
    Program.runLeaving Stores.exec s (attempt (adminGetUser a.userName)) (.ok :: cs) =
      some ((.ok (.ok ⟨some a.userName, a.attributes⟩), s), cs) := by
  have hexec : s.exec (.adminGetUser a.userName) .ok =
      some (.ok ⟨some a.userName, a.attributes⟩, s) := by
    simp only [Stores.exec, Keyed.Table.get_key_of_mem ha]
  have hcall : Program.runLeaving Stores.exec s (adminGetUser a.userName) (.ok :: cs) =
      some ((.ok ⟨some a.userName, a.attributes⟩, s), cs) := by
    show (s.exec (.adminGetUser a.userName) .ok).bind _ = _
    rw [hexec, Option.bind_some]
    exact Program.runLeaving_ofExcept (S := userCalls)
  rw [attempt, Program.runLeaving_handle, Program.runLeaving_bind, hcall]
  simp [Program.runLeaving_ret]

omit [Crypto] in
/-- The address is looked up in the table, if the call does not fail. -/
theorem runLeaving_attempt_getAddressByID (userName : String) (cs : List Answering) :
    Program.runLeaving Stores.exec s (attempt (getAddressByID userName)) (c :: cs) =
      some ((match lookUp s userName c with
        | .ok address => .ok (.ok address)
        | .error (.err e) => .ok (.error e)
        | .error (.panic m) => .error (.panic m), s), cs) := by
  rw [attempt, Program.runLeaving_handle, Program.runLeaving_bind]
  have hcall : Program.runLeaving Stores.exec s (getAddressByID userName) (c :: cs) =
      some ((lookUp s userName c, s), cs) := by
    cases c <;> exact Program.runLeaving_ofExcept (S := userCalls)
  rw [hcall]
  rcases lookUp s userName c with (e | m) | address <;>
    simp [caught, Program.runLeaving_ret, Program.runLeaving_throw]

omit [Crypto] in
/-- The program goes on with the value that a search finds, or ends with a panic. -/
theorem run_searchAttribute_bind {α : Type} (key : String) (attrs : List AttributeType)
    (f : String → UserProg α) (cs : List Answering) :
    (Searchable key attrs ∧
        Program.run Stores.exec s (Program.ofExcept (searchAttribute key attrs) >>= f) cs =
          Program.run Stores.exec s (f (firstValue key attrs)) cs) ∨
      (¬ Searchable key attrs ∧
        Program.run Stores.exec s (Program.ofExcept (searchAttribute key attrs) >>= f) cs =
          some (.error nilPointer, s)) := by
  rcases searchAttribute_cases key attrs with ⟨hsearchable, hsearch⟩ | ⟨hsearchable, hsearch⟩
  · refine .inl ⟨hsearchable, ?_⟩
    rw [hsearch, Program.ofExcept_ok, Program.ret_bind]
  · refine .inr ⟨hsearchable, ?_⟩
    rw [hsearch, Program.ofExcept_error, Program.throw_bind]
    cases cs <;> rfl

/-- The page, or the panic, that the searches and the look-up make. -/
theorem run_handler (ha : a ∈ s.accounts.rows) (hpath : pathBase request.rawPath = a.userName) :
    (∀ key ∈ profileKeys, Searchable key a.attributes) ∧ (∃ address,
        lookUp s a.userName c = .ok address ∧
        Program.run Stores.exec s (handler request) [.ok, c] =
          some (.ok ⟨200, marshalUserInfo (a.userInfo address.string)⟩, s)) ∨
      (¬ ((∀ key ∈ profileKeys, Searchable key a.attributes) ∧
          ∃ address, lookUp s a.userName c = .ok address) ∧
        ∃ m, Program.run Stores.exec s (handler request) [.ok, c] =
          some (.error (.panic m), s)) := by
  have hrun : Program.run Stores.exec s (handler request) [.ok, c] =
      Program.run Stores.exec s (do
        let biography ← Program.ofExcept (searchAttribute "custom:description" a.attributes)
        let website ← Program.ofExcept (searchAttribute "website" a.attributes)
        let picture ← Program.ofExcept (searchAttribute "picture" a.attributes)
        let address ← attempt (getAddressByID a.userName)
        let userName ← Program.ofExcept (deref (some a.userName))
        let address ← Program.ofExcept (deref address.toOption)
        pure ⟨200, marshalUserInfo ⟨userName, website, picture, biography, address.string⟩⟩) [c] := by
    rw [handler, hpath, Program.run_bind, runLeaving_attempt_adminGetUser ha]
    rfl
  rw [hrun]
  -- The first search that fails ends the request.
  rcases run_searchAttribute_bind "custom:description" a.attributes _ _ with
    ⟨hdescription, hnext⟩ | ⟨hdescription, hpanic⟩
  swap
  · exact .inr ⟨fun h => hdescription (h.1 _ (by simp [profileKeys])), _, hpanic⟩
  rw [hnext]
  rcases run_searchAttribute_bind "website" a.attributes _ _ with
    ⟨hwebsite, hnext⟩ | ⟨hwebsite, hpanic⟩
  swap
  · exact .inr ⟨fun h => hwebsite (h.1 _ (by simp [profileKeys])), _, hpanic⟩
  rw [hnext]
  rcases run_searchAttribute_bind "picture" a.attributes _ _ with
    ⟨hpicture, hnext⟩ | ⟨hpicture, hpanic⟩
  swap
  · exact .inr ⟨fun h => hpicture (h.1 _ (by simp [profileKeys])), _, hpanic⟩
  rw [hnext, Program.run_bind, runLeaving_attempt_getAddressByID]
  cases haddress : lookUp s a.userName c with
  | ok address =>
    exact .inl ⟨by simp [profileKeys, hdescription, hwebsite, hpicture], address, rfl,
      by simp [deref]; rfl⟩
  | error e =>
    refine .inr ⟨?_, ?_⟩
    · rintro ⟨-, address, ⟨⟩⟩
    cases e with
    | err e => exact ⟨_, rfl⟩
    | panic m => exact ⟨m, rfl⟩

/-- What the page of an account is to be, given how the look-up of its address goes. -/
structure Served (s : Stores) (a : Account) (c : Answering)
    (r : Except Fault LambdaFunctionURLResponse) : Prop where
  returns : ∃ response, r = .ok response
  unregistered : c = .ok → s.table.get .userIDToWalletAddress a.userName = none →
    r = .ok ⟨200, marshalUserInfo (a.userInfo "")⟩
  registered : ∀ value, c = .ok →
    s.table.value .userIDToWalletAddress a.userName = some (.s value) →
    r = .ok ⟨200, marshalUserInfo (a.userInfo (hexToAddress value).string)⟩

/-- The page is as it is to be exactly if the attributes can be searched and the look-up
    finds an address. -/
theorem served_iff (ha : a ∈ s.accounts.rows) (hpath : pathBase request.rawPath = a.userName)
    (hrun : Program.run Stores.exec s (handler request) [.ok, c] = some (r, s')) :
    Served s a c r ↔ (∀ key ∈ profileKeys, Searchable key a.attributes) ∧ c = .ok ∧
      ∃ value, s.table.value .userIDToWalletAddress a.userName = some (.s value) := by
  have hlookUp : (∃ address, lookUp s a.userName c = .ok address) ↔ c = .ok ∧
      ∃ value, s.table.value .userIDToWalletAddress a.userName = some (.s value) := by
    simp [lookUp_eq_ok]
  rw [← hlookUp]
  rcases run_handler (c := c) ha hpath with ⟨hsearch, address, haddress, hpage⟩ | ⟨hnone, m, hpanic⟩
  · cases hrun.symm.trans hpage
    refine iff_of_true ?_ ⟨hsearch, address, haddress⟩
    obtain ⟨-, value, hvalue, rfl⟩ := lookUp_eq_ok.1 haddress
    refine ⟨⟨_, rfl⟩, fun _ hget => ?_, fun value' _ hvalue' => ?_⟩
    · simp [Table.value, hget] at hvalue
    · cases hvalue.symm.trans hvalue'
      rfl
  · cases hrun.symm.trans hpanic
    refine iff_of_false (fun h => ?_) hnone
    obtain ⟨response, hresponse⟩ := h.returns
    cases hresponse

end

/-! The page of an account with an address, and without one. -/

section

attribute [local instance] Hardhat.environment

/-- An account with a profile. -/
def alice : Account where
  userName := "alice"
  attributes := [⟨some "picture", some "https://example.com/alice.png"⟩,
    ⟨some "custom:description", some "Writes about cats."⟩]

/-- The pool with the account, and an address table. -/
def storesWith (table : Table) : Stores := ⟨Keyed.Table.empty.put alice, table⟩

/-- The table in which the account has an address. -/
def registeredTable : Table :=
  Table.empty.put ⟨.userIDToWalletAddress, "alice", Hardhat.author.string⟩

/-- The request for the page of the account. -/
def aliceRequest : LambdaFunctionURLRequest := ⟨"/users" ++ "/" ++ "alice"⟩

/-- The user that is asked for in the example. -/
theorem pathBase_aliceRequest : pathBase aliceRequest.rawPath = alice.userName :=
  pathBase_append (by decide) (by decide)

/-- There is the account of `alice`. -/
theorem mem_storesWith (table : Table) : alice ∈ (storesWith table).accounts.rows := by
  simp [storesWith]

/-- All attributes of `alice` have a name and a value. -/
theorem searchable_alice : ∀ key ∈ profileKeys, Searchable key alice.attributes := by
  simp [profileKeys, Searchable, alice]

/-- The user has a wallet, and its address is shown. -/
theorem served_registered : ∃ r s', Program.run Stores.exec (storesWith registeredTable)
    (handler aliceRequest) [.ok, .ok] = some (r, s') ∧
      Served (storesWith registeredTable) alice .ok r := by
  have hvalue : (storesWith registeredTable).table.value .userIDToWalletAddress alice.userName =
      some (.s Hardhat.author.string) := rfl
  rcases run_handler (c := .ok) (mem_storesWith registeredTable) pathBase_aliceRequest with
    ⟨-, address, -, hrun⟩ | ⟨hnone, -⟩
  · exact ⟨_, _, hrun, (served_iff (mem_storesWith _) pathBase_aliceRequest hrun).2
      ⟨searchable_alice, rfl, _, hvalue⟩⟩
  · exact absurd ⟨searchable_alice, _, lookUp_eq_ok.2 ⟨rfl, _, hvalue, rfl⟩⟩ hnone

/-- The user has no wallet: the function goes on with no address, and panics. -/
theorem not_served_unregistered : ∃ r s', Program.run Stores.exec (storesWith .empty)
    (handler aliceRequest) [.ok, .ok] = some (r, s') ∧
      ¬ Served (storesWith .empty) alice .ok r := by
  have hlookUp : ∀ address, lookUp (storesWith .empty) alice.userName .ok ≠ .ok address := nofun
  rcases run_handler (c := .ok) (mem_storesWith .empty) pathBase_aliceRequest with
    ⟨-, address, haddress, -⟩ | ⟨-, m, hrun⟩
  · exact absurd haddress (hlookUp address)
  · refine ⟨_, _, hrun, fun h => ?_⟩
    obtain ⟨response, hresponse⟩ := h.returns
    cases hresponse

end

end Knowtfolio.GetUser
