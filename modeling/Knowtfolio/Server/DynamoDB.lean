import Knowtfolio.Server.AddressBook

/-!
# The answers of DynamoDB

`server/gateways/aws/dynamodb.go`, with the answers of DynamoDB as they come: items are
maps of attributes, of which the code looks up the ones that it needs, and asks their type;
a transaction that is cancelled gives a reason for each of its actions, in their order, any
field of which may be missing. The functions are programs over these answers
(`putUserWallet`, `getAndReplaceNonceByID`). Those of the address table, which the rest of
the server is proved with, do the same (`simulates_putUserWallet`,
`simulates_getAndReplaceNonceByID`).

A registration puts its three items, or nothing, and tells which of the two it was, and why
(`allOrNothing`). The replacement of a nonce looks at the result of its call, and not at the
error (`rotated_iff`).

Assumed is of DynamoDB that a transaction is atomic, and that the reason given for a
condition that failed has the code `ConditionalCheckFailed`, a message, and the item that
was there.
-/

namespace Knowtfolio.DynamoDB

open Interaction

/-! ## Items -/

/-- `types.AttributeValue`: a text (`types.AttributeValueMemberS`), or another value. -/
inductive AttributeValue
  | s (value : String)
  | other
  deriving DecidableEq

/-- A `map[string]types.AttributeValue`. -/
abbrev Attributes := List (String × AttributeValue)

/-- The attributes of an item that is put. -/
def attributes (i : Item) : Attributes :=
  [("type", .s i.type.toString), ("key", .s i.key), ("value", .s i.value)]

/-- The key of an item, as it stands in the table. -/
def itemKey (i : Item) : String × String := (i.type.toString, i.key)

/-- The table: an item, or none, for every key, which is among the attributes of the item. -/
@[ext] structure Table where
  items : String × String → Option Attributes
  keyed : ∀ {k a}, items k = some a →
    a.lookup "type" = some (.s k.1) ∧ a.lookup "key" = some (.s k.2)

namespace Table

/-- Nothing is in the table. -/
def empty : Table := ⟨fun _ => none, nofun⟩

/-- The table with an item, in the place of the item of its key. -/
def put (t : Table) (i : Item) : Table where
  items := Function.update t.items (itemKey i) (some (attributes i))
  keyed {k a} h := by
    by_cases hk : k = itemKey i
    · subst hk
      rw [Function.update_self] at h
      cases h
      exact ⟨rfl, rfl⟩
    · rw [Function.update_of_ne hk] at h
      exact t.keyed h

/-- The table without the item of a key. -/
def erase (t : Table) (type : KeyValueType) (key : String) : Table where
  items := Function.update t.items (type.toString, key) none
  keyed {k a} h := by
    by_cases hk : k = (type.toString, key)
    · rw [hk, Function.update_self] at h
      cases h
    · rw [Function.update_of_ne hk] at h
      exact t.keyed h

/-- The item of a key. -/
def get (t : Table) (type : KeyValueType) (key : String) : Option Attributes :=
  t.items (type.toString, key)

/-- The attribute `value` of the item of a key. -/
def value (t : Table) (type : KeyValueType) (key : String) : Option AttributeValue :=
  (t.get type key).bind (·.lookup "value")

/-- What was put is there. -/
@[simp] theorem put_items_self (t : Table) (i : Item) :
    (t.put i).items (itemKey i) = some (attributes i) :=
  Function.update_self _ _ _

/-- Other keys keep what they have. -/
theorem put_items_of_ne (t : Table) {i : Item} {k : String × String} (hk : k ≠ itemKey i) :
    (t.put i).items k = t.items k :=
  Function.update_of_ne hk _ _

/-- Items of different keys are there when they are put one after the other, and nothing
    else has changed. -/
theorem items_foldl_put {l : List Item} (t : Table) (hl : (l.map itemKey).Nodup) :
    (∀ i ∈ l, (l.foldl put t).items (itemKey i) = some (attributes i)) ∧
      ∀ k, (∀ i ∈ l, itemKey i ≠ k) → (l.foldl put t).items k = t.items k := by
  induction l generalizing t with
  | nil => exact ⟨nofun, fun _ _ => rfl⟩
  | cons i l ih =>
    rw [List.map_cons, List.nodup_cons] at hl
    obtain ⟨hput, hframe⟩ := ih (t.put i) hl.2
    have hi : ∀ j ∈ l, itemKey j ≠ itemKey i := fun j hj heq =>
      hl.1 (heq ▸ List.mem_map_of_mem hj)
    refine ⟨fun j hj => ?_, fun k hk => ?_⟩
    · rcases List.mem_cons.1 hj with rfl | hj
      · rw [List.foldl_cons, hframe _ hi, put_items_self]
      · exact hput j hj
    · rw [List.foldl_cons, hframe k fun j hj => hk j (List.mem_cons_of_mem _ hj)]
      exact t.put_items_of_ne (hk i List.mem_cons_self).symm

end Table

/-! ## Calls -/

/-- `types.CancellationReason`. -/
structure Reason where
  code : Option String
  item : Attributes
  message : Option String
  deriving DecidableEq

/-- An error of `TransactWriteItems`. -/
inductive TransactionError
  /-- `types.TransactionCanceledException`. -/
  | canceled (reasons : List Reason)
  | other (e : Err)

/-- The calls of the client, to DynamoDB and to the random generator. -/
inductive StoreOp
  | generateNonce
  /-- `PutItem`, returning all old attributes. -/
  | putItem (item : Item)
  | transactWriteItems (actions : List TransactWriteItem)

/-- The answers to a call. -/
def StoreOp.Ans : StoreOp → Type
  | generateNonce => Except Err Hash
  | putItem _ => Except Err Attributes
  | transactWriteItems _ => Except TransactionError Unit

/-- The calls, with their answers. -/
abbrev storeCalls : Signature := ⟨StoreOp, StoreOp.Ans⟩

/-- A function of the client. -/
abbrev StoreProg := Program storeCalls Fault

/-- The item on which the condition of an action fails. -/
def Table.conflict (t : Table) : TransactWriteItem → Option Attributes
  | .put item => t.items (itemKey item)
  | .delete _ _ => none

/-- The table after an action. -/
def Table.apply (t : Table) : TransactWriteItem → Table
  | .put item => t.put item
  | .delete type key => t.erase type key

/-- The code of a condition that failed. -/
def conditionalCheckFailed : String := "ConditionalCheckFailed"

/-- The reason is one for the action: it tells whether its condition failed, and on which
    item. -/
def Table.Explains (t : Table) (action : TransactWriteItem) (reason : Reason) : Prop :=
  match t.conflict action with
  | some old => reason.code = some conditionalCheckFailed ∧ reason.item = old ∧
      reason.message.isSome = true
  | none => reason.code ≠ some conditionalCheckFailed

instance (t : Table) (action : TransactWriteItem) (reason : Reason) :
    Decidable (t.Explains action reason) := by
  unfold Table.Explains
  split <;> infer_instance

/-- What DynamoDB and the random generator do with a call. -/
inductive StoreChoice
  | nonce (n : Hash)
  | applied
  /-- The transaction is cancelled, for the reasons given. -/
  | canceled (reasons : List Reason)
  | failed (e : Err)

/-- A call on the table. -/
def exec (t : Table) : (o : StoreOp) → StoreChoice → Option (o.Ans × Table)
  | .generateNonce, .nonce n => some (.ok n, t)
  | .generateNonce, .failed e => some (.error e, t)
  | .putItem item, .applied => some (.ok ((t.items (itemKey item)).getD []), t.put item)
  | .putItem _, .failed e => some (.error e, t)
  | .transactWriteItems actions, .applied =>
    if ∀ a ∈ actions, t.conflict a = none then some (.ok (), actions.foldl Table.apply t) else none
  | .transactWriteItems actions, .canceled reasons =>
    if (∃ a ∈ actions, t.conflict a ≠ none) ∧ List.Forall₂ t.Explains actions reasons then
      some (.error (.canceled reasons), t)
    else none
  | .transactWriteItems _, .failed e => some (.error (.other e), t)
  | _, _ => none

/-! ## The client -/

/-- `ethereum.GenerateNonce`, with the error that the client makes of its error. -/
def generateNonce : StoreProg Hash :=
  Program.ask (S := storeCalls) .generateNonce fun r =>
    Program.ofExcept (r.mapError (.err ∘ nonceGenerationFailed))

/-- The code of the error for a condition that failed on an item of the type. -/
def conflictCode : KeyValueType → ErrorCode
  | .userIDToWalletAddress | .userIDToNonce => .userAlreadyHasWalletAddress
  | .walletAddressToUserID => .walletAddressAlreadyUsed

/-- The error with the message of a reason. -/
def conflictError (type : KeyValueType) : Option String → Except Fault (Option Err)
  | some message => .ok (some (.api (conflictCode type) message .client))
  | none => .error (.panic "invalid memory address or nil pointer dereference")

/-- The loop of `PutUserWallet` over the reasons: the error that it returns, if it does. -/
def parseReasons : List Reason → Except Fault (Option Err)
  | [] => .ok none
  | reason :: reasons =>
    if reason.code = some conditionalCheckFailed then
      match reason.item.lookup "type" with
      | some (.s type) =>
        if type = KeyValueType.userIDToWalletAddress.toString then
          conflictError .userIDToWalletAddress reason.message
        else if type = KeyValueType.userIDToNonce.toString then
          conflictError .userIDToNonce reason.message
        else if type = KeyValueType.walletAddressToUserID.toString then
          conflictError .walletAddressToUserID reason.message
        else parseReasons reasons
      | some .other => .error (.panic ("interface conversion: types.AttributeValue is not " ++
          "*types.AttributeValueMemberS"))
      | none => .error (.panic ("interface conversion: types.AttributeValue is nil, not " ++
          "*types.AttributeValueMemberS"))
    else parseReasons reasons

/-- What `PutUserWallet` returns, given the answer to its transaction. -/
def transactionResult : Except TransactionError Unit → Except Fault Unit
  | .ok () => .ok ()
  | .error (.other e) => .error (.err e)
  | .error (.canceled reasons) =>
    match parseReasons reasons with
    | .error e => .error e
    | .ok (some e) => .error (.err e)
    -- The error of the transaction itself: none of its reasons is that a condition failed.
    | .ok none => .error (.err (.transactionCanceled (reasons.map fun _ => .none)))

/-- `PutUserWallet`. -/
def putUserWallet (userID walletAddress : String) : StoreProg Unit := do
  let nonce ← generateNonce
  Program.ask (S := storeCalls)
    (.transactWriteItems ((userWalletItems userID walletAddress nonce).map .put)) fun r =>
      Program.ofExcept (transactionResult r)

/-- What `GetAndReplaceNonceByID` makes of the attribute `value`. -/
def decodeNonce (userID : String) : Option AttributeValue → Except Fault Hash
  | some (.s value) => .ok (hexToHash value)
  | some .other => .error (.panic ("interface conversion: types.AttributeValue is not " ++
      "*types.AttributeValueMemberS"))
  | none => .error (.err (valueFieldNotFound .userIDToNonce userID))

/-- What `GetAndReplaceNonceByID` returns, given the answer to `PutItem`. -/
def oldNonce (userID : String) : Except Err Attributes → Except Fault Hash
  -- The error is not looked at, and the result is nil then.
  | .error _ => .error (.panic "invalid memory address or nil pointer dereference")
  | .ok attributes => decodeNonce userID (attributes.lookup "value")

/-- `GetAndReplaceNonceByID`. -/
def getAndReplaceNonceByID (userID : String) : StoreProg Hash := do
  let nonce ← generateNonce
  Program.ask (S := storeCalls) (.putItem ⟨.userIDToNonce, userID, nonce.hex⟩) fun r =>
    Program.ofExcept (oldNonce userID r)

/-! ## Registrations -/

/-- There is no item that the registration of the address by the user would put. -/
def Table.Unregistered (t : Table) (user address : String) : Prop :=
  t.get .userIDToWalletAddress user = none ∧ t.get .userIDToNonce user = none ∧
    t.get .walletAddressToUserID address = none

/-- The registration of the address by the user, with the nonce `n`, has put all its items
    or none, and the error tells which of them was there. -/
structure AllOrNothing (t : Table) (user address : String) (n : Hash) (r : Except Fault Unit)
    (t' : Table) : Prop where
  success : r = .ok () ↔ t.Unregistered user address
  added : t.Unregistered user address → ∀ i ∈ userWalletItems user address n,
    t'.items (itemKey i) = some (attributes i)
  frame : t.Unregistered user address → ∀ k, (∀ i ∈ userWalletItems user address n,
    itemKey i ≠ k) → t'.items k = t.items k
  unchanged : ¬ t.Unregistered user address → t' = t
  user_conflict : t.get .userIDToWalletAddress user ≠ none ∨ t.get .userIDToNonce user ≠ none →
    ∃ m, r = .error (.err (.api .userAlreadyHasWalletAddress m .client))
  address_conflict : t.get .userIDToWalletAddress user = none → t.get .userIDToNonce user = none →
    t.get .walletAddressToUserID address ≠ none →
      ∃ m, r = .error (.err (.api .walletAddressAlreadyUsed m .client))

section

variable {t t' : Table} {user address : String} {n : Hash}

/-- The three items of a registration have different keys. -/
theorem nodup_userWalletItems : ((userWalletItems user address n).map itemKey).Nodup := by
  simp [userWalletItems, itemKey, KeyValueType.toString]

/-- None of their conditions fails exactly if neither the user nor the address is registered. -/
theorem forall_conflict_eq_none :
    (∀ a ∈ (userWalletItems user address n).map .put, t.conflict a = none) ↔
      t.Unregistered user address := by
  simp [userWalletItems, Table.conflict, itemKey, Table.Unregistered, Table.get]

/-- The reason of an action that is not refused is passed over. -/
theorem parseReasons_of_not_conflict {action : TransactWriteItem} {reason : Reason}
    {reasons : List Reason} (h : t.Explains action reason) (hnone : t.conflict action = none) :
    parseReasons (reason :: reasons) = parseReasons reasons := by
  rw [Table.Explains, hnone] at h
  exact if_neg h

/-- The reason of an item that is not put ends the loop, with the code for its type. -/
theorem parseReasons_of_conflict {i : Item} {reason : Reason} {reasons : List Reason}
    (h : t.Explains (.put i) reason) (hsome : t.get i.type i.key ≠ none) :
    ∃ m, parseReasons (reason :: reasons) =
      .ok (some (.api (conflictCode i.type) m .client)) := by
  obtain ⟨old, hold⟩ := Option.ne_none_iff_exists'.1 hsome
  have hconflict : t.conflict (.put i) = some old := hold
  rw [Table.Explains, hconflict] at h
  obtain ⟨hcode, hitem, hmessage⟩ := h
  obtain ⟨message, hmessage⟩ := Option.isSome_iff_exists.1 hmessage
  have htype : reason.item.lookup "type" = some (.s i.type.toString) := by
    rw [hitem]
    exact (t.keyed hold).1
  refine ⟨message, ?_⟩
  rw [parseReasons, if_pos hcode, htype, hmessage]
  cases i.type <;> rfl

/-- The loop returns the error for the first item that is not put. -/
theorem parseReasons_eq {items : List Item} {reasons : List Reason}
    (h : List.Forall₂ t.Explains (items.map .put) reasons) {i : Item}
    (hi : items.find? (fun i => t.get i.type i.key ≠ none) = some i) :
    ∃ m, parseReasons reasons = .ok (some (.api (conflictCode i.type) m .client)) := by
  induction items generalizing reasons with
  | nil => cases hi
  | cons j items ih =>
    obtain ⟨reason, reasons, hj, hitems, rfl⟩ := List.forall₂_cons_left_iff.1 h
    by_cases hfree : t.get j.type j.key = none
    · rw [List.find?_cons_of_neg (by simpa using hfree)] at hi
      rw [parseReasons_of_not_conflict hj hfree]
      exact ih hitems hi
    · rw [List.find?_cons_of_pos (by simpa using hfree)] at hi
      cases hi
      exact parseReasons_of_conflict hj hfree

/-- A registration that is cancelled returns the error for the first of its items that is
    there. -/
theorem transactionResult_canceled {reasons : List Reason}
    (h : List.Forall₂ t.Explains ((userWalletItems user address n).map .put) reasons) {i : Item}
    (hi : (userWalletItems user address n).find? (fun i => t.get i.type i.key ≠ none) = some i) :
    ∃ m, transactionResult (.error (.canceled reasons)) =
      .error (.err (.api (conflictCode i.type) m .client)) := by
  obtain ⟨m, hparse⟩ := parseReasons_eq h hi
  exact ⟨m, by rw [transactionResult, hparse]⟩

/-- If the user is registered already, that is what the error says. -/
theorem transactionResult_user_conflict {reasons : List Reason}
    (h : List.Forall₂ t.Explains ((userWalletItems user address n).map .put) reasons)
    (huser : t.get .userIDToWalletAddress user ≠ none ∨ t.get .userIDToNonce user ≠ none) :
    ∃ m, transactionResult (.error (.canceled reasons)) =
      .error (.err (.api .userAlreadyHasWalletAddress m .client)) := by
  by_cases hwallet : t.get .userIDToWalletAddress user = none
  · have hnonce := huser.resolve_left (not_not_intro hwallet)
    exact transactionResult_canceled (i := ⟨.userIDToNonce, user, n.hex⟩) h
      (by simp [userWalletItems, hwallet, hnonce])
  · exact transactionResult_canceled (i := ⟨.userIDToWalletAddress, user, address⟩) h
      (by simp [userWalletItems, hwallet])

/-- If only the address is registered already, the error says so. -/
theorem transactionResult_address_conflict {reasons : List Reason}
    (h : List.Forall₂ t.Explains ((userWalletItems user address n).map .put) reasons)
    (hwallet : t.get .userIDToWalletAddress user = none)
    (hnonce : t.get .userIDToNonce user = none)
    (haddress : t.get .walletAddressToUserID address ≠ none) :
    ∃ m, transactionResult (.error (.canceled reasons)) =
      .error (.err (.api .walletAddressAlreadyUsed m .client)) :=
  transactionResult_canceled (i := ⟨.walletAddressToUserID, address, user⟩) h
    (by simp [userWalletItems, hwallet, hnonce, haddress])

/-- A registration that is cancelled fails. -/
theorem transactionResult_canceled_ne_ok {reasons : List Reason}
    (h : List.Forall₂ t.Explains ((userWalletItems user address n).map .put) reasons)
    (hused : ¬ t.Unregistered user address) :
    transactionResult (.error (.canceled reasons)) ≠ .ok () := by
  intro hok
  by_cases huser : t.get .userIDToWalletAddress user = none ∧ t.get .userIDToNonce user = none
  · obtain ⟨hwallet, hnonce⟩ := huser
    obtain ⟨m, hm⟩ := transactionResult_address_conflict h hwallet hnonce
      fun haddress => hused ⟨hwallet, hnonce, haddress⟩
    cases hok.symm.trans hm
  · obtain ⟨m, hm⟩ := transactionResult_user_conflict h (Decidable.not_and_iff_or_not.1 huser)
    cases hok.symm.trans hm

/-- A registration makes one transaction. -/
theorem run_putUserWallet {choice : StoreChoice} :
    Program.run exec t (putUserWallet user address) [.nonce n, choice] =
      (exec t (.transactWriteItems ((userWalletItems user address n).map .put)) choice).map
        fun answer => (transactionResult answer.1, answer.2) := by
  show (exec t (.transactWriteItems _) choice).bind _ = _
  cases exec t (.transactWriteItems ((userWalletItems user address n).map .put)) choice with
  | none => rfl
  | some answer => exact Program.run_ofExcept

/-- Whatever the reasons are that DynamoDB gives, a registration puts all its items or none,
    and tells which of them was there. -/
theorem allOrNothing {choice : StoreChoice} {r : Except Fault Unit}
    (h : Program.run exec t (putUserWallet user address) [.nonce n, choice] = some (r, t'))
    (hanswered : ∀ e, choice ≠ .failed e) : AllOrNothing t user address n r t' := by
  rw [run_putUserWallet] at h
  obtain ⟨⟨answer, t₁⟩, htransact, hresult⟩ := Option.map_eq_some_iff.1 h
  cases hresult
  cases choice with
  | nonce m => cases htransact
  | failed e => exact absurd rfl (hanswered e)
  -- The items are put together, under keys that are different from each other.
  | applied =>
    simp only [exec] at htransact
    split_ifs at htransact with hnone
    cases htransact
    have hfree : t.Unregistered user address := forall_conflict_eq_none.1 hnone
    have hnodup : ((userWalletItems user address n).map itemKey).Nodup := nodup_userWalletItems
    obtain ⟨hput, hframe⟩ := t.items_foldl_put hnodup
    rw [List.foldl_map]
    exact {
      success := ⟨fun _ => hfree, fun _ => rfl⟩
      added := fun _ => hput
      frame := fun _ => hframe
      unchanged := fun h => absurd hfree h
      user_conflict := fun h => h.elim (absurd hfree.1) (absurd hfree.2.1)
      address_conflict := fun _ _ h => absurd hfree.2.2 h }
  -- The reasons come in the order of the items, and one of them is a conflict.
  | canceled reasons =>
    simp only [exec] at htransact
    split_ifs at htransact with hcanceled
    cases htransact
    obtain ⟨hconflict, hreasons⟩ := hcanceled
    have hused : ¬ t.Unregistered user address := by
      rw [← forall_conflict_eq_none (n := n)]
      push Not
      exact hconflict
    exact {
      success := ⟨fun hok => absurd hok (transactionResult_canceled_ne_ok hreasons hused),
        fun h => absurd h hused⟩
      added := fun h => absurd h hused
      frame := fun h => absurd h hused
      unchanged := fun _ => rfl
      user_conflict := transactionResult_user_conflict hreasons
      address_conflict := transactionResult_address_conflict hreasons }

/-- The table in which somebody else has the address `0x1`. -/
def withAddress : Table := Table.empty.put ⟨.walletAddressToUserID, "0x1", "bob"⟩

/-- The address is registered again, and DynamoDB leaves out what it may of its reasons. -/
theorem allOrNothing_used : AllOrNothing withAddress "alice" "0x1" 0
    (.error (.err (.api .walletAddressAlreadyUsed "failed" .client))) withAddress := by
  have hrun : Program.run exec withAddress (putUserWallet "alice" "0x1") [.nonce 0,
      .canceled [⟨none, [], none⟩, ⟨some "None", [], none⟩, ⟨some conditionalCheckFailed,
        attributes ⟨.walletAddressToUserID, "0x1", "bob"⟩, some "failed"⟩]] =
      some (.error (.err (.api .walletAddressAlreadyUsed "failed" .client)), withAddress) := rfl
  exact allOrNothing hrun nofun

/-! ## Nonces -/

/-- The nonce of the user was replaced, with what the random generator gave, and returned;
    or there is an error, and nothing has changed. -/
structure Rotated (t : Table) (user : String) (drawn : StoreChoice) (r : Except Fault Hash)
    (t' : Table) : Prop where
  returns : ∀ m, r ≠ .error (.panic m)
  rotates : ∀ old, r = .ok old → ∃ n value, drawn = .nonce n ∧
    t.value .userIDToNonce user = some (.s value) ∧ old = hexToHash value ∧
    t'.value .userIDToNonce user = some (.s n.hex)
  unchanged : ∀ e, r = .error (.err e) → t' = t

/-- The replacement of a nonce makes one call. -/
theorem run_getAndReplaceNonceByID {choice : StoreChoice} :
    Program.run exec t (getAndReplaceNonceByID user) [.nonce n, choice] =
      (exec t (.putItem ⟨.userIDToNonce, user, n.hex⟩) choice).map
        fun answer => (oldNonce user answer.1, answer.2) := by
  show (exec t (.putItem _) choice).bind _ = _
  cases exec t (.putItem ⟨.userIDToNonce, user, n.hex⟩) choice with
  | none => rfl
  | some answer => exact Program.run_ofExcept

/-- What is returned when the nonce was put: the one that was there. -/
theorem oldNonce_of_applied : oldNonce user (.ok ((t.items (KeyValueType.userIDToNonce.toString,
    user)).getD [])) = decodeNonce user (t.value .userIDToNonce user) := by
  rw [oldNonce, Table.value, Table.get]
  cases t.items (KeyValueType.userIDToNonce.toString, user) <;> rfl

/-- The nonce that was put is the one that is there. -/
theorem value_put : (t.put ⟨.userIDToNonce, user, n.hex⟩).value .userIDToNonce user =
    some (.s n.hex) := by
  rw [Table.value, Table.get]
  exact congrArg (Option.bind · _) (t.put_items_self ⟨.userIDToNonce, user, n.hex⟩)

/-- A nonce that was put is in the place of another one, or the error comes too late. -/
theorem rotated_of_applied :
    Rotated t user (.nonce n) (decodeNonce user (t.value .userIDToNonce user))
      (t.put ⟨.userIDToNonce, user, n.hex⟩) ↔
        ∃ value, t.value .userIDToNonce user = some (.s value) := by
  constructor
  · intro h
    cases hvalue : t.value .userIDToNonce user with
    | none =>
      -- There is an error, although the new nonce is in the table.
      rw [hvalue] at h
      have hsame := congrArg (Table.value · .userIDToNonce user) (h.unchanged _ rfl)
      rw [value_put, hvalue] at hsame
      cases hsame
    | some v =>
      cases v with
      | s value => exact ⟨value, rfl⟩
      | other =>
        -- The old value is asserted to be a string.
        rw [hvalue] at h
        exact absurd rfl (h.returns _)
  · rintro ⟨value, hvalue⟩
    rw [hvalue]
    refine ⟨nofun, ?_, nofun⟩
    rintro old ⟨⟩
    exact ⟨n, value, rfl, hvalue, rfl, value_put⟩

/-- The nonce of the user is replaced, or nothing has changed, exactly if none was generated,
    or it was put in the place of another one. -/
theorem rotated_iff {drawn put : StoreChoice} {r : Except Fault Hash}
    (h : Program.run exec t (getAndReplaceNonceByID user) [drawn, put] = some (r, t')) :
    Rotated t user drawn r t' ↔ (∃ e, drawn = .failed e) ∨
      put = .applied ∧ ∃ value, t.value .userIDToNonce user = some (.s value) := by
  cases drawn with
  | applied => cases h
  | canceled reasons => cases h
  | failed e =>
    cases h
    exact ⟨fun _ => .inl ⟨e, rfl⟩, fun _ => ⟨nofun, nofun, fun _ _ => rfl⟩⟩
  | nonce n =>
    rw [run_getAndReplaceNonceByID] at h
    obtain ⟨⟨answer, t₁⟩, hput, hresult⟩ := Option.map_eq_some_iff.1 h
    cases hresult
    cases put with
    | nonce m => cases hput
    | canceled reasons => cases hput
    | failed e =>
      cases hput
      -- The result is dereferenced without a look at the error.
      simp only [reduceCtorEq, exists_false, false_and, or_self, iff_false]
      exact fun hrotated => hrotated.returns _ rfl
    | applied =>
      cases hput
      simp only [reduceCtorEq, exists_false, true_and, false_or]
      show Rotated t user _ (oldNonce user (.ok ((t.items (KeyValueType.userIDToNonce.toString,
        user)).getD []))) _ ↔ _
      rw [oldNonce_of_applied]
      exact rotated_of_applied

/-- The table in which the user has a nonce. -/
def withNonce : Table := Table.empty.put ⟨.userIDToNonce, "alice", (0 : Hash).hex⟩

/-- A user with a nonce gets another one. -/
theorem rotated_registered : Rotated withNonce "alice" (.nonce (.ofList 32 [1]))
    (.ok (hexToHash (0 : Hash).hex)) (withNonce.put ⟨.userIDToNonce, "alice",
      Hash.hex (.ofList 32 [1])⟩) := by
  have hvalue : withNonce.value .userIDToNonce "alice" = some (.s (0 : Hash).hex) := value_put
  have hrun : Program.run exec withNonce (getAndReplaceNonceByID "alice")
      [.nonce (.ofList 32 [1]), .applied] = some (.ok (hexToHash (0 : Hash).hex),
        withNonce.put ⟨.userIDToNonce, "alice", Hash.hex (.ofList 32 [1])⟩) := by
    have hold : oldNonce "alice" (.ok ((withNonce.items (KeyValueType.userIDToNonce.toString,
        "alice")).getD [])) = _ := oldNonce_of_applied
    rw [hvalue] at hold
    rw [run_getAndReplaceNonceByID]
    exact congrArg (fun r => some (r, _)) hold
  exact (rotated_iff hrun).2 (.inr ⟨rfl, _, hvalue⟩)

/-- The call fails. -/
theorem not_rotated_failed : ∃ r t', Program.run exec withNonce (getAndReplaceNonceByID "alice")
    [.nonce (.ofList 32 [1]), .failed (.external "ThrottlingException")] = some (r, t') ∧
      ¬ Rotated withNonce "alice" (.nonce (.ofList 32 [1])) r t' :=
  ⟨_, _, rfl, fun h => h.returns _ rfl⟩

end

/-! ## The address table -/

/-- The items of the address table. -/
def Table.ofItems (t : Keyed.Table Item.primaryKey) : Table where
  items k := (t.rows.find? fun i => itemKey i = k).map attributes
  keyed {k a} h := by
    obtain ⟨i, hi, rfl⟩ := Option.map_eq_some_iff.1 h
    obtain rfl : itemKey i = k := by simpa using List.find?_some hi
    exact ⟨rfl, rfl⟩

section

variable {t : Keyed.Table Item.primaryKey}

/-- The kinds of items have different names. -/
theorem toString_inj {type type' : KeyValueType} :
    type.toString = type'.toString ↔ type = type' := by
  cases type <;> cases type' <;> simp [KeyValueType.toString]

/-- Items have the same key in both models. -/
theorem itemKey_eq {i : Item} {type : KeyValueType} {key : String} :
    itemKey i = (type.toString, key) ↔ i.primaryKey = (type, key) := by
  simp [itemKey, Item.primaryKey, toString_inj]

/-- An item of the server's table, as its attributes. -/
theorem get_ofItems (type : KeyValueType) (key : String) :
    (Table.ofItems t).get type key = (t.get (type, key)).map attributes := by
  simp only [Table.get, Table.ofItems, Keyed.Table.get, itemKey_eq]

/-- The condition of a put fails on the same items. -/
theorem conflict_ofItems (i : Item) :
    (Table.ofItems t).conflict (.put i) = (t.get i.primaryKey).map attributes :=
  get_ofItems i.type i.key

/-- No item has a key of another type. -/
theorem items_ofItems_eq_none {k : String × String}
    (hk : ∀ type : KeyValueType, k.1 ≠ type.toString) :
    (Table.ofItems t).items k = none := by
  refine Option.map_eq_none_iff.2 (List.find?_eq_none.2 fun i _ => ?_)
  rw [decide_eq_true_eq]
  rintro rfl
  exact hk i.type rfl

/-- A put on the items is one on their attributes. -/
theorem ofItems_put (i : Item) : Table.ofItems (t.put i) = (Table.ofItems t).put i := by
  refine Table.ext (funext fun k => ?_)
  by_cases hk : ∃ type : KeyValueType, k.1 = type.toString
  · obtain ⟨name, key⟩ := k
    obtain ⟨type, rfl : name = type.toString⟩ := hk
    have hget := get_ofItems (t := t.put i) type key
    rw [Keyed.Table.get_put] at hget
    by_cases hkey : i.primaryKey = (type, key)
    · rw [if_pos hkey] at hget
      rw [← itemKey_eq.2 hkey, Table.put_items_self, itemKey_eq.2 hkey]
      exact hget
    · rw [if_neg hkey, ← get_ofItems] at hget
      rw [Table.put_items_of_ne _ fun heq => hkey (itemKey_eq.1 heq.symm)]
      exact hget
  · push Not at hk
    rw [items_ofItems_eq_none hk,
      Table.put_items_of_ne _ fun heq => hk i.type (congrArg Prod.fst heq),
      items_ofItems_eq_none hk]

/-- A nonce is put in both models. -/
theorem exec_putItem_ofItems (i : Item) : exec (.ofItems t) (.putItem i) .applied =
    some (.ok (((t.get i.primaryKey).map attributes).getD []), .ofItems (t.put i)) := by
  rw [ofItems_put, ← conflict_ofItems]
  rfl

/-- A transaction of items that are new goes through in both models. -/
theorem exec_transactWriteItems_ofItems {l : List Item} (h : ∀ i ∈ l, t.get i.primaryKey = none) :
    exec (.ofItems t) (.transactWriteItems (l.map .put)) .applied =
      some (.ok (), .ofItems (l.foldl Keyed.Table.put t)) := by
  have hfree : ∀ a ∈ l.map TransactWriteItem.put, (Table.ofItems t).conflict a = none := by
    simp only [List.forall_mem_map, conflict_ofItems, Option.map_eq_none_iff]
    exact h
  have hfold : Table.ofItems (l.foldl Keyed.Table.put t) = l.foldl Table.put (.ofItems t) := by
    clear h hfree
    induction l generalizing t with
    | nil => rfl
    | cons i l ih => rw [List.foldl_cons, ih, ofItems_put, List.foldl_cons]
  rw [hfold]
  refine (if_pos hfree).trans ?_
  rw [List.foldl_map]
  rfl

/-- The reason of an action, with all that DynamoDB may leave out. -/
def reasonOf (t : Table) (action : TransactWriteItem) : Reason :=
  match t.conflict action with
  | some old => ⟨some conditionalCheckFailed, old, some "The conditional request failed"⟩
  | none => ⟨none, [], none⟩

/-- The reasons that the server's world gives are as DynamoDB gives them. -/
theorem explains_reasonOf (t : Table) (actions : List TransactWriteItem) :
    List.Forall₂ t.Explains actions (actions.map (reasonOf t)) := by
  rw [List.forall₂_map_right_iff, List.forall₂_same]
  intro action _
  rw [Table.Explains, reasonOf]
  cases t.conflict action with
  | none => nofun
  | some old => exact ⟨rfl, rfl, rfl⟩

/-- A transaction that puts an item of a key that is there already is canceled. -/
theorem exec_canceled_ofItems {l : List Item} (hused : ¬ ∀ i ∈ l, t.get i.primaryKey = none) :
    exec (.ofItems t) (.transactWriteItems (l.map .put))
      (.canceled ((l.map .put).map (reasonOf (.ofItems t)))) =
        some (.error (.canceled ((l.map .put).map (reasonOf (.ofItems t)))),
          .ofItems t) := by
  have hcanceled : ∃ a ∈ l.map .put, (Table.ofItems t).conflict a ≠ none := by
    push Not at hused
    obtain ⟨i, hi, hget⟩ := hused
    refine ⟨_, List.mem_map_of_mem hi, ?_⟩
    rw [conflict_ofItems]
    simpa using hget
  exact if_pos ⟨hcanceled, explains_reasonOf _ _⟩

/-- The loop finds the failure that the address table tells. -/
theorem parseReasons_reasonOf (l : List Item) :
    parseReasons ((l.map .put).map (reasonOf (.ofItems t))) =
      .ok (conditionFailure ((l.map .put).map (TransactWriteItem.reason t))) := by
  induction l with
  | nil => rfl
  | cons i l ih =>
    simp only [List.map_cons, reasonOf, conflict_ofItems, TransactWriteItem.reason] at ih ⊢
    cases t.get i.primaryKey with
    | none => exact ih
    | some old =>
      obtain ⟨type, key, value⟩ := old
      cases type <;> rfl

/-- If no condition has failed, there is no reason. -/
theorem eq_none_of_conditionFailure {reasons : List CancellationReason}
    (h : conditionFailure reasons = none) : ∀ r ∈ reasons, r = .none := by
  induction reasons with
  | nil => nofun
  | cons r reasons ih =>
    rw [List.forall_mem_cons]
    cases r with
    | none => exact ⟨rfl, ih h⟩
    | conditionalCheckFailed item message => cases item <;> cases h

end

section

variable [Environment] {w w' : World} {user address : String}

/-- Both functions generate a nonce, and go on with it. -/
theorem simulates_generateNonce_bind {α : Type} {f : Hash → Prog α} {g : Hash → StoreProg α}
    (hrest : ∀ n w r w', Program.Runs World.exec w (f n) r w' →
      Program.Runs exec (.ofItems w.items) (g n) r (.ofItems w'.items))
    {r : Except Fault α}
    (h : Program.Runs World.exec w (mapErr nonceGenerationFailed (call .generateNonce) >>= f) r w') :
    Program.Runs exec (.ofItems w.items) (generateNonce >>= g) r (.ofItems w'.items) := by
  have hgenerate : ∀ {r w'}, Program.Runs World.exec w
      (mapErr nonceGenerationFailed (call .generateNonce)) r w' →
        w'.items = w.items ∧ ∀ t, Program.Runs exec t generateNonce r t := by
    intro r w' h
    obtain ⟨r', hcall, rfl⟩ := runs_of_mapErr h
    obtain ⟨ch, a, he, rfl⟩ := runs_call hcall
    rcases World.exec_cases he with ⟨e, rfl, rfl⟩ | ⟨n, rfl, heff⟩
    · exact ⟨rfl, fun t => .ask (c := .failed e) rfl .throw⟩
    · exact ⟨heff.changes.items rfl, fun t => .ask (c := .nonce n) rfl .ret⟩
  rcases Program.runs_bind.1 h with ⟨n, w₁, hnonce, hf⟩ | ⟨e, hnonce, rfl⟩
  · obtain ⟨hitems, hgenerate⟩ := hgenerate hnonce
    exact Program.runs_bind.2 (.inl ⟨n, _, hgenerate _, hitems ▸ hrest n w₁ r w' hf⟩)
  · obtain ⟨hitems, hgenerate⟩ := hgenerate hnonce
    exact Program.runs_bind.2 (.inr ⟨e, hitems ▸ hgenerate _, rfl⟩)

/-- The transaction of a registration. -/
theorem simulates_transaction {l : List Item} {r : Except Fault Unit}
    (h : Program.Runs World.exec w (mapErr transactionError
      (call (.transactWriteItems (l.map .put)))) r w') :
    ∃ choice answer, exec (.ofItems w.items) (.transactWriteItems (l.map .put)) choice =
      some (answer, .ofItems w'.items) ∧ transactionResult answer = r := by
  obtain ⟨r', hcall, rfl⟩ := runs_of_mapErr h
  obtain ⟨ch, a, he, rfl⟩ := runs_call hcall
  cases ch with
  | fail message =>
    cases he
    exact ⟨.failed (.external message), _, rfl, rfl⟩
  | ok =>
    have hreason : (∀ a ∈ l.map TransactWriteItem.put, a.reason w.items = .none) ↔
        ∀ i ∈ l, w.items.get i.primaryKey = none := by
      simp only [List.forall_mem_map, TransactWriteItem.reason]
      refine forall₂_congr fun i _ => ?_
      cases w.items.get i.primaryKey <;> simp
    simp only [World.exec, World.transact] at he
    split_ifs at he with hall
    · cases he
      have hfree : ∀ i ∈ l, w.items.get i.primaryKey = none := hreason.1 (by simpa using hall)
      refine ⟨.applied, .ok (), ?_, rfl⟩
      rw [exec_transactWriteItems_ofItems hfree, List.foldl_map]
      rfl
    · cases he
      have hused : ¬ ∀ i ∈ l, w.items.get i.primaryKey = none := fun h =>
        hall (by simpa using hreason.2 h)
      refine ⟨.canceled ((l.map .put).map (reasonOf (.ofItems w.items))), _,
        exec_canceled_ofItems hused, ?_⟩
      cases hfailure : conditionFailure ((l.map .put).map (TransactWriteItem.reason w.items)) with
      | none =>
        -- Without a failure, none of the items would be there.
        refine absurd (hreason.1 fun a ha => ?_) hused
        exact eq_none_of_conditionFailure hfailure _ (List.mem_map_of_mem ha)
      | some e =>
        have herror : transactionError (.transactionCanceled
            ((l.map .put).map (TransactWriteItem.reason w.items))) = e := by
          rw [transactionError, hfailure, Option.getD_some]
        rw [transactionResult, parseReasons_reasonOf, hfailure, ← herror]
        rfl
  | _ => cases he

/-- A registration on the address table is one with the answers of DynamoDB. -/
theorem simulates_putUserWallet {r : Except Fault Unit}
    (h : Program.Runs World.exec w (Knowtfolio.putUserWallet user address) r w') :
    Program.Runs exec (.ofItems w.items) (putUserWallet user address) r (.ofItems w'.items) := by
  refine simulates_generateNonce_bind (fun n w r w' hrest => ?_) h
  obtain ⟨choice, answer, htransact, rfl⟩ := simulates_transaction hrest
  exact .ask htransact (Program.runs_ofExcept.2 ⟨rfl, rfl⟩)

/-- The replacement of a nonce on the address table is one with the answers of DynamoDB. -/
theorem simulates_getAndReplaceNonceByID {r : Except Fault Hash}
    (h : Program.Runs World.exec w (Knowtfolio.getAndReplaceNonceByID user) r w') :
    Program.Runs exec (.ofItems w.items) (getAndReplaceNonceByID user) r (.ofItems w'.items) := by
  refine simulates_generateNonce_bind (fun n w r w' hrest => ?_) h
  obtain ⟨ch, a, w₁, he, hresult⟩ := Program.runs_ask.1 hrest
  rcases World.exec_cases he with ⟨e, rfl, rfl⟩ | ⟨old, rfl, rfl, rfl⟩
  · obtain ⟨rfl, rfl⟩ := Program.runs_throw.1 hresult
    exact .ask (c := .failed e) rfl .throw
  · refine .ask (exec_putItem_ofItems _) (Program.runs_ofExcept.2 ?_)
    simp only [Item.primaryKey] at hresult ⊢
    cases hold : w.items.get (.userIDToNonce, user) with
    | none =>
      rw [hold] at hresult
      obtain ⟨rfl, rfl⟩ := Program.runs_throw.1 hresult
      exact ⟨rfl, rfl⟩
    | some i =>
      rw [hold] at hresult
      obtain ⟨rfl, rfl⟩ := Program.runs_ret.1 hresult
      exact ⟨rfl, rfl⟩

end

end Knowtfolio.DynamoDB
