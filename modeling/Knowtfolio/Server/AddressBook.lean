import Mathlib.Data.PEquiv
import Knowtfolio.Server.Hardhat
import Knowtfolio.Server.Views

/-!
# The address book

What the address table is for: a user has at most one wallet address, and an address
at most one user (`AddressBook.toPEquiv`). The table holds either direction in items
of its own, the one from the addresses being looked up, and deleted, under the
spelling of the address, while it is put under the text that was received. So the two
agree as long as every address is registered in its spelling (`AddressBook`,
`inverseLookups`), and no longer than that (`not_inverseLookups_of_putUserWallet`).

Every call on the table keeps the book (`AddressBook.put`, `register`, `delete`), so that runs of
calls do (`AddressBook.of_tableRun`); what a call does is said once, whatever fails on the way
(`effect_of_runs`).
-/

namespace Knowtfolio

open Interaction

/-- The item tells something of the user. -/
def Item.Mentions (i : Item) (user : String) : Prop :=
  match i.type with
  | .userIDToWalletAddress | .userIDToNonce => i.key = user
  | .walletAddressToUserID => i.value = user

section

variable [Crypto]

/-- The items from users to addresses and those back are the same, and the addresses
    are in their spelling. -/
structure AddressBook (t : Keyed.Table Item.primaryKey) : Prop where
  paired : ∀ user address, ⟨.userIDToWalletAddress, user, address⟩ ∈ t.rows ↔
    ⟨.walletAddressToUserID, address, user⟩ ∈ t.rows
  checksummed : ∀ user address, ⟨.userIDToWalletAddress, user, address⟩ ∈ t.rows →
    Checksummed address

/-- Nobody is registered in an empty table. -/
theorem addressBook_empty : AddressBook .empty := ⟨by simp, by simp⟩

namespace AddressBook

variable {t : Keyed.Table Item.primaryKey}

omit [Crypto] in
/-- A key has one value. -/
theorem value_unique {type : KeyValueType} {key value value' : String}
    (h : ⟨type, key, value⟩ ∈ t.rows) (h' : ⟨type, key, value'⟩ ∈ t.rows) : value = value' :=
  congrArg Item.value (t.eq_of_key_eq h h' rfl)

/-- The address of a user, as a bijection between those who have one and those that
    are somebody's. -/
def toPEquiv {w : World} (h : AddressBook w.items) : String ≃. Address where
  toFun user := (w.lookup .userIDToWalletAddress user).map hexToAddress
  invFun a := w.lookup .walletAddressToUserID a.string
  inv user a := by
    simp only [Option.map_eq_some_iff, World.lookup_eq_some]
    rw [← h.paired]
    constructor
    · exact fun hmem => ⟨_, hmem, hexToAddress_string a⟩
    · rintro ⟨address, hmem, rfl⟩
      exact (h.checksummed _ _ hmem).symm ▸ hmem

/-- Nonces are none of its business. -/
theorem put (h : AddressBook t) {item : Item} (hitem : item.type = .userIDToNonce) :
    AddressBook (t.put item) := by
  have hmem : ∀ i : Item, i.type ≠ .userIDToNonce → (i ∈ (t.put item).rows ↔ i ∈ t.rows) := by
    intro i hi
    rw [Keyed.Table.mem_put]
    refine ⟨?_, fun hi' => .inl ⟨hi', fun hkey => hi ((congrArg Prod.fst hkey).trans hitem)⟩⟩
    rintro (⟨hi', -⟩ | rfl)
    · exact hi'
    · exact absurd hitem hi
  refine ⟨fun user address => ?_, fun user address huser => ?_⟩
  · rw [hmem ⟨.userIDToWalletAddress, _, _⟩ nofun, hmem ⟨.walletAddressToUserID, _, _⟩ nofun]
    exact h.paired user address
  · exact h.checksummed user address ((hmem ⟨.userIDToWalletAddress, _, _⟩ nofun).1 huser)

/-- An address that is registered in its spelling. -/
theorem register [MySQL] {w w' : World} {user address : String} {n : Hash}
    (h : AddressBook w.items) (haddress : Checksummed address)
    (heff : World.Effect w (.transactWriteItems ((userWalletItems user address n).map .put)) () w') :
    AddressBook w'.items := by
  obtain ⟨-, hmem⟩ := World.mem_items_of_transact (by simp [userWalletItems, Item.primaryKey]) heff
  refine ⟨fun user' address' => ?_, fun user' address' huser => ?_⟩
  · rw [hmem, hmem, h.paired]
    simp [userWalletItems, and_comm]
  · rcases (hmem _).1 huser with huser | huser
    · exact h.checksummed _ _ huser
    · obtain ⟨-, rfl⟩ : user' = user ∧ address' = address := by
        simpa [userWalletItems] using huser
      exact haddress

/-- The items of a user, deleted under the spelling of the address. -/
theorem delete (h : AddressBook t) {user address : String}
    (huser : ⟨.userIDToWalletAddress, user, address⟩ ∈ t.rows) {t' : Keyed.Table Item.primaryKey}
    (ht' : t' = ((t.erase (.userIDToWalletAddress, user)).erase (.userIDToNonce, user)).erase
      (.walletAddressToUserID, (hexToAddress address).string)) :
    AddressBook t' ∧ ∀ i ∈ t'.rows, ¬ i.Mentions user := by
  -- What is stored afterwards: all items but the three.
  have hmem : ∀ i : Item, i ∈ t'.rows ↔ i ∈ t.rows ∧
      i.primaryKey ≠ (.userIDToWalletAddress, user) ∧ i.primaryKey ≠ (.userIDToNonce, user) ∧
      i.primaryKey ≠ (.walletAddressToUserID, address) := by
    intro i
    rw [ht', h.checksummed _ _ huser]
    simp only [Keyed.Table.mem_erase, and_assoc]
  refine ⟨⟨fun user' address' => ?_, fun user' address' huser' => ?_⟩, fun i hi => ?_⟩
  · -- Of a user and its address, both lose their items or none does.
    have hiff : ⟨.userIDToWalletAddress, user', address'⟩ ∈ t.rows →
        (user' = user ↔ address' = address) := by
      intro hmem'
      constructor
      · rintro rfl
        exact value_unique hmem' huser
      · rintro rfl
        exact value_unique ((h.paired _ _).1 hmem') ((h.paired _ _).1 huser)
    rw [hmem, hmem, ← h.paired]
    simp only [Item.primaryKey, ne_eq, Prod.mk.injEq, reduceCtorEq, false_and, not_false_eq_true,
      true_and, and_true]
    exact and_congr_right fun hmem' => not_congr (hiff hmem')
  · exact h.checksummed _ _ ((hmem _).1 huser').1
  · -- The three items are all that speak of the user: the address has no other one.
    obtain ⟨hi, hwallet, hnonce, hback⟩ := (hmem i).1 hi
    obtain ⟨type, key, value⟩ := i
    cases type with
    | userIDToWalletAddress => exact fun hkey => hwallet (congrArg _ hkey)
    | userIDToNonce => exact fun hkey => hnonce (congrArg _ hkey)
    | walletAddressToUserID =>
      rintro rfl
      exact hback (congrArg _ (value_unique ((h.paired _ _).2 hi) huser))

end AddressBook

end

/-! ## What the calls do -/

section

variable [Environment] {w w' : World} {user address : String}

/-- A call fails and changes nothing, or has its effect, whatever its error becomes. -/
theorem effect_of_runs {f : Err → Err} {o : Op} {r : Except Fault o.Val}
    (h : Program.Runs World.exec w (mapErr f (call o)) r w') :
    (∃ e, r = .error e ∧ w' = w) ∨ ∃ v, r = .ok v ∧ World.Effect w o v w' := by
  obtain ⟨r', hcall, rfl⟩ := runs_of_mapErr h
  obtain ⟨ch, a, he, rfl⟩ := runs_call hcall
  rcases World.exec_cases he with ⟨e, rfl, rfl⟩ | ⟨v, rfl, heff⟩
  · exact .inl ⟨_, rfl, rfl⟩
  · exact .inr ⟨v, rfl, heff⟩

/-- A nonce is drawn without writing it. -/
theorem items_of_generateNonce {f : Err → Err} {r : Except Fault Hash}
    (h : Program.Runs World.exec w (mapErr f (call .generateNonce)) r w') :
    w'.items = w.items := by
  rcases effect_of_runs h with ⟨e, -, rfl⟩ | ⟨v, -, heff⟩
  · rfl
  · exact heff.changes.items rfl

/-- A registration that succeeds has put the items of the user. -/
theorem runs_putUserWallet {r : Except Fault Unit}
    (h : Program.Runs World.exec w (putUserWallet user address) r w') :
    (r ≠ .ok () ∧ w'.items = w.items) ∨ ∃ n w₁, w₁.items = w.items ∧
      World.Effect w₁ (.transactWriteItems ((userWalletItems user address n).map .put)) () w' := by
  rcases Program.runs_bind.1 h with ⟨n, w₁, hnonce, hrest⟩ | ⟨e, hnonce, rfl⟩
  · have hitems : w₁.items = w.items := items_of_generateNonce hnonce
    rcases effect_of_runs hrest with ⟨e, rfl, rfl⟩ | ⟨v, rfl, heff⟩
    · exact .inl ⟨nofun, hitems⟩
    · exact .inr ⟨n, w₁, hitems, heff⟩
  · rcases effect_of_runs hnonce with ⟨e, -, rfl⟩ | ⟨v, ⟨⟩, -⟩
    exact .inl ⟨nofun, rfl⟩

/-- The replacement of a nonce puts a nonce, or nothing. -/
theorem runs_getAndReplaceNonceByID {r : Except Fault Hash}
    (h : Program.Runs World.exec w (getAndReplaceNonceByID user) r w') :
    w'.items = w.items ∨ ∃ n, w'.items = w.items.put ⟨.userIDToNonce, user, Hash.hex n⟩ := by
  rcases Program.runs_bind.1 h with ⟨n, w₁, hnonce, hrest⟩ | ⟨e, hnonce, rfl⟩
  · have hitems : w₁.items = w.items := items_of_generateNonce hnonce
    obtain ⟨ch, a, w₂, he, hresult⟩ := Program.runs_ask.1 hrest
    rcases World.exec_cases he with ⟨e, rfl, rfl⟩ | ⟨old, rfl, -, rfl⟩
    · obtain ⟨-, rfl⟩ := Program.runs_throw.1 hresult
      exact .inl hitems
    · refine .inr ⟨n, ?_⟩
      cases old with
      | none =>
        obtain ⟨-, rfl⟩ := Program.runs_throw.1 hresult
        exact hitems ▸ rfl
      | some value =>
        obtain ⟨-, rfl⟩ := Program.runs_ret.1 hresult
        exact hitems ▸ rfl
  · rcases effect_of_runs hnonce with ⟨e, -, rfl⟩ | ⟨v, ⟨⟩, -⟩
    exact .inl rfl

/-- A look-up leaves the table as it is, and answers what is there. -/
theorem runs_getValue {type : KeyValueType} {key : String} {r : Except Fault String}
    (h : Program.Runs World.exec w (getValue type key) r w') :
    w' = w ∧ ∀ value, r = .ok value → ⟨type, key, value⟩ ∈ w.items.rows := by
  obtain ⟨ch, a, w₁, he, hrest⟩ := runs_call_bind h
  rcases World.exec_cases he with ⟨e, rfl, rfl⟩ | ⟨item, rfl, rfl, hview⟩
  · rcases hrest with ⟨v, ⟨⟩, -⟩ | ⟨e, -, rfl, rfl⟩
    exact ⟨rfl, nofun⟩
  · rcases hrest with ⟨v, ⟨⟩, hrest⟩ | ⟨e, ⟨⟩, -⟩
    obtain ⟨rfl, rfl⟩ := Program.runs_ofExcept.1 hrest
    refine ⟨rfl, fun value hvalue => World.mem_items_of_view ?_⟩
    cases hdecode : decodeValue type key item with
    | error e =>
      rw [hdecode] at hvalue
      cases hvalue
    | ok value' =>
      rw [hdecode] at hvalue
      cases hvalue
      rw [hview, decodeValue_eq_ok.1 hdecode]

/-- The address of a user is read from the text that is stored. -/
theorem runs_getAddressByID {r : Except Fault Address}
    (h : Program.Runs World.exec w (getAddressByID user) r w') :
    w' = w ∧ ∀ a, r = .ok a →
      ∃ value, ⟨.userIDToWalletAddress, user, value⟩ ∈ w.items.rows ∧ a = hexToAddress value := by
  rcases Program.runs_bind.1 h with ⟨value, w₁, hvalue, hret⟩ | ⟨e, hvalue, rfl⟩
  · obtain ⟨rfl, rfl⟩ := Program.runs_ret.1 hret
    obtain ⟨rfl, hmem⟩ := runs_getValue hvalue
    refine ⟨rfl, ?_⟩
    rintro a ⟨⟩
    exact ⟨value, hmem value rfl, rfl⟩
  · obtain ⟨rfl, -⟩ := runs_getValue hvalue
    exact ⟨rfl, nofun⟩

/-- A deletion that succeeds has deleted the items of the user, and of the spelling of
    the address. -/
theorem runs_deleteUserWalletByID {r : Except Fault Unit}
    (h : Program.Runs World.exec w (deleteUserWalletByID user) r w') :
    (r ≠ .ok () ∧ w'.items = w.items) ∨
      ∃ address, ⟨.userIDToWalletAddress, user, address⟩ ∈ w.items.rows ∧
        w'.items = ((w.items.erase (.userIDToWalletAddress, user)).erase
          (.userIDToNonce, user)).erase (.walletAddressToUserID, (hexToAddress address).string) := by
  rcases Program.runs_bind.1 h with ⟨a, w₁, haddress, hrest⟩ | ⟨e, haddress, rfl⟩
  · obtain ⟨rfl, hvalue⟩ := runs_getAddressByID haddress
    obtain ⟨value, hmem, rfl⟩ := hvalue a rfl
    obtain ⟨ch, a, he, rfl⟩ := runs_call hrest
    rcases World.exec_cases he with ⟨e, rfl, rfl⟩ | ⟨v, rfl, -, rfl⟩
    · exact .inl ⟨nofun, rfl⟩
    · exact .inr ⟨value, hmem, rfl⟩
  · obtain ⟨rfl, -⟩ := runs_getAddressByID haddress
    exact .inl ⟨nofun, rfl⟩

/-! ## One call after the other -/

/-- The calls on the address table that write, the addresses being as the validator
    lets them through. -/
inductive TableCall
  | putUserWallet (userID : String) (walletAddress : EthAddr)
  | getAndReplaceNonceByID (userID : String)
  | deleteUserWalletByID (userID : String)

/-- The program of a call. -/
def TableCall.program : TableCall → Prog Unit
  | putUserWallet userID walletAddress => Knowtfolio.putUserWallet userID walletAddress.text
  | getAndReplaceNonceByID userID => do
    let _ ← Knowtfolio.getAndReplaceNonceByID userID
  | deleteUserWalletByID userID => Knowtfolio.deleteUserWalletByID userID

/-- An address is registered in its spelling. -/
def TableCall.RegistersSpelling : TableCall → Prop
  | putUserWallet _ walletAddress => Checksummed walletAddress.text
  | _ => True

/-- The worlds that calls allowed by `ok`, one after the other, lead to from the empty
    table. -/
inductive TableRun (ok : TableCall → Prop) : World → Prop
  | initial : TableRun ok World.initial
  | call {w w' : World} {c : TableCall} {r : Except Fault Unit} : TableRun ok w → ok c →
    Program.Runs World.exec w c.program r w' → TableRun ok w'

/-- `GetIDByAddress` inverts `GetAddressByID`, and no two users have one address. -/
structure InverseLookups (w : World) : Prop where
  inverse : ∀ user a, (getAddressByID user).eval w.view = .ok a →
    (getIDByAddress a).eval w.view = .ok user
  injective : ∀ user user' a, (getAddressByID user).eval w.view = .ok a →
    (getAddressByID user').eval w.view = .ok a → user = user'

/-- A call keeps the book. -/
theorem AddressBook.call (hw : AddressBook w.items) {c : TableCall} (hc : c.RegistersSpelling)
    {r : Except Fault Unit} (h : Program.Runs World.exec w c.program r w') :
    AddressBook w'.items := by
  -- Each of the three programs either leaves the table or has done all of its writes.
  cases c with
  | putUserWallet userID walletAddress =>
    rcases runs_putUserWallet h with ⟨-, hitems⟩ | ⟨n, w₁, hitems, heff⟩
    · exact hitems ▸ hw
    · exact register (hitems ▸ hw) hc heff
  | getAndReplaceNonceByID userID =>
    obtain ⟨r', hreplace⟩ : ∃ r', Program.Runs World.exec w
        (Knowtfolio.getAndReplaceNonceByID userID) r' w' := by
      rcases Program.runs_bind.1 h with ⟨n, w₁, hreplace, hret⟩ | ⟨e, hreplace, -⟩
      · obtain ⟨-, rfl⟩ := Program.runs_ret.1 hret
        exact ⟨_, hreplace⟩
      · exact ⟨_, hreplace⟩
    rcases runs_getAndReplaceNonceByID hreplace with hitems | ⟨n, hitems⟩
    · exact hitems ▸ hw
    · exact hitems ▸ hw.put rfl
  | deleteUserWalletByID userID =>
    rcases runs_deleteUserWalletByID h with ⟨-, hitems⟩ | ⟨address, hmem, hitems⟩
    · exact hitems ▸ hw
    · exact (hw.delete hmem hitems).1

/-- In every run of calls that register spellings of addresses, the table is an address book. -/
theorem AddressBook.of_tableRun (h : TableRun TableCall.RegistersSpelling w) :
    AddressBook w.items := by
  induction h with
  | initial => exact addressBook_empty
  | call _ hc hr ih => exact ih.call hc hr

/-- The look-up by user is the book, read from the users to the addresses. -/
theorem AddressBook.eval_getAddressByID_eq_ok (h : AddressBook w.items) {a : Address} :
    (getAddressByID user).eval w.view = .ok a ↔ a ∈ h.toPEquiv user := by
  rw [eval_getAddressByID, eval_getValue]
  show _ ↔ (w.lookup .userIDToWalletAddress user).map hexToAddress = some a
  cases w.lookup .userIDToWalletAddress user with
  | none => simp [Except.map]
  | some value => simp [Except.map]

/-- The look-up by address is the book, read the other way. -/
theorem AddressBook.eval_getIDByAddress_eq_ok (h : AddressBook w.items) {a : Address} :
    (getIDByAddress a).eval w.view = .ok user ↔ user ∈ h.toPEquiv.symm a := by
  rw [eval_getIDByAddress, eval_getValue]
  show _ ↔ w.lookup .walletAddressToUserID a.string = some user
  cases w.lookup .walletAddressToUserID a.string with
  | none => simp
  | some value => simp

/-- As long as every address is registered in its spelling, the look-ups are inverse to
    each other, and a deletion leaves nothing of its user. -/
theorem inverseLookups (h : TableRun TableCall.RegistersSpelling w) :
    InverseLookups w ∧ ∀ user w',
      Program.Runs World.exec w (deleteUserWalletByID user) (.ok ()) w' →
        ∀ i ∈ w'.items.rows, ¬ i.Mentions user := by
  have hw := AddressBook.of_tableRun h
  refine ⟨⟨fun user a huser => ?_, fun user user' a huser huser' => ?_⟩, fun user w' hdelete => ?_⟩
  · rw [hw.eval_getAddressByID_eq_ok] at huser
    rw [hw.eval_getIDByAddress_eq_ok]
    exact hw.toPEquiv.mem_iff_mem.2 huser
  · rw [hw.eval_getAddressByID_eq_ok] at huser huser'
    exact hw.toPEquiv.inj huser huser'
  · rcases runs_deleteUserWalletByID hdelete with ⟨hne, -⟩ | ⟨address, hmem, hitems⟩
    · exact absurd rfl hne
    · exact (hw.delete hmem hitems).2

/-- An address that gets registered in another spelling is not found by itself. -/
theorem not_inverseLookups_of_putUserWallet (hw : AddressBook w.items)
    (haddress : ¬ Checksummed address)
    (h : Program.Runs World.exec w (putUserWallet user address) (.ok ()) w') :
    ¬ InverseLookups w' := by
  rcases runs_putUserWallet h with ⟨hne, -⟩ | ⟨n, w₁, hitems, heff⟩
  · exact absurd rfl hne
  obtain ⟨hnone, hmem⟩ := World.mem_items_of_transact
    (by simp [userWalletItems, Item.primaryKey]) heff
  intro hinv
  have haddr : (getAddressByID user).eval w'.view = .ok (hexToAddress address) := by
    rw [eval_getAddressByID, eval_getValue, World.lookup_eq_some.2
      ((hmem ⟨.userIDToWalletAddress, user, address⟩).2 (.inr (by simp [userWalletItems])))]
    rfl
  -- The user has the address; so the lookup of its checksummed spelling gives the user.
  have hback := hinv.inverse user _ haddr
  rw [eval_getIDByAddress, eval_getValue] at hback
  cases hlookup : w'.lookup .walletAddressToUserID (hexToAddress address).string with
  | none => simp [hlookup] at hback
  | some user' =>
    rw [hlookup] at hback
    cases hback
    rcases (hmem _).1 (World.lookup_eq_some.1 hlookup) with hold | hnew
    · -- The user had that address before, and was not to get another one.
      rw [hitems, ← hw.paired] at hold
      have hnew : ∀ i ∈ w₁.items.rows, i.primaryKey ≠ (.userIDToWalletAddress, user) :=
        Keyed.Table.get_eq_none.1 (hnone ⟨.userIDToWalletAddress, user, address⟩
          (by simp [userWalletItems]))
      exact hnew _ (hitems ▸ hold) (by rw [Item.primaryKey])
    · rw [Checksummed] at haddress
      exact haddress (by simpa [userWalletItems] using hnew)

/-- The world after calls with the choices given. -/
def runCalls : List (TableCall × List Choice) → World → Option World
  | [], w => some w
  | (c, chs) :: rest, w => (Program.run World.exec w c.program chs).bind fun rw => runCalls rest rw.2

/-- Calls that can be made one after the other make a run. -/
theorem TableRun.of_runCalls {ok : TableCall → Prop} {cs : List (TableCall × List Choice)}
    (hcs : ∀ x ∈ cs, ok x.1) (hw : TableRun ok w) (h : runCalls cs w = some w') :
    TableRun ok w' := by
  induction cs generalizing w with
  | nil =>
    cases h
    exact hw
  | cons x cs ih =>
    obtain ⟨⟨r, w₁⟩, hrun, hrest⟩ := Option.bind_eq_some_iff.1 h
    exact ih (fun y hy => hcs y (List.mem_cons_of_mem _ hy))
      (.call hw (hcs x List.mem_cons_self) (.of_run hrun)) hrest

/-- A run that is computed, with what the table is computed to have. -/
theorem exists_tableRun (ok : TableCall → Prop) (cs : List (TableCall × List Choice))
    (hcs : ∀ x ∈ cs, ok x.1) (p : World → Prop) [DecidablePred p]
    (h : (runCalls cs World.initial).any (fun w => decide (p w)) = true) :
    ∃ w, TableRun ok w ∧ p w := by
  cases hrun : runCalls cs World.initial with
  | none =>
    rw [hrun] at h
    cases h
  | some w =>
    rw [hrun] at h
    exact ⟨w, .of_runCalls hcs .initial hrun, of_decide_eq_true h⟩

end

/-! A user who registers an address, and two who register one address in two
spellings. -/

section

attribute [local instance] Hardhat.environment

open Hardhat

/-- The user registers the text as their address. -/
def registers (user : String) (walletAddress : EthAddr) (n : UInt8) : TableCall × List Choice :=
  (.putUserWallet user walletAddress, [.nonce (.ofList 32 [n]), .ok])

/-- The address of a user is the one that is written in the table. -/
theorem eval_getAddressByID_of_lookup {w : World} {user value : String} {a : Address}
    (hlookup : w.lookup .userIDToWalletAddress user = some value) (hvalue : hexToAddress value = a) :
    (getAddressByID user).eval w.view = .ok a := by
  rw [eval_getAddressByID, eval_getValue, hlookup]
  exact congrArg Except.ok hvalue

/-- Two users register, and one of them is deleted: the other one's look-ups are not affected. -/
theorem inverseLookups_registered : ∃ w w', TableRun TableCall.RegistersSpelling w ∧
    (getAddressByID "author").eval w.view = .ok author ∧
    (getAddressByID "buyer").eval w.view = .ok buyer ∧ InverseLookups w ∧
    Program.Runs World.exec w (deleteUserWalletByID "author") (.ok ()) w' ∧
    (∀ i ∈ w'.items.rows, ¬ i.Mentions "author") ∧
    (getAddressByID "buyer").eval w'.view = .ok buyer := by
  obtain ⟨w, hw, ⟨hauthor, hbuyer⟩, hdelete⟩ := exists_tableRun TableCall.RegistersSpelling
    [registers "author" ⟨author.string, by decide +kernel⟩ 1,
      registers "buyer" ⟨buyer.string, by decide +kernel⟩ 2]
    (by simp [registers, TableCall.RegistersSpelling, checksummed_string])
    (fun w => (w.lookup .userIDToWalletAddress "author" = some author.string ∧
      w.lookup .userIDToWalletAddress "buyer" = some buyer.string) ∧
      (Program.run World.exec w (deleteUserWalletByID "author") [.ok, .ok]).any (fun (r, w') =>
        r.toBool && w'.lookup .userIDToWalletAddress "buyer" == some buyer.string) = true)
    (by decide +kernel)
  obtain ⟨⟨r, w'⟩, hrun, hp⟩ := (Option.any_eq_true _ _).1 hdelete
  obtain ⟨hr, hbuyer'⟩ := Bool.and_eq_true_iff.1 hp
  cases r with
  | error e => cases hr
  | ok u =>
    have hruns := Program.Runs.of_run hrun
    exact ⟨w, w', hw, eval_getAddressByID_of_lookup hauthor (hexToAddress_string author),
      eval_getAddressByID_of_lookup hbuyer (hexToAddress_string buyer), (inverseLookups hw).1, hruns,
      (inverseLookups hw).2 "author" w' hruns,
      eval_getAddressByID_of_lookup (eq_of_beq hbuyer') (hexToAddress_string buyer)⟩

/-- Two users register two spellings of one address. -/
theorem not_inverseLookups_spellings : ∃ w, TableRun (fun _ => True) w ∧
    (getAddressByID "author").eval w.view = .ok author ∧
    (getAddressByID "buyer").eval w.view = .ok author ∧ ¬ InverseLookups w := by
  obtain ⟨w, hw, hauthor, hbuyer⟩ := exists_tableRun (fun _ => True)
    [registers "author" ⟨spell (fun _ => false) author.toList, by decide +kernel⟩ 1,
      registers "buyer" ⟨author.string, by decide +kernel⟩ 2]
    (fun _ _ => trivial)
    (fun w => w.lookup .userIDToWalletAddress "author" =
        some (spell (fun _ => false) author.toList) ∧
      w.lookup .userIDToWalletAddress "buyer" = some author.string) (by decide +kernel)
  have hauthor' := eval_getAddressByID_of_lookup hauthor (a := author) (by decide +kernel)
  have hbuyer' := eval_getAddressByID_of_lookup hbuyer (hexToAddress_string author)
  refine ⟨w, hw, hauthor', hbuyer', fun hinv => ?_⟩
  exact absurd (hinv.injective _ _ _ hauthor' hbuyer') (by decide)

end

end Knowtfolio
