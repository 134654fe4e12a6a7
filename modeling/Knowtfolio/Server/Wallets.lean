import Knowtfolio.Server.AddressBook
import Knowtfolio.Server.Specs

/-!
# The address table under concurrency

A user is registered by three items, which one transaction puts if there are none of
their keys. But a deletion looks the address of its user up first, and then deletes under
this address, whatever it has become meanwhile; and `CreateForArticle` looks the user of
an address up, and then puts a new nonce, even if there is no old one any more. So what
was read before a deletion, or before another registration, may leave items behind, or
delete those of somebody else.

The three maps are in step (`InStep`) as long as nothing is written on what has changed
(`keepsStep`), and no longer than that (`inStep_iff`).
-/

namespace Knowtfolio

open Interaction Machine

section

variable [Crypto]

/-- An address given in its checksummed form. -/
structure ChecksummedAddress where
  text : String
  checksummed : Checksummed text

end

section

variable [Environment]

/-- The calls on the address table. -/
inductive WalletRequest
  | putUserWallet (userID : String) (walletAddress : ChecksummedAddress)
  | deleteUserWalletByID (userID : String)
  | createForArticle (articleID : ArticleID) (address : ChecksummedAddress) (signature : String)

/-- The program of a call. -/
def WalletRequest.program : WalletRequest → Prog Reply
  | putUserWallet userID walletAddress => serve (.putUserWallet userID walletAddress.text)
  | deleteUserWalletByID userID => do
    Knowtfolio.deleteUserWalletByID userID
    pure .done
  | createForArticle articleID address signature =>
    serve (.createForArticle articleID address.text signature)

/-- The address table, as any number of calls use it. -/
abbrev wallets : Machine calls Fault where
  World := World
  Request := WalletRequest
  Reply := Reply
  Choice := Choice
  Action := Action
  program := WalletRequest.program
  exec := World.exec
  act := World.act

/-- The states of the table after moves that `ok` allows. -/
abbrev WalletRun (ok : wallets.Config → wallets.Move → Prop) (c : wallets.Config) : Prop :=
  Reaches (M := wallets) ok (.initial World.initial) c

end

/-- Every user with an address has a nonce, every one with a nonce has one item back, and
    this is the one of the address. -/
def InStep (w : World) : Prop := ∀ user,
  ((∃ address, ⟨.userIDToWalletAddress, user, address⟩ ∈ w.items.rows) ↔
    ∃ nonce, ⟨.userIDToNonce, user, nonce⟩ ∈ w.items.rows) ∧
  ((∃ nonce, ⟨.userIDToNonce, user, nonce⟩ ∈ w.items.rows) ↔
    ∃! address, ⟨.walletAddressToUserID, address, user⟩ ∈ w.items.rows) ∧
  ∀ address, ⟨.userIDToWalletAddress, user, address⟩ ∈ w.items.rows →
    ⟨.walletAddressToUserID, address, user⟩ ∈ w.items.rows

/-- The user and the address that a transaction deletes. -/
def deletion : List TransactWriteItem → Option (String × String)
  | [.delete .userIDToWalletAddress userID, .delete .userIDToNonce _,
      .delete .walletAddressToUserID walletAddress] => some (userID, walletAddress)
  | _ => none

/-- What is written is about what the table still says: the nonce of a user that has one,
    or a deletion under the address of the user, if there is one, which is the address of
    nobody else. -/
def Op.isCurrent (t : Keyed.Table Item.primaryKey) : Op → Bool
  | putItem item => (t.get item.primaryKey).isSome
  | transactWriteItems items => (deletion items).all fun (userID, walletAddress) =>
    (t.get (.userIDToWalletAddress, userID)).all (·.value = walletAddress) &&
      (t.get (.walletAddressToUserID, walletAddress)).all (·.value = userID)
  | _ => true

section

variable [Environment] {w w' : World} {o : Op}

/-- Nothing is written on what has changed. -/
def keepsStep (c : wallets.Config) : wallets.Move → Bool
  | .step i .ok => (c.asking i).all fun (_, _, o) => o.isCurrent c.world.items
  | _ => true

/-! ## What is written -/

/-- What the calls write. -/
inductive Writes : Op → Prop
  | nonce {user nonce : String} : Writes (.putItem ⟨.userIDToNonce, user, nonce⟩)
  | register {user address : String} {n : Hash} : Checksummed address →
    Writes (.transactWriteItems ((userWalletItems user address n).map .put))
  | delete {user : String} {a : Address} :
    Writes (.transactWriteItems [.delete .userIDToWalletAddress user, .delete .userIDToNonce user,
      .delete .walletAddressToUserID a.string])
  | other {o : Op} : o.writesItems = false → Writes o

/-- The calls that requests may make write nonces, register wallets, or delete them, always of one
    user. -/
theorem writes_of_asks {request : Request} {l : Log}
    (hrequest : ∀ user address, request = .putUserWallet user address → Checksummed address)
    (h : Asks request l o) : Writes o := by
  cases o with
  | putItem item =>
    obtain ⟨-, _, _, _, user, n, -, rfl, -⟩ := h
    exact .nonce
  | transactWriteItems items =>
    obtain ⟨-, user, address, n, hreq, rfl, -⟩ := h
    exact .register (hrequest user address hreq)
  | _ => exact .other rfl

/-- So do all calls of the requests about wallets. -/
theorem wp_walletRequest (request : WalletRequest) :
    request.program.wp (fun _ o => Writes o) (fun _ _ => True) [] := by
  cases request with
  | putUserWallet userID walletAddress =>
    refine Program.wp_mono (fun _ _ h => writes_of_asks ?_ h) (fun _ _ _ => trivial)
      (serve_asks (.putUserWallet userID walletAddress.text))
    rintro user address ⟨⟩
    exact walletAddress.checksummed
  | deleteUserWalletByID userID =>
    refine Program.wp_bind_ret (Q := fun _ _ => True) (Program.wp_bind.2 (Program.wp_bind.2
      (wp_getValue (.other rfl) (fun _ _ => trivial) fun value => ?_))) (fun _ _ _ => trivial)
      fun _ _ _ => trivial
    refine Program.wp_ret.2 ((wp_call (o := .transactWriteItems _)).2
      ⟨.delete, fun _ => trivial, fun _ => trivial⟩)
  | createForArticle articleID address signature =>
    refine Program.wp_mono (fun _ _ h => writes_of_asks ?_ h) (fun _ _ _ => trivial)
      (serve_asks (.createForArticle articleID address.text signature))
    rintro _ _ ⟨⟩

/-- The next call of a thread is one of these. -/
theorem writes_of_rest {ok : wallets.Config → wallets.Move → Prop} {c : wallets.Config}
    (h : WalletRun ok c) {i : ℕ} {t : wallets.Thread} (ht : c.threads[i]? = some t)
    {k : calls.Ans o → Prog Reply} (hk : t.rest = .ask o k) : Writes o := by
  have hwp := h.rest_wp (P := fun _ _ o => Writes o) (Q := fun _ _ _ => True) wp_walletRequest ht
  rw [hk] at hwp
  exact (Program.wp_ask.1 hwp).1

/-! ## What is kept -/

/-- The users with an address are those with a nonce, and those that are found by it. -/
structure Registered (t : Keyed.Table Item.primaryKey) : Prop extends AddressBook t where
  nonces : ∀ user, (∃ address, ⟨.userIDToWalletAddress, user, address⟩ ∈ t.rows) ↔
    ∃ nonce, ⟨.userIDToNonce, user, nonce⟩ ∈ t.rows

/-- Nobody is registered at first. -/
theorem registered_empty : Registered .empty := ⟨addressBook_empty, by simp⟩

namespace Registered

variable {t t' : Keyed.Table Item.primaryKey}

/-- Only the items count that are in the table. -/
theorem congr (h : Registered t) (hmem : ∀ i, i ∈ t'.rows ↔ i ∈ t.rows) : Registered t' where
  paired user address := by
    rw [hmem, hmem]
    exact h.paired user address
  checksummed user address huser := h.checksummed user address ((hmem _).1 huser)
  nonces user := by
    simp only [hmem]
    exact h.nonces user

/-- Users that are registered have all three items. -/
theorem inStep (h : Registered w.items) : InStep w := by
  intro user
  refine ⟨h.nonces user, ?_, fun address => (h.paired user address).1⟩
  rw [← h.nonces user]
  constructor
  · rintro ⟨address, huser⟩
    refine ⟨address, (h.paired user address).1 huser, fun address' hback => ?_⟩
    exact AddressBook.value_unique ((h.paired user address').2 hback) huser
  · rintro ⟨address, hback, -⟩
    exact ⟨address, (h.paired user address).2 hback⟩

/-- A nonce that takes the place of another one. -/
theorem put {user nonce nonce' : String} (h : Registered t)
    (hold : ⟨.userIDToNonce, user, nonce'⟩ ∈ t.rows) :
    Registered (t.put ⟨.userIDToNonce, user, nonce⟩) := by
  refine ⟨h.toAddressBook.put rfl, fun user' => ?_⟩
  have haddress : (∃ address, ⟨.userIDToWalletAddress, user', address⟩ ∈
      (t.put ⟨.userIDToNonce, user, nonce⟩).rows) ↔
        ∃ address, ⟨.userIDToWalletAddress, user', address⟩ ∈ t.rows := by
    simp [Item.primaryKey]
  rw [haddress, h.nonces]
  by_cases huser : user' = user
  · subst huser
    exact ⟨fun _ => ⟨nonce, by simp⟩, fun _ => ⟨nonce', hold⟩⟩
  · simp [Item.primaryKey, huser]

/-- A user that gets an address, and a nonce. -/
theorem register {user address : String} {n : Hash} (h : Registered w.items)
    (haddress : Checksummed address)
    (heff : World.Effect w (.transactWriteItems ((userWalletItems user address n).map .put)) () w') :
    Registered w'.items := by
  obtain ⟨-, hmem⟩ := World.mem_items_of_transact (by simp [userWalletItems, Item.primaryKey]) heff
  refine ⟨h.toAddressBook.register haddress heff, fun user' => ?_⟩
  simp only [hmem, exists_or, h.nonces user']
  refine or_congr_right ?_
  simp [userWalletItems]

/-- A user that loses its address, and its nonce. -/
theorem delete {user address : String} (h : Registered t)
    (huser : ⟨.userIDToWalletAddress, user, address⟩ ∈ t.rows)
    (ht' : t' = ((t.erase (.userIDToWalletAddress, user)).erase (.userIDToNonce, user)).erase
      (.walletAddressToUserID, (hexToAddress address).string)) : Registered t' := by
  refine ⟨(h.toAddressBook.delete huser ht').1, fun user' => ?_⟩
  by_cases heq : user' = user
  · subst heq
    simp [ht', Item.primaryKey]
  · simpa [ht', Item.primaryKey, heq] using h.nonces user'

end Registered

/-- The deletion of a user is current exactly if it is under the address that the user has,
    or the user has none and nobody has this one. -/
theorem isCurrent_delete {t : Keyed.Table Item.primaryKey} {user : String} {a : Address} :
    (Op.transactWriteItems [.delete .userIDToWalletAddress user, .delete .userIDToNonce user,
      .delete .walletAddressToUserID a.string]).isCurrent t = true ↔
      (∀ address, ⟨.userIDToWalletAddress, user, address⟩ ∈ t.rows → address = a.string) ∧
      ∀ user', ⟨.walletAddressToUserID, a.string, user'⟩ ∈ t.rows → user' = user := by
  have hall : ∀ (type : KeyValueType) (key value : String),
      ((t.get (type, key)).all fun i => decide (i.value = value)) = true ↔
        ∀ value', ⟨type, key, value'⟩ ∈ t.rows → value' = value := by
    intro type key value
    rw [Option.all_eq_true]
    constructor
    · intro hget value' hmem
      exact of_decide_eq_true (hget _ (Keyed.Table.get_key_of_mem hmem))
    · rintro hvalue ⟨type', key', value'⟩ hget
      obtain ⟨hmem, hkey⟩ := Keyed.Table.get_eq_some.1 hget
      cases hkey
      exact decide_eq_true (hvalue value' hmem)
  rw [Op.isCurrent, deletion, Option.all_some, Bool.and_eq_true, hall, hall]

omit [Environment] in
/-- What the deletion of a user leaves. -/
theorem mem_deleted {t : Keyed.Table Item.primaryKey} {user address : String} {i : Item} :
    i ∈ (((t.erase (.userIDToWalletAddress, user)).erase (.userIDToNonce, user)).erase
      (.walletAddressToUserID, address)).rows ↔
      i ∈ t.rows ∧ i.primaryKey ≠ (.userIDToWalletAddress, user) ∧
        i.primaryKey ≠ (.userIDToNonce, user) ∧
        i.primaryKey ≠ (.walletAddressToUserID, address) := by
  simp only [Keyed.Table.mem_erase, and_assoc]

/-- A call that is current keeps the users registered. -/
theorem Registered.step (h : Registered w.items) (ho : Writes o) {v : o.Val}
    (heff : World.Effect w o v w') (hcurrent : o.isCurrent w.items = true) :
    Registered w'.items := by
  cases ho with
  | @nonce user nonce =>
    obtain ⟨-, rfl⟩ := heff
    -- There is an item of this key already, which can only be a nonce of the user.
    obtain ⟨⟨type, key, nonce'⟩, hget⟩ := Option.isSome_iff_exists.1 hcurrent
    obtain ⟨hmem, hkey⟩ := Keyed.Table.get_eq_some.1 hget
    cases hkey
    exact h.put hmem
  | register haddress => exact h.register haddress heff
  | @delete user a =>
    obtain ⟨-, rfl⟩ := heff
    obtain ⟨hold, hback⟩ := isCurrent_delete.1 hcurrent
    by_cases huser : ∃ address, ⟨.userIDToWalletAddress, user, address⟩ ∈ w.items.rows
    · obtain ⟨address, huser⟩ := huser
      refine h.delete huser ?_
      rw [hold address huser, hexToAddress_string]
      rfl
    · -- There is nothing to delete.
      have hnonce := mt (h.nonces user).2 huser
      refine h.congr fun i => mem_deleted.trans (and_iff_left_of_imp fun hi => ?_)
      obtain ⟨type, key, value⟩ := i
      refine ⟨?_, ?_, ?_⟩
      · rintro ⟨⟩
        exact huser ⟨value, hi⟩
      · rintro ⟨⟩
        exact hnonce ⟨value, hi⟩
      · rintro ⟨⟩
        cases hback value hi
        exact huser ⟨_, (h.paired user a.string).2 hi⟩
  | other ho => exact heff.changes.items ho ▸ h

/-- A call that is not current leaves something behind, or deletes something of somebody
    else. -/
theorem not_inStep (h : Registered w.items) (ho : Writes o) {v : o.Val}
    (heff : World.Effect w o v w') (hcurrent : o.isCurrent w.items = false) : ¬ InStep w' := by
  intro hstep
  cases ho with
  | @nonce user nonce =>
    obtain ⟨-, rfl⟩ := heff
    -- The user has an address, so it had a nonce before: the call was current.
    obtain ⟨address, huser⟩ := (hstep user).1.2 ⟨nonce, by simp⟩
    obtain ⟨nonce', hold⟩ := (h.nonces user).1 ⟨address, by simpa [Item.primaryKey] using huser⟩
    have hget : w.items.get (.userIDToNonce, user) = some ⟨.userIDToNonce, user, nonce'⟩ :=
      Keyed.Table.get_key_of_mem hold
    simp only [Op.isCurrent, Item.primaryKey, hget] at hcurrent
    cases hcurrent
  | register => cases hcurrent
  | @delete user a =>
    obtain ⟨-, rfl⟩ := heff
    refine Bool.false_ne_true (hcurrent.symm.trans (isCurrent_delete.2 ⟨?_, ?_⟩))
    · -- Otherwise the item of the address that the user has stays, without the nonce.
      intro address huser
      by_contra hne
      have hback := (h.paired user address).1 huser
      obtain ⟨nonce, hnonce⟩ := (hstep user).2.1.2 ⟨address, mem_deleted.2 ⟨hback, by
          simp [Item.primaryKey, hne]⟩, fun address' hback' => AddressBook.value_unique
        ((h.paired user address').2 (mem_deleted.1 hback').1) huser⟩
      exact (mem_deleted.1 hnonce).2.2.1 rfl
    · -- Otherwise a user keeps the address, without being found by it.
      intro user' hback
      by_contra hne
      have huser' := (h.paired user' a.string).2 hback
      have hstays := (hstep user').2.2 a.string (mem_deleted.2 ⟨huser', by
        simp [Item.primaryKey, hne]⟩)
      exact (mem_deleted.1 hstays).2.2.2 rfl
  | other ho =>
    cases o with
    | putItem | transactWriteItems => cases ho
    | _ => cases hcurrent

/-- A call that is not current does not fail. -/
theorem effect_of_not_isCurrent (ho : Writes o) {r : Except Err o.Val}
    (he : w.exec o .ok = some (r, w')) {t : Keyed.Table Item.primaryKey}
    (hcurrent : o.isCurrent t = false) : ∃ v, World.Effect w o v w' := by
  rcases World.exec_cases he with ⟨e, rfl, -⟩ | ⟨v, -, heff⟩
  · cases ho with
    | nonce => cases he
    | register => cases hcurrent
    | delete => cases he
    | other ho =>
      cases o with
      | putItem | transactWriteItems => cases ho
      | _ => cases hcurrent
  · exact ⟨v, heff⟩

/-! ## Runs -/

section

variable {ok : wallets.Config → wallets.Move → Prop} {c c' : wallets.Config} {m : wallets.Move}

/-- The users are registered as long as nothing is written on what has changed. -/
theorem registered_of_run (h : WalletRun (keepsStep · ·) c) : Registered c.world.items := by
  refine h.induction (fun c : wallets.Config => Registered c.world.items)
    registered_empty (fun _ _ _ hc _ => hc) ?_ ?_
  · intro c i ch t o k r w hrun hc hm ht hk he
    rcases World.exec_cases he with ⟨e, rfl, rfl⟩ | ⟨v, rfl, heff⟩
    · exact hc
    · refine hc.step (writes_of_rest hrun ht hk) heff ?_
      cases ch with
      | ok => simpa [keepsStep, Config.asking_of_rest ht hk] using hm
      | _ =>
        -- Items are written with one choice only.
        cases o with
        | putItem | transactWriteItems => cases he
        | _ => rfl
  · intro c x w _ hc _ hx
    rw [World.act_eq hx]
    exact hc

/-- The maps are out of step after a move that writes on what has changed. -/
theorem not_inStep_of_next (h : WalletRun ok c) (hc : Registered c.world.items)
    (hn : c.next m = some c') (hm : keepsStep c m = false) : ¬ InStep c'.world := by
  unfold keepsStep at hm
  split at hm
  next i =>
    obtain ⟨t, o, k, r, w, ht, hk, he, rfl⟩ := Config.next_step hn
    rw [Config.asking_of_rest ht hk, Option.all_some] at hm
    have ho := writes_of_rest h ht hk
    obtain ⟨v, heff⟩ := effect_of_not_isCurrent ho he hm
    exact not_inStep hc ho heff hm
  next => cases hm

/-- As long as every nonce is put for a user that still has one, and every deletion is
    under the address that its user still has, the three maps are in step; and after the
    next move they are exactly if it keeps to that. -/
theorem inStep_iff (h : WalletRun (keepsStep · ·) c) :
    InStep c.world ∧ ∀ m c', c.next m = some c' → (InStep c'.world ↔ keepsStep c m = true) := by
  refine ⟨(registered_of_run h).inStep, fun m c' hn => ⟨fun hstep => ?_, fun hm => ?_⟩⟩
  · by_contra hm
    exact not_inStep_of_next h (registered_of_run h) hn (Bool.not_eq_true _ ▸ hm) hstep
  · exact (registered_of_run (.move h hm hn)).inStep

end

end

/-! A nonce that is replaced before the deletion of its user, and after it. -/

section

attribute [local instance] Hardhat.environment

open Hardhat

/-- The call `i`, its steps being answered by the choices given. -/
def walletSteps (i : ℕ) (chs : List Choice) : List wallets.Move := chs.map (.step i)

/-- The address in its checksummed form. -/
def checksummed (a : Address) : ChecksummedAddress := ⟨a.string, checksummed_string a⟩

/-- The author registers, and asks for a token without a signature; of the latter, the
    user and the new nonce are there already. -/
def lookedUp : List wallets.Move :=
  .arrive (.putUserWallet "author" (checksummed author)) ::
    .arrive (.createForArticle articleID (checksummed author) "signature") ::
      walletSteps 0 [.nonce nonce, .ok] ++ walletSteps 1 [.ok, .nonce (.ofList 32 [2])]

/-- The author is deleted as the call 2. -/
def deleted : List wallets.Move :=
  .arrive (.deleteUserWalletByID "author") :: walletSteps 2 [.ok, .ok]

/-- A wallet is registered, the nonce is replaced, and then the wallet is deleted. -/
theorem inStep_deleted : ∃ c, WalletRun (keepsStep · ·) c ∧ c.Quiet ∧ InStep c.world := by
  obtain ⟨c, hc, hp⟩ := exists_reaches_of_run keepsStep (lookedUp ++ walletSteps 1 [.ok] ++ deleted)
    (.initial World.initial) (fun c => decide c.Quiet) (by decide +kernel)
  exact ⟨c, hc, of_decide_eq_true hp, (inStep_iff hc).1⟩

/-- The deletion comes between the look-up and the replacement of the nonce, which puts it back. -/
theorem not_inStep_nonce : ∃ c, WalletRun Any c ∧ c.Quiet ∧ ¬ InStep c.world := by
  obtain ⟨c, hc, hp⟩ := exists_reaches_of_run (fun _ _ => true)
    (lookedUp ++ deleted ++ walletSteps 1 [.ok]) (.initial World.initial)
    (fun c => c.Quiet ∧ c.world.lookup .userIDToWalletAddress "author" = none ∧
      c.world.lookup .userIDToNonce "author" = some (Hash.hex (.ofList 32 [2])))
    (by decide +kernel)
  obtain ⟨hquiet, haddress, hnonce⟩ := of_decide_eq_true hp
  refine ⟨c, hc.any, hquiet, fun hstep => ?_⟩
  obtain ⟨address, huser⟩ := (hstep "author").1.2 ⟨_, World.lookup_eq_some.1 hnonce⟩
  rw [World.lookup_eq_some.2 huser] at haddress
  cases haddress

end

end Knowtfolio
