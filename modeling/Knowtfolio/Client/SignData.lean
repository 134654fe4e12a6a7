import Knowtfolio.Server.Nonces
import Knowtfolio.Server.Views

/-!
# The text that is signed

`client/src/apis`: what the web client makes of the nonce of its user, before it has a text
signed. It takes the nonce as it is stored; the server parses it, and spells it again.
Every nonce that is written is in the spelling of a hash, so that both have the same text
(`signData_agrees`). And as the spellings of nonces are all of one length, a text tells
the message and the nonce that it is for (`signData_injective`).
-/

namespace Knowtfolio

open Interaction Machine

/-! ## The two texts -/

namespace Client

/-- `generateSignData` of the client. -/
def generateSignData (message nonce : String) : String :=
  message ++ "\n(nonce: " ++ nonce ++ ")"

/-- The nonce that `fetchNonce` returns of the item that it gets. It throws if there is none,
    or if its value is empty. -/
def fetchNonce (item : Option (Option String)) : Option String :=
  item.join.filter fun value => value ≠ ""

end Client

/-- The bytes of `GenerateSignData`. The message of Go is a string of any bytes. -/
def signData (message : List UInt8) (nonce : Hash) : List UInt8 :=
  message ++ Hex.utf8 "\n(nonce: " ++ Hex.utf8 nonce.hex ++ Hex.utf8 ")"

/-- The text of the server, by its bytes. -/
theorem utf8_generateSignData (message : String) (nonce : Hash) :
    Hex.utf8 (generateSignData message nonce) = signData (Hex.utf8 message) nonce := by
  simp only [generateSignData, signData, Hex.utf8_append]

/-- The text of the client is that of the server, if the nonce is in its spelling. -/
theorem client_generateSignData_hex (message : String) (nonce : Hash) :
    Client.generateSignData message nonce.hex =
      signedData message (some (hexToHash nonce.hex)) := by
  rw [hexToHash_hex]
  rfl

/-- All nonces are spelled in 66 bytes. -/
theorem length_utf8_hex (nonce : Hash) : (Hex.utf8 nonce.hex).length = 66 := by
  rw [Hash.hex, utf8_spell, List.length_cons, List.length_cons, Hex.length_encode,
    nonce.length_eq]

/-- A text tells its message and its nonce, even where the message is of any bytes. -/
theorem signData_injective {m m' : List UInt8} {n n' : Hash} (h : signData m n = signData m' n') :
    m = m' ∧ n = n' := by
  -- All that follows the message is of a fixed length.
  have hlength : (Hex.utf8 n.hex).length = (Hex.utf8 n'.hex).length := by
    rw [length_utf8_hex, length_utf8_hex]
  obtain ⟨hfront, -⟩ := List.append_inj' h rfl
  obtain ⟨hmessage, hnonce⟩ := List.append_inj' hfront hlength
  obtain ⟨rfl, -⟩ := List.append_inj' hmessage rfl
  exact ⟨rfl, Hash.hex_injective (Hex.utf8_injective hnonce)⟩

/-- So does a text whose message is one. -/
theorem generateSignData_injective {m m' : String} {n n' : Hash}
    (h : generateSignData m n = generateSignData m' n') : m = m' ∧ n = n' := by
  have hbytes : signData (Hex.utf8 m) n = signData (Hex.utf8 m') n' := by
    rw [← utf8_generateSignData, h, utf8_generateSignData]
  obtain ⟨hmessage, rfl⟩ := signData_injective hbytes
  exact ⟨Hex.utf8_injective hmessage, rfl⟩

/-! ## The nonces that are written -/

/-- The calls that write nonces. -/
inductive NonceRequest
  | putUserWallet (userID walletAddress : String)
  | generateAndPutNonce (userID : String)
  | getAndReplaceNonceByID (userID : String)

/-- The program of a call. It returns the nonce that it has replaced, if it has replaced
    one. -/
def NonceRequest.program : NonceRequest → Prog (Option Hash)
  | putUserWallet userID walletAddress => do
    Knowtfolio.putUserWallet userID walletAddress
    pure none
  | generateAndPutNonce userID => do
    Knowtfolio.generateAndPutNonce userID
    pure none
  | getAndReplaceNonceByID userID => do
    let nonce ← Knowtfolio.getAndReplaceNonceByID userID
    pure (some nonce)

section

variable [Environment]

/-- The address table, as any number of calls write nonces to it. -/
abbrev nonceTable : Machine calls Fault where
  World := World
  Request := NonceRequest
  Reply := Option Hash
  Choice := Choice
  Action := Action
  program := NonceRequest.program
  exec := World.exec
  act := World.act

/-- The states of the table. -/
abbrev NonceRun (c : nonceTable.Config) : Prop :=
  Reaches (M := nonceTable) Any (.initial World.initial) c

/-- The nonce was written, as the value of an item. -/
def WroteNonce (c : nonceTable.Config) (nonce : String) : Prop :=
  ∃ i o v, .asked i (answered o v) ∈ c.history ∧ nonce ∈ o.putNonces

/-- The nonces that a call puts are spellings of hashes. -/
def Op.PutsHashes (o : Op) : Prop := ∀ s ∈ o.putNonces, ∃ n, s = Hash.hex n

end

section

variable [Environment] {c : nonceTable.Config}

omit [Environment] in
/-- Drawing a nonce writes none. -/
theorem putsHashes_generateNonce : Op.PutsHashes .generateNonce := nofun

omit [Environment] in
/-- The nonce that replaces another one is written as a hash. -/
theorem putsHashes_putItem (userID : String) (n : Hash) :
    Op.PutsHashes (.putItem ⟨.userIDToNonce, userID, n.hex⟩) := by
  intro s hs
  exact ⟨n, List.mem_singleton.1 hs⟩

omit [Environment] in
/-- So is the one of a registration. -/
theorem putsHashes_userWalletItems (userID walletAddress : String) (n : Hash) :
    Op.PutsHashes (.transactWriteItems ((userWalletItems userID walletAddress n).map .put)) := by
  intro s hs
  exact ⟨n, List.mem_singleton.1 hs⟩

omit [Environment] in
/-- Whatever a call is answered, it puts no nonces but spellings of hashes. -/
theorem asksOnly_nonceRequest (request : NonceRequest) :
    Program.AsksOnly (S := calls) Op.PutsHashes request.program := by
  cases request with
  | putUserWallet userID walletAddress =>
    refine Program.AsksOnly.bind ?_ fun _ => Program.asksOnly_ret
    refine (asksOnly_mapErr (asksOnly_call putsHashes_generateNonce)).bind fun n => ?_
    exact asksOnly_mapErr (asksOnly_call (putsHashes_userWalletItems userID walletAddress n))
  | generateAndPutNonce userID =>
    refine Program.AsksOnly.bind ?_ fun _ => Program.asksOnly_ret
    refine (asksOnly_mapErr (asksOnly_call putsHashes_generateNonce)).bind fun n => ?_
    exact (asksOnly_call (putsHashes_putItem userID n)).bind fun _ => Program.asksOnly_ret
  | getAndReplaceNonceByID userID =>
    refine Program.AsksOnly.bind ?_ fun _ => Program.asksOnly_ret
    refine (asksOnly_mapErr (asksOnly_call putsHashes_generateNonce)).bind fun n => ?_
    refine Program.asksOnly_ask.2 ⟨putsHashes_putItem userID n, fun r => ?_⟩
    rcases r with e | _ | value
    · exact Program.asksOnly_throw
    · exact Program.asksOnly_throw
    · exact Program.asksOnly_ret

/-- Every nonce that was written is the spelling of a hash. -/
theorem WroteNonce.exists_hash (h : NonceRun c) {s : String} (hs : WroteNonce c s) :
    ∃ n, s = Hash.hex n := by
  obtain ⟨i, o, v, he, hs⟩ := hs
  obtain ⟨t, ht, hmem⟩ := h.exists_thread he
  obtain ⟨l₁, l₂, hl⟩ := List.append_of_mem hmem
  exact h.asked_wp (P := fun _ _ o => Op.PutsHashes o) (Q := fun _ _ _ => True)
    (fun request => (asksOnly_nonceRequest request).wp (fun _ _ ho => ho) fun _ _ _ => trivial)
    i t ht l₁ _ l₂ hl s hs

omit [Environment] in
/-- An item of a nonce is there before a transaction, or is one that it puts. -/
theorem mem_putNonces_of_foldl {items : List TransactWriteItem} {t : Keyed.Table Item.primaryKey}
    {user nonce : String}
    (h : ⟨.userIDToNonce, user, nonce⟩ ∈ (items.foldl TransactWriteItem.apply t).rows) :
    ⟨.userIDToNonce, user, nonce⟩ ∈ t.rows ∨
      nonce ∈ (Op.transactWriteItems items).putNonces := by
  induction items generalizing t with
  | nil => exact .inl h
  | cons item items ih =>
    rcases ih h with h | h
    · cases item with
      | put item =>
        rcases Keyed.Table.mem_put.1 h with ⟨h, -⟩ | rfl
        · exact .inl h
        · exact .inr (by simp [Op.putNonces])
      | delete type key => exact .inl (Keyed.Table.mem_erase.1 h).1
    · refine .inr ?_
      simp only [Op.putNonces, List.filterMap_cons] at h ⊢
      split
      · exact h
      · exact List.mem_cons_of_mem _ h

/-- An item of a nonce is there already, or is one that the call puts. -/
theorem World.mem_putNonces_of_effect {w w' : World} {o : Op} {v : o.Val}
    (heff : Effect w o v w') {user nonce : String}
    (hmem : ⟨.userIDToNonce, user, nonce⟩ ∈ w'.items.rows) :
    ⟨.userIDToNonce, user, nonce⟩ ∈ w.items.rows ∨ nonce ∈ o.putNonces := by
  cases o with
  | putItem item =>
    obtain ⟨-, rfl⟩ := heff
    rcases Keyed.Table.mem_put.1 hmem with ⟨hmem, -⟩ | rfl
    · exact .inl hmem
    · exact .inr (List.mem_singleton.2 rfl)
  | transactWriteItems items =>
    obtain ⟨-, rfl⟩ := heff
    exact mem_putNonces_of_foldl hmem
  | _ => exact .inl (heff.changes.items rfl ▸ hmem)

/-- What was written stays so. -/
theorem WroteNonce.mono {c' : nonceTable.Config} (hsub : c.history ⊆ c'.history) {s : String}
    (hs : WroteNonce c s) : WroteNonce c' s :=
  let ⟨i, o, v, he, hs⟩ := hs; ⟨i, o, v, hsub he, hs⟩

/-- The nonces that are stored have been written. -/
theorem written_of_mem (h : NonceRun c) {user nonce : String}
    (hmem : ⟨.userIDToNonce, user, nonce⟩ ∈ c.world.items.rows) : WroteNonce c nonce := by
  -- The items change by calls, and a nonce that is new was written by the call.
  refine h.induction (fun c : nonceTable.Config =>
    ∀ user nonce, ⟨.userIDToNonce, user, nonce⟩ ∈ c.world.items.rows → WroteNonce c nonce)
    ?_ ?_ ?_ ?_ user nonce hmem
  · exact fun _ _ hmem => absurd hmem List.not_mem_nil
  · intro c request _ hc _ user nonce hmem
    exact (hc user nonce hmem).mono fun e he => Config.mem_history_arrive.2 (.inl he)
  · intro c i ch t o k r w _ hc _ _ _ he user nonce hmem
    have hold : ⟨.userIDToNonce, user, nonce⟩ ∈ c.world.items.rows →
        WroteNonce (c.step i t ⟨o, r⟩ (k r) w) nonce := fun hmem =>
      (hc user nonce hmem).mono fun e he => Config.mem_history_step.2 (.inl he)
    rcases World.exec_cases he with ⟨e, -, rfl⟩ | ⟨v, rfl, heff⟩
    · exact hold hmem
    · rcases World.mem_putNonces_of_effect heff hmem with hmem | hs
      · exact hold hmem
      · exact ⟨i, o, v, Config.mem_history_step.2 (.inr rfl), hs⟩
  · intro c x w _ hc _ hx user nonce hmem
    have hitems : w.items = c.world.items := World.items_of_act hx
    exact (hc user nonce (hitems ▸ hmem)).mono fun e he => Config.mem_history_act.2 (.inl he)

/-- What the client fetches is what is stored. -/
theorem fetchNonce_eq (h : NonceRun c) {user nonce : String}
    (hmem : ⟨.userIDToNonce, user, nonce⟩ ∈ c.world.items.rows) :
    Client.fetchNonce ((c.world.items.get (.userIDToNonce, user)).map fun i => some i.value) =
      some nonce := by
  obtain ⟨n, rfl⟩ := (written_of_mem h hmem).exists_hash h
  have hget : c.world.items.get (.userIDToNonce, user) = some ⟨.userIDToNonce, user, n.hex⟩ :=
    Keyed.Table.get_key_of_mem hmem
  have hne : n.hex ≠ "" := by
    intro hempty
    have hlength := length_utf8_hex n
    rw [hempty] at hlength
    cases hlength
  rw [hget]
  simp [Client.fetchNonce, hne]

/-- For every nonce that was ever written, and every message, the client signs, byte for byte,
    the text whose hash the server checks; this is the text for the nonce that the client
    fetches, while it is stored. And a text is one for one message and one nonce only,
    whatever the bytes of the message are. -/
theorem signData_agrees :
    (∀ c, NonceRun c → (∀ nonce, WroteNonce c nonce → ∀ message,
        Hex.utf8 (Client.generateSignData message nonce) =
          Hex.utf8 (signedData message (some (hexToHash nonce)))) ∧
      ∀ user nonce, ⟨.userIDToNonce, user, nonce⟩ ∈ c.world.items.rows → WroteNonce c nonce ∧
        Client.fetchNonce ((c.world.items.get (.userIDToNonce, user)).map fun i =>
          some i.value) = some nonce) ∧
    (∀ m m' n n', generateSignData m n = generateSignData m' n' → m = m' ∧ n = n') ∧
    (∀ m n, Hex.utf8 (generateSignData m n) = signData (Hex.utf8 m) n) ∧
    ∀ m m' n n', signData m n = signData m' n' → m = m' ∧ n = n' := by
  refine ⟨fun c h => ⟨?_, fun user nonce hmem => ⟨written_of_mem h hmem, fetchNonce_eq h hmem⟩⟩,
    fun m m' n n' => generateSignData_injective, utf8_generateSignData,
    fun m m' n n' => signData_injective⟩
  intro nonce hwritten message
  obtain ⟨n, rfl⟩ := hwritten.exists_hash h
  rw [client_generateSignData_hex]

end

/-! The nonce with which a user registers. -/

section

attribute [local instance] Hardhat.environment

open Hardhat

/-- The author registers, with the nonce that is signed. -/
def registration : List nonceTable.Move :=
  [.arrive (.putUserWallet "author" author.string), .step 0 (.nonce nonce), .step 0 .ok]

/-- The nonce of a wallet that is registered. -/
theorem signData_agrees_registered : ∃ c, NonceRun c ∧ WroteNonce c nonce.hex ∧
    Hex.utf8 (Client.generateSignData createNFTSignData nonce.hex) =
      Hex.utf8 (signedData createNFTSignData (some (hexToHash nonce.hex))) := by
  obtain ⟨c, hc, hp⟩ := exists_reaches_of_run (fun _ _ => true) registration
    (.initial World.initial)
    (fun c => c.world.lookup .userIDToNonce "author" = some (Hash.hex nonce)) (by decide +kernel)
  have hmem := World.lookup_eq_some.1 (of_decide_eq_true hp)
  have hwritten := ((signData_agrees.1 c hc.any).2 _ _ hmem).1
  exact ⟨c, hc.any, hwritten, (signData_agrees.1 c hc.any).1 _ hwritten _⟩

end

end Knowtfolio
