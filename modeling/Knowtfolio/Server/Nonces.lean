import Knowtfolio.Server.Hardhat
import Knowtfolio.Server.Storage

/-!
# Nonces

The nonce of a user is replaced before the signature over it is checked. A nonce
is generated once, put once and replaced once, so that it authorises one request
at most (`Nonces`, `nonces`): every mint that is submitted can be paired with a
nonce that its request replaced, and which the recipient of the token has signed
(`mint_authorized`).

What was put is known from the history (`Placed`). A nonce is put only by the request that has
drawn it (`generated_of_putNonces`), by one call (`sameKind_of_putNonces`); so none that was
replaced is ever put again, which is what the invariant says of the table (`Nonces.put`).
-/

namespace Knowtfolio

open Interaction Machine

/-- The nonces that a call puts, in their spelling. -/
def Op.putNonces : Op → List String
  | putItem item => if item.type = .userIDToNonce then [item.value] else []
  | transactWriteItems items => items.filterMap fun
    | .put item => if item.type = .userIDToNonce then some item.value else none
    | .delete _ _ => none
  | _ => []

section

variable [Environment] {ok : server.Config → server.Move → Prop} {c c' : server.Config}

/-- The nonce has been put. -/
def Placed (c : server.Config) (s : String) : Prop :=
  ∃ i o v, .asked i (answered o v) ∈ c.history ∧ s ∈ o.putNonces

/-- A nonce that was placed was so ever after. -/
theorem Placed.mono (hsub : c.history ⊆ c'.history) {s : String} (h : Placed c s) : Placed c' s :=
  let ⟨i, o, v, he, hs⟩ := h; ⟨i, o, v, hsub he, hs⟩

/-- The nonce that is replaced, if one is. -/
def replacedNonce : server.Event → Option String
  | .asked _ ⟨.putItem _, .ok (some old)⟩ => some old
  | _ => none

/-! ## Putting a nonce -/

/-- A nonce that a request may put is one that it has generated. -/
theorem generated_of_putNonces {request : Request} {l : Log} {o : Op} (h : Permitted request l o)
    {s : String} (hs : s ∈ o.putNonces) : ∃ n, s = Hash.hex n ∧ answered .generateNonce n ∈ l := by
  cases o with
  | putItem item =>
    obtain ⟨_, _, _, userID, n, -, rfl, hn, -⟩ := h
    exact ⟨n, List.mem_singleton.1 hs, hn⟩
  | transactWriteItems items =>
    obtain ⟨userID, walletAddress, n, -, rfl, hn⟩ := h
    exact ⟨n, List.mem_singleton.1 hs, hn⟩
  | _ => cases hs

/-- The calls of one request that put nonces are of one kind. -/
theorem sameKind_of_putNonces {request : Request} {l l' : Log} {o o' : Op}
    (h : Permitted request l o) {s s' : String} (hs : s ∈ o.putNonces)
    (h' : Permitted request l' o') (hs' : s' ∈ o'.putNonces) : o'.sameKind o = true := by
  cases o with
  | putItem item =>
    obtain ⟨_, _, _, _, _, rfl, -⟩ := h
    cases o' with
    | putItem item' => rfl
    | transactWriteItems items =>
      obtain ⟨_, _, _, hreq, -⟩ := h'
      cases hreq
    | _ => cases hs'
  | transactWriteItems items =>
    obtain ⟨_, _, _, rfl, -⟩ := h
    cases o' with
    | putItem item' =>
      obtain ⟨_, _, _, _, _, hreq, -⟩ := h'
      cases hreq
    | transactWriteItems items' => rfl
    | _ => cases hs'
  | _ => cases hs

/-- A nonce that has been put is a hash. -/
theorem Placed.exists_hash (h : Run ok c) {s : String} (hs : Placed c s) : ∃ n, s = Hash.hex n := by
  obtain ⟨i, o, v, he, hs⟩ := hs
  obtain ⟨_, _, _, _, _, -, hperm⟩ := asks_of_asked h he
  obtain ⟨n, hn, -⟩ := generated_of_putNonces hperm hs
  exact ⟨n, hn⟩

/-- A nonce about to be put has not been put before. -/
theorem not_placed_of_rest (h : Run ok c) {i : ℕ} {t : server.Thread}
    (ht : c.threads[i]? = some t) {o : Op} {k : calls.Ans o → Prog Reply} (hk : t.rest = .ask o k)
    {s : String} (hs : s ∈ o.putNonces) : ¬ Placed c s := by
  rintro ⟨j, o', v, he, hs'⟩
  obtain ⟨honce, hperm⟩ := asks_of_rest h ht hk
  obtain ⟨u, l₁, l₂, hu, hl, -, hperm'⟩ := asks_of_asked h he
  obtain ⟨n, rfl, hn⟩ := generated_of_putNonces hperm hs
  obtain ⟨n', hnn', hn'⟩ := generated_of_putNonces hperm' hs'
  obtain rfl := Hash.hex_injective hnn'
  -- Both requests have generated it, so they are one, which has put a nonce before.
  have hij : i = j := (h.asked_unique handsOut_nonces ((h.mem_log ht).1 hn)
    ((h.mem_log hu).1 (hl ▸ List.mem_append_left _ hn')) (d := n) rfl rfl).1
  subst hij
  cases ht.symm.trans hu
  have := honce _ ((h.mem_log ht).2 he)
  rw [sameKind_of_putNonces hperm hs hperm' hs'] at this
  cases this

/-! ## Nonces in a run -/

/-- What is stored was put; no nonce is stored twice, or after it was replaced; none
    is replaced twice. -/
structure Nonces (c : server.Config) : Prop where
  stored : ∀ r ∈ c.world.items.rows, r.type = .userIDToNonce → Placed c r.value
  unique : ∀ r ∈ c.world.items.rows, ∀ r' ∈ c.world.items.rows, r.type = .userIDToNonce →
    r'.type = .userIDToNonce → r.value = r'.value → r = r'
  replaced : ∀ s ∈ c.history.filterMap replacedNonce, Placed c s ∧
    ∀ r ∈ c.world.items.rows, r.type = .userIDToNonce → r.value ≠ s
  once : (c.history.filterMap replacedNonce).Nodup

/-- Moves that put no nonce. -/
theorem Nonces.of_unchanged (hc : Nonces c) (hitems : c'.world.items = c.world.items)
    {x : server.Event} (hx : c'.history = c.history ++ [x]) (hreplaced : replacedNonce x = none) :
    Nonces c' := by
  have hsub : c.history ⊆ c'.history := by rw [hx]; exact List.subset_append_left _ _
  have hlist : c'.history.filterMap replacedNonce = c.history.filterMap replacedNonce := by
    rw [hx, List.filterMap_append, List.filterMap_cons_none hreplaced, List.filterMap_nil,
      List.append_nil]
  refine ⟨fun r hr ht => (hc.stored r (hitems ▸ hr) ht).mono hsub, ?_, fun s hs => ?_, ?_⟩
  · rw [hitems]
    exact hc.unique
  · rw [hlist] at hs
    rw [hitems]
    exact ⟨(hc.replaced s hs).1.mono hsub, (hc.replaced s hs).2⟩
  · rw [hlist]
    exact hc.once

/-- A move that puts the nonce of the item `new`, which was not put before. The nonce
    that it replaces, if it does, is not stored any more. -/
theorem Nonces.put (hc : Nonces c) {x : server.Event} (hx : c'.history = c.history ++ [x])
    (new : Item) (hnew : ¬ Placed c new.value) (hplaced : Placed c' new.value)
    (hrows : ∀ r ∈ c'.world.items.rows, r.type = .userIDToNonce →
      (r ∈ c.world.items.rows ∧ ∀ s, replacedNonce x = some s → r.value ≠ s) ∨ r = new)
    (hreplaced : ∀ s, replacedNonce x = some s →
      ∃ r ∈ c.world.items.rows, r.type = .userIDToNonce ∧ r.value = s) : Nonces c' := by
  have hsub : c.history ⊆ c'.history := by rw [hx]; exact List.subset_append_left _ _
  have hlist : c'.history.filterMap replacedNonce =
      c.history.filterMap replacedNonce ++ (replacedNonce x).toList := by
    rw [hx, List.filterMap_append]
    cases h : replacedNonce x <;> simp [h]
  -- A nonce that is stored, or was replaced, was put; the new one was not.
  refine ⟨fun r hr htype => ?_, fun r hr r' hr' htype htype' hval => ?_, fun s hs => ?_, ?_⟩
  · rcases hrows r hr htype with ⟨hr, -⟩ | rfl
    · exact (hc.stored r hr htype).mono hsub
    · exact hplaced
  · rcases hrows r hr htype with ⟨hr, -⟩ | rfl
    · rcases hrows r' hr' htype' with ⟨hr', -⟩ | rfl
      · exact hc.unique r hr r' hr' htype htype' hval
      · exact absurd (hval ▸ hc.stored r hr htype) hnew
    · rcases hrows r' hr' htype' with ⟨hr', -⟩ | rfl
      · exact absurd (hval ▸ hc.stored r' hr' htype') hnew
      · rfl
  · rw [hlist, List.mem_append, Option.mem_toList] at hs
    have hs' : Placed c s := by
      rcases hs with hs | hs
      · exact (hc.replaced s hs).1
      · obtain ⟨r, hr, htype, rfl⟩ := hreplaced s hs
        exact hc.stored r hr htype
    refine ⟨hs'.mono hsub, fun r hr htype hval => ?_⟩
    rcases hrows r hr htype with ⟨hr, hne⟩ | rfl
    · rcases hs with hs | hs
      · exact (hc.replaced s hs).2 r hr htype hval
      · exact hne s hs hval
    · exact hnew (hval ▸ hs')
  · rw [hlist]
    refine List.nodup_append.2 ⟨hc.once, by cases replacedNonce x <;> simp, ?_⟩
    rintro s hs _ hs' rfl
    obtain ⟨r, hr, htype, hval⟩ := hreplaced s (Option.mem_toList.1 hs')
    exact (hc.replaced s hs).2 r hr htype hval

section

variable (hrun : Run ok c) (hc : Nonces c) {i : ℕ} {t : server.Thread}
  (ht : c.threads[i]? = some t) {w' : World} {q : Prog Reply}

include hrun hc ht

/-- A nonce that replaces another one. -/
theorem Nonces.putItem {item : Item} {k : calls.Ans (.putItem item) → Prog Reply}
    (hk : t.rest = .ask (.putItem item) k) {old : Option String}
    (heff : World.Effect c.world (.putItem item) old w') :
    Nonces (c.step i t (answered (.putItem item) old) q w') := by
  obtain ⟨hold, rfl⟩ := heff
  obtain ⟨-, _, _, _, userID, n, -, hitem, -⟩ := asks_of_rest hrun ht hk
  have hnonce : item.type = .userIDToNonce := by rw [hitem]
  have hput : item.value ∈ (Op.putItem item).putNonces := by simp [Op.putNonces, hnonce]
  have hnew := not_placed_of_rest hrun ht hk hput
  -- The item whose nonce is replaced.
  have hrow : ∀ s, old = some s → ∃ r ∈ c.world.items.rows, r.primaryKey = item.primaryKey ∧
      r.type = .userIDToNonce ∧ r.value = s := fun s hs => by
    obtain ⟨r, hr, rfl⟩ := Option.map_eq_some_iff.1 (hold.symm.trans hs)
    obtain ⟨hmem, hkey⟩ := Keyed.Table.get_eq_some.1 hr
    exact ⟨r, hmem, hkey, (congrArg Prod.fst hkey).trans hnonce, rfl⟩
  have hx : ∀ s, replacedNonce (.asked i (answered (.putItem item) old)) = some s → old = some s :=
    fun s hs => by cases old <;> exact hs
  refine hc.put (x := .asked i (answered (.putItem item) old)) rfl item hnew ?_ ?_ ?_
  · exact ⟨i, .putItem item, old, List.mem_append_right _ (List.mem_singleton_self _), hput⟩
  · intro r hr htype
    rcases Keyed.Table.mem_put.1 hr with ⟨hr, hne⟩ | rfl
    · refine .inl ⟨hr, fun s hs hval => hne ?_⟩
      obtain ⟨r₀, hr₀, hkey, htype₀, hval₀⟩ := hrow s (hx s hs)
      rw [hc.unique r hr r₀ hr₀ htype htype₀ (hval.trans hval₀.symm), hkey]
    · exact .inr rfl
  · intro s hs
    obtain ⟨r, hr, -, htype, hval⟩ := hrow s (hx s hs)
    exact ⟨r, hr, htype, hval⟩

/-- The first nonce of a user, with its wallet address. -/
theorem Nonces.transactWriteItems {items : List TransactWriteItem}
    {k : calls.Ans (.transactWriteItems items) → Prog Reply}
    (hk : t.rest = .ask (.transactWriteItems items) k)
    (heff : World.Effect c.world (.transactWriteItems items) () w') :
    Nonces (c.step i t (answered (.transactWriteItems items) ()) q w') := by
  obtain ⟨-, userID, walletAddress, n, -, rfl, -⟩ := asks_of_rest hrun ht hk
  have hput : Hash.hex n ∈ (Op.transactWriteItems
      ((userWalletItems userID walletAddress n).map .put)).putNonces := List.mem_singleton_self _
  obtain ⟨-, hitems⟩ := World.mem_items_of_transact
    (by simp [userWalletItems, Item.primaryKey]) heff
  refine hc.put (x := .asked i (answered (.transactWriteItems
    ((userWalletItems userID walletAddress n).map .put)) ())) rfl
    ⟨.userIDToNonce, userID, n.hex⟩ (not_placed_of_rest hrun ht hk hput) ?_ ?_ nofun
  · exact ⟨i, .transactWriteItems _, (), List.mem_append_right _ (List.mem_singleton_self _), hput⟩
  · intro r hr htype
    rcases (hitems r).1 hr with hr | hr
    · exact .inl ⟨hr, nofun⟩
    · simp only [userWalletItems, List.mem_cons, List.not_mem_nil, or_false] at hr
      rcases hr with rfl | rfl | rfl
      · cases htype
      · exact .inr rfl
      · cases htype

end

/-- In every run, the nonces that are stored differ from one another, and none that was replaced is
    stored again. -/
theorem nonces (h : Run ok c) : Nonces c := by
  refine h.induction Nonces ⟨?_, ?_, ?_, ?_⟩ ?_ ?_ ?_
  · exact fun r hr => absurd hr Keyed.Table.not_mem_empty
  · exact fun r hr => absurd hr Keyed.Table.not_mem_empty
  · exact fun s hs => absurd hs List.not_mem_nil
  · exact List.nodup_nil
  · intro c r _ hc _
    exact hc.of_unchanged rfl rfl rfl
  · intro c i ch t o k ans w' hrun hc _ ht hk he
    rcases World.exec_cases he with ⟨e, rfl, rfl⟩ | ⟨v, rfl, heff⟩
    · exact hc.of_unchanged rfl rfl (by cases o <;> rfl)
    cases o with
    | putItem item => exact hc.putItem hrun ht hk heff
    | transactWriteItems items => exact hc.transactWriteItems hrun ht hk heff
    | _ => exact hc.of_unchanged (heff.changes.items rfl) rfl rfl
  · intro c x w' _ hc _ hx
    exact hc.of_unchanged (World.items_of_act hx) rfl rfl

/-! ## Wallet addresses in a run -/

/-- A call of a request leaves the items in the table, but nonces. -/
theorem mem_items_of_rest (h : Run ok c) {i : ℕ} {t : server.Thread}
    (ht : c.threads[i]? = some t) {o : Op} {k : calls.Ans o → Prog Reply} (hk : t.rest = .ask o k)
    {v : o.Val} {w' : World} (heff : World.Effect c.world o v w') {r : Item}
    (hr : r ∈ c.world.items.rows) (htype : r.type ≠ .userIDToNonce) : r ∈ w'.items.rows := by
  have hperm := (asks_of_rest h ht hk).2
  cases o with
  | putItem item =>
    obtain ⟨-, rfl⟩ := heff
    obtain ⟨_, _, _, _, _, -, rfl, -⟩ := hperm
    exact Keyed.Table.mem_put.2 (.inl ⟨hr, fun hkey => htype (congrArg Prod.fst hkey)⟩)
  | transactWriteItems items =>
    obtain ⟨_, _, _, -, rfl, -⟩ := hperm
    obtain ⟨-, hitems⟩ := World.mem_items_of_transact
      (by simp [userWalletItems, Item.primaryKey]) heff
    exact (hitems r).2 (.inl hr)
  | _ => rwa [heff.changes.items rfl]

/-- A wallet address that was looked up is still stored. -/
theorem mem_items_of_asked (h : Run ok c) {i : ℕ} {userID value : String}
    (he : .asked i (answered (.getItem .userIDToWalletAddress userID) (some (some value))) ∈
      c.history) : ⟨.userIDToWalletAddress, userID, value⟩ ∈ c.world.items.rows := by
  -- An item that was read is there, and registrations do not take it away again.
  refine h.induction (fun c : server.Config => ∀ i userID value,
    .asked i (answered (.getItem .userIDToWalletAddress userID) (some (some value))) ∈ c.history →
      ⟨.userIDToWalletAddress, userID, value⟩ ∈ c.world.items.rows)
    (fun _ _ _ h => absurd h List.not_mem_nil) ?_ ?_ ?_ i userID value he
  · intro c r _ hc _ i userID value he
    exact hc i userID value (by simpa using he)
  · intro c i ch t o k ans w' hrun hc _ ht hk hx j userID value he
    rcases World.exec_cases hx with ⟨e, rfl, rfl⟩ | ⟨v, rfl, heff⟩
    · rcases Config.mem_history_step.1 he with he | he
      · exact hc j userID value he
      · cases he
    · rcases Config.mem_history_step.1 he with he | he
      · exact mem_items_of_rest hrun ht hk heff (hc j userID value he) nofun
      · cases he
        obtain ⟨rfl, hview⟩ := heff
        exact World.mem_items_of_view hview
  · intro c x w' _ hc _ hx i userID value he
    have hitems : w'.items = c.world.items := World.items_of_act hx
    rw [Config.act, hitems]
    exact hc i userID value (by simpa using he)

/-! ## The nonce of a mint -/

/-- The nonce `n` authorises the request `i`, which has made the calls of the part `h`
    of the history, to mint the article `a` for `recipient`. -/
structure Authorizes (c : server.Config) (h : List server.Event) (i : ℕ) (recipient : Address)
    (a : String) (n : Hash) : Prop where
  /-- The recipient is the address of the author of the article. -/
  registered : ∃ author v, ArticleOf c a author ∧
    ⟨.userIDToWalletAddress, author, v⟩ ∈ c.world.items.rows ∧ hexToAddress v = recipient
  /-- The request carries a signature of the recipient. -/
  signed : ∃ t articleID address signature, c.threads[i]? = some t ∧
    t.request = .createForArticle articleID address signature ∧
    recoverSigner signature (generateSignData createNFTSignData n) = some recipient
  /-- The request has replaced the nonce. -/
  replaced : ∃ item, .asked i (answered (.putItem item) (some n.hex)) ∈ h

/-- The submissions of mints. -/
def Op.isMint : Op → Bool
  | mintNFT _ _ _ => true
  | _ => false

omit [Environment] in
/-- Mints are of one kind, so that a request submits one at most. -/
theorem Op.sameKind_of_isMint {o o' : Op} (h : o.isMint = true) (h' : o'.isMint = true) :
    o.sameKind o' = true := by
  cases o with
  | mintNFT => cases o' with
    | mintNFT => rfl
    | _ => exact absurd h' Bool.false_ne_true
  | _ => exact absurd h Bool.false_ne_true

/-- A mint that was submitted was authorized by a nonce that its request has replaced. -/
theorem authorizes_of_asked (h : Run ok c) {k i gasPrice : ℕ} {recipient : Address} {a : String}
    {t : MintTx}
    (hk : c.history[k]? = some (.asked i (answered (.mintNFT gasPrice recipient a) t))) :
    ∃ n, Authorizes c (c.history.take k) i recipient a n := by
  obtain ⟨u, hu, -, articleID, address, signature, target, v, userID, n, old, hreq, hrecipient, rfl,
    hfirst, hget, haddress, hput, hverify⟩ := asks_at h hk
  rw [Reaches.mem_logOf] at hfirst hget hput
  have hmem : ∀ {x}, x ∈ c.history.take k → x ∈ c.history := fun hx => List.mem_of_mem_take hx
  -- What was replaced is the spelling of a nonce.
  obtain ⟨n', rfl⟩ := ((nonces h).replaced old (List.mem_filterMap.2 ⟨_, hmem hput, rfl⟩)).1
    |>.exists_hash h
  rw [hexToHash_hex] at hverify
  obtain ⟨signer, hsigner, hsigned⟩ := verifySignature_eq_ok.1 hverify
  refine ⟨n', ⟨target.originalAuthorID, v, ?_, mem_items_of_asked h (hmem hget), ?_⟩,
    ⟨u, articleID, address, signature, hu, hreq, ?_⟩, ⟨_, hput⟩⟩
  · exact ((consistent h).loaded i _ _ _ (hmem hfirst)).article
  · rw [hrecipient, ← haddress, hexToAddress_string]
  · rw [hrecipient, hsigned, hexToAddress_string]
    exact hsigner

/-- Every mint that is submitted is authorised by a nonce that its request has
    replaced before, and different mints by different nonces. -/
theorem mint_authorized (h : Run ok c) {k i gasPrice : ℕ} {recipient : Address} {a : String}
    {t : MintTx}
    (hk : c.history[k]? = some (.asked i (answered (.mintNFT gasPrice recipient a) t))) :
    (∃ n, Authorizes c (c.history.take k) i recipient a n) ∧
      ∀ k' i' gasPrice' recipient' a' t',
        c.history[k']? = some (.asked i' (answered (.mintNFT gasPrice' recipient' a') t')) →
        ∀ n, Authorizes c (c.history.take k) i recipient a n →
          Authorizes c (c.history.take k') i' recipient' a' n → k = k' := by
  refine ⟨authorizes_of_asked h hk, ?_⟩
  rintro k' i' gasPrice' recipient' a' t' hk' n ⟨-, -, item, hput⟩ ⟨-, -, item', hput'⟩
  have heq := Lists.eq_of_nodup (nonces h).once (List.mem_of_mem_take hput)
    (List.mem_of_mem_take hput') (b := n.hex) rfl rfl
  injection heq with hi
  subst hi
  exact Lists.getElem?_inj_of_nodup (nodup_askers (fun _ _ => Op.sameKind_of_isMint) h) hk hk'
    (b := i) rfl rfl

end

/-! The author of an article has it tokenized. -/

section

attribute [local instance] Hardhat.environment

open Hardhat

/-- Whether a request mints the article of the run for its author. -/
def isMintByAuthor : server.Event → Bool
  | .asked _ ⟨.mintNFT _ recipient a, .ok _⟩ => recipient = author && a = articleID.1
  | _ => false

/-- The event that is looked for is a mint of the author's. -/
theorem exists_of_isMintByAuthor {x : server.Event} (h : isMintByAuthor x = true) :
    ∃ i gasPrice t, x = .asked i (answered (.mintNFT gasPrice author articleID) t) := by
  unfold isMintByAuthor at h
  split at h
  next i gasPrice recipient a t =>
    simp only [Bool.and_eq_true, decide_eq_true_eq] at h
    obtain ⟨rfl, rfl⟩ := h
    exact ⟨i, gasPrice, t, rfl⟩
  next => cases h

/-- The author's request to tokenize its article. -/
theorem mint_authorized_tokenize : ∃ c k i n, Run Any c ∧
    Authorizes c (c.history.take k) i author articleID n := by
  obtain ⟨c, hc, hp⟩ := exists_reaches_of_run (fun _ _ => true)
    [register 0, createArticle 1, .arrive tokenize :: mint 2].flatten (.initial World.initial)
    (fun c => c.history.any isMintByAuthor) (by decide +kernel)
  obtain ⟨x, hx, hmint⟩ := List.any_eq_true.1 hp
  obtain ⟨k, hk⟩ := List.getElem?_of_mem hx
  obtain ⟨i, gasPrice, t, rfl⟩ := exists_of_isMintByAuthor hmint
  obtain ⟨n, hn⟩ := (mint_authorized hc.any hk).1
  exact ⟨c, k, i, n, hc.any, hn⟩

end

end Knowtfolio
