import Knowtfolio.Server.World

/-!
# What a request may ask

For every request, the calls that its program may make, given the calls it has
made before and their answers (`Asks`), and what is known when it ends (`Ends`).
This holds whatever the answers are (`serve_asks`). It is all that the proofs
about runs know of the programs of the services.

There is one lemma for each service (`wp_create`, `wp_update` and so on), proved along its program
by the rules of calls. Programs that only look something up are done with all at once
(`OnlyLooksUp`), and so are the parts of `CreateForArticle` before the mint, whose calls are named
by two predicates on operations (`Op.isAuthentication`, `Op.isSubmission`).
-/

namespace Knowtfolio

open Interaction

/-- The calls that look something up, other than the article of a request. -/
def Op.isLookup : Op → Bool
  | getItem _ _ | getOwnerOfArticle _ | getArticleIdsOwnedBy _ | preload _ | find _ _ _ _
  | count _ => true
  | _ => false

/-- Two calls of a kind that no request makes twice. -/
def Op.sameKind : Op → Op → Bool
  | first _ _, first _ _ | create _, create _ | putItem _, putItem _
  | transactWriteItems _, transactWriteItems _ | mintNFT _ _ _, mintNFT _ _ _
  | commit _, commit _ | delete _, delete _ => true
  | _, _ => false

/-- The calls of such a kind. -/
def Op.isOnce (o : Op) : Bool := o.sameKind o

/-- A call that may be made twice is of the kind of no other one. -/
theorem Op.sameKind_left {o o' : Op} (h : o.isOnce = false) : o.sameKind o' = false := by
  cases o <;> cases o' <;> first | rfl | exact h

/-- What may be repeated is of no kind that is counted. -/
theorem Op.sameKind_right {o o' : Op} (h : o'.isOnce = false) : o.sameKind o' = false := by
  cases o <;> cases o' <;> first | rfl | exact h

/-- Look-ups may be repeated. -/
theorem Op.isOnce_of_isLookup {o : Op} (h : o.isLookup = true) : o.isOnce = false := by
  cases o <;> first | rfl | cases h

/-- The calls of `CreateForArticle` after the mint. -/
def Op.isAfterMint : Op → Bool
  | marshal _ | upload _ _ | save _ | commit _ => true
  | _ => false

variable [Environment]

/-- The id is one that was generated, if generating ids does not fail. -/
def Generated (l : Log) (id : String) : Prop :=
  answered (.generateString 11) id ∈ l ∨ ∃ n e, ⟨.generateString n, .error e⟩ ∈ l

/-- The writing calls of a request, given the log before them. -/
def Permitted (request : Request) (l : Log) : Op → Prop
  | .create a => ∃ userID title content id documentID,
      request = .create userID title content ∧
      a = newArticle id documentID title content userID ∧
      Generated l id ∧ Generated l documentID
  | .putItem item => ∃ articleID address signature userID n,
      request = .createForArticle articleID address signature ∧
      item = ⟨.userIDToNonce, userID, n.hex⟩ ∧ answered .generateNonce n ∈ l ∧
      answered (.getItem .walletAddressToUserID (hexToAddress address).string)
        (some (some userID)) ∈ l
  | .transactWriteItems items => ∃ userID walletAddress n,
      request = .putUserWallet userID walletAddress ∧
      items = (userWalletItems userID walletAddress n).map .put ∧ answered .generateNonce n ∈ l
  | .mintNFT _ recipient a => ∃ articleID address signature target v userID n old,
      request = .createForArticle articleID address signature ∧
      recipient = hexToAddress address ∧ a = target.id ∧
      answered (.first articleID false) target ∈ l ∧
      answered (.getItem .userIDToWalletAddress target.originalAuthorID) (some (some v)) ∈ l ∧
      (hexToAddress v).string = address ∧
      answered (.putItem ⟨.userIDToNonce, userID, Hash.hex n⟩) (some old) ∈ l ∧
      verifySignature address signature createNFTSignData (some (hexToHash old)) = .ok ()
  | .commit a =>
      (∃ userID id title content target, request = .update userID id title content ∧
        answered (.first id true) target ∈ l ∧ a = editArticle target title content) ∨
      ∃ articleID address signature target gasPrice t,
        request = .createForArticle articleID address signature ∧
        answered (.first articleID false) target ∈ l ∧ a = target.setIsTokenized ∧
        answered (.mintNFT gasPrice (hexToAddress address) target.id) t ∈ l
  | .delete x => ∃ userID id, request = .delete userID id ∧
      (x = id.1 ∨ ∃ target, answered (.first id false) target ∈ l ∧ x = target.id)
  | _ => True

/-- What a request may ask, given the log before it. -/
def Asks (request : Request) (l : Log) (o : Op) : Prop :=
  (∀ e ∈ l, e.1.sameKind o = false) ∧ Permitted request l o

/-- The article has been committed, or a call after the mint has failed. -/
def Stored (l : Log) : Prop :=
  (∃ a, answered (.commit a) () ∈ l) ∨
    ∃ e ∈ l, e.1.isAfterMint = true ∧ ∃ err, e = ⟨e.1, .error err⟩

/-- What is known when a request ends: an update that succeeds has been
    committed, and so has the token of a mint, unless a later call has failed. -/
def Ends (request : Request) (l : Log) (r : Except Fault Reply) : Prop :=
  match request with
  | .update _ _ _ _ => ∀ reply, r = .ok reply → ∃ a, answered (.commit a) () ∈ l
  | .createForArticle _ _ _ => ∀ gasPrice recipient a t,
      answered (.mintNFT gasPrice recipient a) t ∈ l → Stored l
  | _ => True

/-! ## Programs that only look something up -/

/-- The programs that only look something up. -/
abbrev OnlyLooksUp {α : Type} (p : Prog α) : Prop :=
  Program.AsksOnly (S := calls) (fun o : Op => o.isLookup = true) p

section

omit [Environment]

/-- A look-up is a program that only looks up. -/
theorem onlyLooksUp_call {o : Op} (h : o.isLookup = true) : OnlyLooksUp (call o) :=
  Program.asksOnly_ask.2 ⟨h, fun _ => Program.asksOnly_ofExcept⟩

/-- A value is looked up by one call. -/
theorem asksOnly_getValue {q : Op → Prop} {kvType : KeyValueType} {key : String}
    (h : q (.getItem kvType key)) : Program.AsksOnly (S := calls) q (getValue kvType key) :=
  (asksOnly_call h).bind fun _ => Program.asksOnly_ofExcept

/-- An article is loaded by two calls, for its row and its document. -/
theorem asksOnly_preloadFirst {q : Op → Prop} {id : String} (hfirst : q (.first id false))
    (hpreload : ∀ ownerID, q (.preload ownerID)) :
    Program.AsksOnly (S := calls) q (preloadFirst id) :=
  (asksOnly_call hfirst).bind fun _ => (asksOnly_call (hpreload _)).bind fun _ =>
    Program.asksOnly_ret

/-- It is looked up, and nothing else is done. -/
theorem onlyLooksUp_getValue (kvType : KeyValueType) (key : String) :
    OnlyLooksUp (getValue kvType key) :=
  asksOnly_getValue rfl

/-- The address of a user is looked up only. -/
theorem onlyLooksUp_getAddressByID (userID : String) : OnlyLooksUp (getAddressByID userID) :=
  (onlyLooksUp_getValue _ _).bind fun _ => Program.asksOnly_ret

/-- So it is where it need not be there. -/
theorem onlyLooksUp_findAddressByID (userID : String) : OnlyLooksUp (findAddressByID userID) := by
  refine Program.AsksOnly.handle ((onlyLooksUp_getAddressByID userID).bind fun _ => ?_) fun e => ?_
  · exact Program.asksOnly_ret
  · cases e with
    | err e =>
      exact Program.AsksOnly.ite (fun _ => Program.asksOnly_ret) fun _ => Program.asksOnly_throw
    | panic m => exact Program.asksOnly_throw

end

/-- The user of an address is looked up only. -/
theorem onlyLooksUp_getIDByAddress (a : Address) : OnlyLooksUp (getIDByAddress a) :=
  onlyLooksUp_getValue _ _

/-- So is the owner of an article. -/
theorem onlyLooksUp_getOwnerAddressOf (target : Article) :
    OnlyLooksUp (getOwnerAddressOf target) := by
  unfold getOwnerAddressOf
  split
  · exact (onlyLooksUp_call rfl).bind fun _ =>
      Program.AsksOnly.ite (fun _ => Program.asksOnly_throw) fun _ => Program.asksOnly_ret
  · exact Program.asksOnly_ret

/-- `AuthorizeEdit` asks for the owner of the token, and for the user of an address. -/
theorem asksOnly_authorizeEdit {q : Op → Prop} (howner : ∀ id, q (.getOwnerOfArticle id))
    (hitem : ∀ type key, q (.getItem type key)) (editorID : String) (target : Article)
    (requireNFT : Bool) :
    Program.AsksOnly (S := calls) q (authorizeEdit editorID target requireNFT) := by
  have hauthorized : Program.AsksOnly (S := calls) q (isAuthorized editorID target requireNFT) := by
    unfold isAuthorized
    split_ifs
    · exact (asksOnly_call (howner _)).bind fun ownerAddr =>
        (asksOnly_getValue (hitem _ _)).bind fun _ => Program.asksOnly_ret
    · exact Program.asksOnly_ret
    · exact Program.asksOnly_ret
  refine hauthorized.bind fun b => ?_
  cases b
  · exact Program.asksOnly_throw
  · exact Program.asksOnly_ret

/-- Whether a user may edit is decided by look-ups alone, without writing anything. -/
theorem onlyLooksUp_authorizeEdit (editorID : String) (target : Article) (requireNFT : Bool) :
    OnlyLooksUp (authorizeEdit editorID target requireNFT) :=
  asksOnly_authorizeEdit (fun _ => rfl) (fun _ _ => rfl) _ _ _

/-- Nor is anything written to find out who owns an article. -/
theorem onlyLooksUp_resolveOwner (target : Article) : OnlyLooksUp (resolveOwner target) := by
  refine (onlyLooksUp_getOwnerAddressOf target).bind fun owner => ?_
  cases owner with
  | some a => exact (onlyLooksUp_getIDByAddress a).bind fun _ => Program.asksOnly_ret
  | none => exact (onlyLooksUp_getAddressByID _).bind fun _ => Program.asksOnly_ret

/-- The owners of all results are looked up one by one. -/
theorem onlyLooksUp_searchEntries (owner : Option (String × Option Address))
    (targets : List Article) : OnlyLooksUp (searchEntries owner targets) := by
  induction targets with
  | nil => exact Program.asksOnly_ret
  | cons target targets ih =>
    refine Program.AsksOnly.bind (Program.AsksOnly.bind ?_ fun _ => Program.asksOnly_ret) fun _ =>
      ih.bind fun _ => Program.asksOnly_ret
    cases owner with
    | some owner => exact Program.asksOnly_ret
    | none => exact onlyLooksUp_resolveOwner target

/-- A search changes nothing. -/
theorem onlyLooksUp_searchForArticles (request : SearchRequest) :
    OnlyLooksUp (searchForArticles request) := by
  have hq : ∀ query owner, OnlyLooksUp (searchQuery request query owner) := fun query owner =>
    (onlyLooksUp_call rfl).bind fun targets => (onlyLooksUp_call rfl).bind fun _ =>
      (onlyLooksUp_searchEntries owner targets).bind fun _ => Program.asksOnly_ret
  unfold searchForArticles
  split
  · refine Program.AsksOnly.bind ?_ fun _ => hq _ _
    refine (onlyLooksUp_findAddressByID _).bind fun addr => ?_
    cases addr with
    | none => exact Program.asksOnly_ret
    | some addr => exact (onlyLooksUp_call rfl).bind fun _ => Program.asksOnly_ret
  · exact hq _ _

/-! ## The requests -/

/-- What holds of a request is known when a part of it has ended with an error,
    if it says nothing then. -/
theorem asks_of_isLookup {request : Request} {l : Log} {o : Op} (h : o.isLookup = true) :
    Asks request l o := by
  refine ⟨fun e _ => Op.sameKind_right (Op.isOnce_of_isLookup h), ?_⟩
  cases o with
  | getItem | getOwnerOfArticle | getArticleIdsOwnedBy | preload | find | count => trivial
  | _ => cases h

/-- A request that only looks something up. -/
theorem wp_of_onlyLooksUp {request : Request} {α : Type} {p : Prog α} {l : Log}
    {Q : Log → Except Fault α → Prop} (hp : OnlyLooksUp p)
    (hQ : ∀ l' r, (∀ e ∈ l', e.1.isLookup = true) → Q (l ++ l') r) :
    Program.wp (Asks request) Q l p :=
  hp.wp (fun _ _ ho => asks_of_isLookup ho) hQ

omit [Environment] in
/-- Whatever the generator answers, an id is had: the empty one if it has failed. -/
theorem wp_generateID {P : Log → Op → Prop} {Q : Log → Except Fault String → Prop} {l : Log}
    (hP : P l (.generateString 11))
    (hQ : ∀ r id, Generated (l ++ [⟨.generateString 11, r⟩]) id →
      Q (l ++ [⟨.generateString 11, r⟩]) (.ok id)) :
    Program.wp P Q l generateID := by
  refine Program.wp_ask.2 ⟨hP, fun r => ?_⟩
  cases r with
  | ok id => exact Program.wp_ret.2 (hQ _ id (.inl (by simp)))
  | error e => exact Program.wp_ret.2 (hQ _ "" (.inr ⟨11, e, by simp⟩))

omit [Environment] in
/-- What was generated stays so. -/
theorem Generated.append {l : Log} {id : String} (h : Generated l id) (l' : Log) :
    Generated (l ++ l') id :=
  h.imp (List.mem_append_left _) fun ⟨n, e, he⟩ => ⟨n, e, List.mem_append_left _ he⟩

/-- `Create` asks for two ids, and then creates the article that it was sent. -/
theorem wp_create (userID title content : String) :
    Program.wp (Asks (.create userID title content)) (fun _ _ => True) []
      (create userID title content) := by
  refine Program.wp_bind.2 (wp_generateID ⟨by simp, trivial⟩ fun r id hid => ?_)
  refine Program.wp_bind.2
    (wp_generateID ⟨by simp [Op.sameKind], trivial⟩ fun r' documentID hdoc => ?_)
  refine wp_call_bind.2 ⟨⟨by simp [Op.sameKind], ?_⟩, fun _ => trivial, fun _ => ?_⟩
  · exact ⟨userID, title, content, id, documentID, rfl, rfl, hid.append _, hdoc⟩
  · exact Program.wp_ret.2 trivial

/-- The transaction of `Update` commits what it has loaded with the fields replaced, and returns an
    article only after it has committed one. -/
theorem wp_updateTransaction (userID : String) (id : ArticleID) (title content : Option String) :
    Program.wp (Asks (.update userID id title content))
      (fun l r => ∀ target, r = .ok target → ∃ a, answered (.commit a) () ∈ l) []
      (updateTransaction userID id title content) := by
  refine wp_call_bind.2 ⟨⟨by simp, trivial⟩, fun e => by simp, fun _ => ?_⟩
  refine wp_call_bind.2 ⟨⟨by simp [Op.sameKind], trivial⟩, fun e => by simp, fun target => ?_⟩
  refine Program.wp_bind.2 (wp_of_onlyLooksUp (onlyLooksUp_authorizeEdit _ _ _) fun l r hl => ?_)
  -- The calls that authorize the edit look up, and so are of no kind that is asked once.
  have hl' : ∀ e ∈ l, ∀ o : Op, e.1.sameKind o = false := fun e he _ =>
    Op.sameKind_left (Op.isOnce_of_isLookup (hl e he))
  cases r with
  | error e => simp
  | ok u =>
    refine wp_call_bind.2 ⟨⟨?_, trivial⟩, fun e => by simp, fun _ => ?_⟩
    · intro e he
      simp only [List.nil_append, List.cons_append, List.mem_cons] at he
      rcases he with rfl | rfl | he
      · rfl
      · rfl
      · exact hl' e he _
    refine wp_call_bind.2 ⟨⟨?_, .inl ?_⟩, fun e => by simp, fun _ => ?_⟩
    · intro e he
      simp only [List.nil_append, List.cons_append, List.mem_cons, List.mem_append,
        List.not_mem_nil, or_false] at he
      rcases he with rfl | rfl | he | rfl
      · rfl
      · rfl
      · exact hl' e he _
      · rfl
    · exact ⟨userID, id, title, content, target, rfl, by simp, rfl⟩
    · exact Program.wp_ret.2 fun _ _ => ⟨_, List.mem_append_right _ (List.mem_singleton.2 rfl)⟩

/-- The calls of `CreateForArticle` before its transaction. -/
def Op.isAuthentication : Op → Bool
  | getItem _ _ | generateNonce | putItem _ => true
  | _ => false

omit [Environment] in
/-- What authenticates is no load of an article. -/
theorem Op.sameKind_first_of_isAuthentication {o : Op} (h : o.isAuthentication = true) (id : String)
    (preload : Bool) : o.sameKind (.first id preload) = false := by
  cases o <;> first | rfl | cases h

/-- What is asked before the transaction of `CreateForArticle`. -/
theorem asksOnly_authenticate (address signature : String) :
    Program.AsksOnly (S := calls) (fun o : Op => o.isAuthentication = true)
      (authenticate address signature) := by
  refine Program.AsksOnly.bind (asksOnly_mapErr (asksOnly_getValue rfl)) fun userID => ?_
  refine (asksOnly_mapErr ?_).bind fun _ => asksOnly_mapErr Program.asksOnly_ofExcept
  refine Program.AsksOnly.bind (asksOnly_mapErr (asksOnly_call (o := .generateNonce) rfl))
    fun n => ?_
  refine Program.asksOnly_ask.2 ⟨rfl, fun r => ?_⟩
  rcases r with e | _ | old
  · exact Program.asksOnly_throw
  · exact Program.asksOnly_throw
  · exact Program.asksOnly_ret

/-- The calls of the transaction of `CreateForArticle` up to the mint. -/
def Op.isSubmission : Op → Bool
  | getItem _ _ | suggestGasPrice | mintNFT _ _ _ => true
  | _ => false

/-- What is asked from the look-up of the author up to the mint. -/
theorem asksOnly_submitMint (address : String) (target : Article) :
    Program.AsksOnly (S := calls) (fun o : Op => o.isSubmission = true)
      (submitMint address target) := by
  refine Program.AsksOnly.bind (Program.AsksOnly.bind (asksOnly_getValue rfl)
    fun _ => Program.asksOnly_ret) fun author => ?_
  refine Program.AsksOnly.ite (fun _ => Program.asksOnly_throw) fun _ => ?_
  refine Program.AsksOnly.bind (asksOnly_call (o := .suggestGasPrice) rfl) fun gasPrice => ?_
  exact asksOnly_call (o := .mintNFT _ _ _) rfl

/-- What is known when a request has been authenticated: the nonce that was
    replaced is signed. -/
def Authenticated (address signature : String) (l : Log) : Prop :=
  ∃ userID n old, answered (.putItem ⟨.userIDToNonce, userID, Hash.hex n⟩) (some old) ∈ l ∧
    verifySignature address signature createNFTSignData (some (hexToHash old)) = .ok ()

/-- Once a request is authenticated, its log says by which nonce, and that the nonce was replaced.
    -/
theorem wp_authenticate (articleID : ArticleID) (address signature : String) :
    Program.wp (Asks (.createForArticle articleID address signature))
      (fun l r => (∀ e ∈ l, e.1.isAuthentication = true) ∧
        (r = .ok () → Authenticated address signature l)) []
      (authenticate address signature) := by
  refine Program.wp_bind.2 (wp_mapErr.2 (wp_getValue (asks_of_isLookup rfl) ?_ fun userID => ?_))
  · intro r e
    simp [Except.mapError, Op.isAuthentication]
  refine Program.wp_bind.2
    (wp_mapErr.2 (Program.wp_bind.2 (wp_mapErr.2 (wp_call.2 ⟨?_, ?_, fun n => ?_⟩))))
  · exact ⟨by simp [Op.sameKind], trivial⟩
  · intro e
    simp [Except.mapError, Op.isAuthentication]
  -- The nonce is replaced before it is known whether the signature is one of it.
  refine Program.wp_ask.2 ⟨⟨by simp [Op.sameKind], ?_⟩, fun r => ?_⟩
  · exact ⟨articleID, address, signature, userID, n, rfl, rfl, by simp, by simp⟩
  rcases r with e | _ | old
  · simp [Except.mapError, Op.isAuthentication]
  · simp [Except.mapError, Op.isAuthentication]
  · refine Program.wp_ret.2 (wp_mapErr.2 (Program.wp_ofExcept.2 ⟨by simp [Op.isAuthentication], ?_⟩))
    intro h
    refine ⟨userID, n, old, by simp, ?_⟩
    cases hv : verifySignature address signature createNFTSignData (some (hexToHash old)) with
    | ok u => rfl
    | error e => simp [hv, Except.mapError] at h

/-- The calls of `CreateForArticle` before the mint. -/
def Op.isBeforeMint : Op → Bool
  | begin | first _ _ | suggestGasPrice => true
  | o => o.isAuthentication

omit [Environment] in
/-- It comes before the mint. -/
theorem Op.isBeforeMint_of_isAuthentication {o : Op} (h : o.isAuthentication = true) :
    o.isBeforeMint = true := by
  cases o <;> first | rfl | exact h

omit [Environment] in
/-- What comes before the mint commits nothing. -/
theorem Op.sameKind_commit_of_isBeforeMint {o : Op} (h : o.isBeforeMint = true) (a : Article) :
    o.sameKind (.commit a) = false := by
  cases o <;> first | rfl | cases h

omit [Environment] in
/-- After the mint, a call that fails ends the request. -/
theorem stored_of_failed {l : Log} {o : Op} (ho : o.isAfterMint = true) (e : Err) :
    Stored (l ++ [⟨o, .error e⟩]) :=
  .inr ⟨_, List.mem_append_right _ (List.mem_singleton.2 rfl), ho, e, rfl⟩

/-- Nothing is said of the calls that may be made twice. -/
theorem asks_of_not_isOnce {request : Request} {l : Log} {o : Op} (h : o.isOnce = false) :
    Asks request l o :=
  ⟨fun _ _ => Op.sameKind_right h, by cases o <;> trivial⟩

/-- After the mint, everything is stored unless a call fails. -/
theorem wp_storeTokenized {articleID : ArticleID} {address signature : String} {l : Log}
    {target : Article} {gasPrice : ℕ} {t : MintTx} (hl : ∀ e ∈ l, e.1.isBeforeMint = true)
    (hfirst : answered (.first articleID false) target ∈ l) :
    Program.wp (Asks (.createForArticle articleID address signature)) (fun l _ => Stored l)
      (l ++ [answered (.mintNFT gasPrice (hexToAddress address) target.id) t])
      (storeTokenized target) := by
  refine wp_call_bind.2 ⟨asks_of_not_isOnce rfl, fun e => stored_of_failed rfl e, fun json => ?_⟩
  refine wp_call_bind.2 ⟨asks_of_not_isOnce rfl, fun e => stored_of_failed rfl e, fun _ => ?_⟩
  refine wp_call_bind.2 ⟨asks_of_not_isOnce rfl, fun e => stored_of_failed rfl e, fun _ => ?_⟩
  refine (wp_call (o := .commit _)).2
    ⟨⟨fun e he => ?_, .inr ?_⟩, fun e => stored_of_failed rfl e, fun _ => ?_⟩
  · simp only [List.mem_append, List.mem_singleton] at he
    rcases he with (((he | rfl) | rfl) | rfl) | rfl
    · exact Op.sameKind_commit_of_isBeforeMint (hl e he) _
    all_goals rfl
  · exact ⟨articleID, address, signature, target, gasPrice, t, rfl, by simp [hfirst], rfl, by simp⟩
  · exact .inl ⟨_, List.mem_append_right _ (List.mem_singleton.2 rfl)⟩

omit [Environment] in
/-- Nor does it mint. -/
theorem Op.sameKind_mintNFT_of_isBeforeMint {o : Op} (h : o.isBeforeMint = true) (gasPrice : ℕ)
    (recipient : Address) (a : String) : o.sameKind (.mintNFT gasPrice recipient a) = false := by
  cases o <;> first | rfl | cases h

/-- Before the mint, its authorisation is known. -/
theorem wp_submitMint {articleID : ArticleID} {address signature : String} {l : Log}
    {target : Article} (hl : ∀ e ∈ l, e.1.isBeforeMint = true)
    (hfirst : answered (.first articleID false) target ∈ l)
    (hauth : Authenticated address signature l) :
    Program.wp (Asks (.createForArticle articleID address signature))
      (fun l' r => match r with
        | .ok t => ∃ l₁ gasPrice, (∀ e ∈ l₁, e.1.isBeforeMint = true) ∧
          answered (.first articleID false) target ∈ l₁ ∧
          l' = l₁ ++ [answered (.mintNFT gasPrice (hexToAddress address) target.id) t]
        | .error _ => ∀ gasPrice recipient a t, answered (.mintNFT gasPrice recipient a) t ∉ l') l
      (submitMint address target) := by
  have hbefore : ∀ {l : Log}, (∀ e ∈ l, e.1.isBeforeMint = true) →
      ∀ gasPrice recipient a t, answered (.mintNFT gasPrice recipient a) t ∉ l :=
    fun h _ _ _ _ ht => by cases h _ ht
  refine Program.wp_bind.2 (Program.wp_bind.2 (wp_getValue (asks_of_isLookup rfl) ?_ fun v => ?_))
  · exact fun r e => hbefore (Lists.forall_mem_concat hl rfl)
  refine Program.wp_ret.2 ?_
  have hl' : ∀ e ∈ l ++ [answered (.getItem .userIDToWalletAddress target.originalAuthorID)
      (some (some v))], e.1.isBeforeMint = true := Lists.forall_mem_concat hl rfl
  -- The address of the author and the address that signed, compared after checksumming.
  refine Program.wp_ite.2 ⟨fun _ => Program.wp_throw.2 (hbefore hl'), fun hv => ?_⟩
  push Not at hv
  refine wp_call_bind.2 ⟨asks_of_not_isOnce rfl,
    fun e => hbefore (Lists.forall_mem_concat hl' rfl), fun gasPrice => ?_⟩
  have hl'' : ∀ e ∈ l ++ [answered (.getItem .userIDToWalletAddress target.originalAuthorID)
      (some (some v))] ++ [answered .suggestGasPrice gasPrice], e.1.isBeforeMint = true :=
    Lists.forall_mem_concat hl' rfl
  refine (wp_call (o := .mintNFT _ _ _)).2
    ⟨⟨fun e he => Op.sameKind_mintNFT_of_isBeforeMint (hl'' e he) _ _ _, ?_⟩, ?_, ?_⟩
  · obtain ⟨userID, n, old, hput, hver⟩ := hauth
    exact ⟨articleID, address, signature, target, v, userID, n, old, rfl, rfl, rfl, by simp [hfirst],
      by simp, hv, by simp [hput], hver⟩
  · intro e gasPrice' recipient a t ht
    rcases List.mem_append.1 ht with ht | ht
    · exact hbefore hl'' _ _ _ _ ht
    · cases List.mem_singleton.1 ht
  · exact fun t => ⟨_, gasPrice, hl'', by simp [hfirst], rfl⟩

/-- `CreateForArticle` mints and commits what it has checked; once it has minted it commits, unless
    a call fails. -/
theorem wp_createForArticle (articleID : ArticleID) (address signature : String) :
    Program.wp (Asks (.createForArticle articleID address signature))
      (fun l _ => ∀ gasPrice recipient a t,
        answered (.mintNFT gasPrice recipient a) t ∈ l → Stored l) []
      (createForArticle articleID address signature) := by
  -- Nothing has to be stored as long as there is no mint in the log.
  have hbefore : ∀ {l : Log}, (∀ e ∈ l, e.1.isBeforeMint = true) → ∀ gasPrice recipient a t,
      answered (.mintNFT gasPrice recipient a) t ∈ l → Stored l :=
    fun h _ _ _ _ ht => by cases h _ ht
  refine Program.wp_bind.2 (Program.wp_mono (fun _ _ h => h) ?_
    (wp_authenticate articleID address signature))
  rintro l r ⟨hl, hauth⟩
  have hl₀ : ∀ e ∈ l, e.1.isBeforeMint = true := fun e he =>
    Op.isBeforeMint_of_isAuthentication (hl e he)
  have hl₁ : ∀ r, ∀ e ∈ l ++ [⟨.begin, r⟩], e.1.isBeforeMint = true := fun _ =>
    Lists.forall_mem_concat hl₀ rfl
  have hl₂ : ∀ r r', ∀ e ∈ l ++ [⟨.begin, r⟩] ++ [⟨.first articleID false, r'⟩],
      e.1.isBeforeMint = true := fun r _ => Lists.forall_mem_concat (hl₁ r) rfl
  cases r with
  | error e => exact hbefore hl₀
  | ok u =>
  obtain ⟨userID, n, old, hput, hver⟩ := hauth rfl
  refine wp_call_bind.2 ⟨asks_of_not_isOnce rfl, fun e => hbefore (hl₁ _), fun v => ?_⟩
  refine Program.wp_bind.2 (wp_mapErr.2 ((wp_call (o := .first _ _)).2
    ⟨⟨?_, trivial⟩, fun e => hbefore (hl₂ _ _), fun target => ?_⟩))
  · exact Lists.forall_mem_concat
      (fun e he => Op.sameKind_first_of_isAuthentication (hl e he) _ _) rfl
  refine Program.wp_bind.2 (Program.wp_mono (fun _ _ h => h) ?_ (wp_submitMint (hl₂ _ _)
    (List.mem_append_right _ (List.mem_singleton.2 rfl))
    ⟨userID, n, old, by simp [hput], hver⟩))
  rintro l' (e | t) hl'
  · exact fun gasPrice recipient a t ht => absurd ht (hl' gasPrice recipient a t)
  · obtain ⟨l₁, gasPrice, hbefore', hfirst, rfl⟩ := hl'
    refine Program.wp_bind.2 (Program.wp_mono (fun _ _ h => h) ?_
      (wp_storeTokenized hbefore' hfirst))
    rintro l'' (e | u) hstored
    · exact fun _ _ _ _ _ => hstored
    · exact Program.wp_ret.2 fun _ _ _ _ _ => hstored

/-- `PutUserWallet` puts its three items at once. -/
theorem wp_putUserWallet (userID walletAddress : String) :
    Program.wp (Asks (.putUserWallet userID walletAddress)) (fun _ _ => True) []
      (putUserWallet userID walletAddress) := by
  refine Program.wp_bind.2 (wp_mapErr.2 ((wp_call (o := .generateNonce)).2
    ⟨asks_of_not_isOnce rfl, fun _ => trivial, fun n => ?_⟩))
  refine wp_mapErr.2 ((wp_call (o := .transactWriteItems _)).2
    ⟨⟨by simp [Op.sameKind], ?_⟩, fun _ => trivial, fun _ => trivial⟩)
  exact ⟨userID, walletAddress, n, rfl, rfl, by simp⟩

omit [Environment] in
/-- The error that there is no article ends `Delete`; any other one is lost, and it goes on with the
    zero article. -/
theorem wp_deleteTarget {P : Log → Op → Prop} {Q : Log → Except Fault Article → Prop} {l : Log}
    {id : ArticleID} {r : Except Err Article} (herr : ∀ e, Q l (.error e))
    (hok : ∀ target : Article, target.id = id.1 ∨ r = .ok target → Q l (.ok target)) :
    Program.wp P Q l (deleteTarget id r) := by
  rcases r with e | target
  · cases e with
    | recordNotFound => exact Program.wp_throw.2 (herr _)
    | _ => exact Program.wp_ret.2 (hok _ (.inl rfl))
  · exact Program.wp_ret.2 (hok _ (.inr rfl))

/-- `Delete` deletes what it was sent, after it has checked whose it is. -/
theorem wp_delete (userID : String) (id : ArticleID) :
    Program.wp (Asks (.delete userID id)) (fun _ _ => True) [] (delete userID id) := by
  refine Program.wp_ask.2 ⟨⟨by simp, trivial⟩, fun r => ?_⟩
  refine Program.wp_bind.2 (wp_deleteTarget (fun _ => trivial) fun target htarget => ?_)
  refine Program.wp_bind.2 (wp_of_onlyLooksUp (onlyLooksUp_authorizeEdit _ _ _) fun l r' hl => ?_)
  cases r' with
  | error e => trivial
  | ok u =>
  refine wp_call_bind.2 ⟨⟨List.forall_mem_cons.2 ⟨rfl, fun e he => ?_⟩, userID, id, rfl, ?_⟩,
    fun _ => trivial, fun _ => Program.wp_ret.2 trivial⟩
  · exact Op.sameKind_left (Op.isOnce_of_isLookup (hl e he))
  · rcases htarget with htarget | rfl
    · exact .inl htarget
    · exact .inr ⟨target, List.mem_cons_self, rfl⟩

/-- `Read` writes nothing. -/
theorem wp_read (id : ArticleID) :
    Program.wp (Asks (.read id)) (fun _ _ => True) [] (read id) := by
  refine Program.wp_bind.2 (wp_mapErr.2 (wp_call_bind.2
    ⟨⟨by simp, trivial⟩, fun _ => trivial, fun target => ?_⟩))
  refine wp_call_bind.2 ⟨asks_of_isLookup rfl, fun _ => trivial, fun document =>
    Program.wp_ret.2 ?_⟩
  refine Program.wp_bind.2 (wp_of_onlyLooksUp (onlyLooksUp_getOwnerAddressOf _) fun l r _ => ?_)
  rcases r with e | _ | ownerAddr
  · trivial
  · refine Program.wp_bind.2 (wp_of_onlyLooksUp (onlyLooksUp_findAddressByID _) fun l r _ => ?_)
    cases r with
    | error e => trivial
    | ok a => exact Program.wp_ret.2 trivial
  · refine Program.wp_bind.2 (wp_of_onlyLooksUp (onlyLooksUp_getIDByAddress _) fun l r _ => ?_)
    cases r with
    | error e => trivial
    | ok a => exact Program.wp_ret.2 trivial

/-- What a request asks, and what is known in the end, whatever the answers. -/
theorem serve_asks (request : Request) :
    (serve request).wp (Asks request) (Ends request) [] := by
  -- The reply wraps the result of the service, so a request ends as its service does.
  cases request with
  | create userID title content =>
    exact Program.wp_bind_ret (wp_create userID title content) (fun _ _ h => h) fun _ _ h => h
  | read id =>
    exact Program.wp_bind_ret (wp_read id) (fun _ _ h => h) fun _ _ h => h
  | update userID id title content =>
    refine Program.wp_bind.2 (Program.wp_bind.2 (wp_mapErr.2 (Program.wp_mono (fun _ _ h => h) ?_
      (wp_updateTransaction userID id title content))))
    rintro l (e | target) h
    · exact fun reply hr => by cases hr
    · exact Program.wp_ret.2 (Program.wp_ret.2 fun _ _ => h target rfl)
  | delete userID id =>
    exact Program.wp_bind_ret (wp_delete userID id) (fun _ _ h => h) fun _ _ h => h
  | createForArticle articleID address signature =>
    exact Program.wp_bind_ret (wp_createForArticle articleID address signature) (fun _ _ h => h)
      fun _ _ h => h
  | search request =>
    refine Program.wp_bind_ret (wp_of_onlyLooksUp (Q := fun _ _ => True)
      (onlyLooksUp_searchForArticles request) fun _ _ _ => trivial) (fun _ _ h => h) fun _ _ h => h
  | putUserWallet userID walletAddress =>
    exact Program.wp_bind_ret (wp_putUserWallet userID walletAddress) (fun _ _ h => h)
      fun _ _ h => h

end Knowtfolio
