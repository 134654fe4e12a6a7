import Knowtfolio.Server.Steps

/-!
# What a state answers

What the programs that only read give on one world, no call failing: their
evaluation against `World.view`. Who owns an article is decided in three places,
by `Read`, by the search and by `AuthorizeEdit`; here it is said once
(`World.owner`), and how the three differ from it (`eval_read`,
`eval_resolveOwner`, `eval_authorizeEdit`).
-/

namespace Knowtfolio

open Interaction

/-- The value of an item of the address table. -/
def World.lookup (w : World) (type : KeyValueType) (key : String) : Option String :=
  (w.items.get (type, key)).map (·.value)

/-- What is looked up is an item of the table. -/
theorem World.lookup_eq_some {w : World} {type : KeyValueType} {key value : String} :
    w.lookup type key = some value ↔ ⟨type, key, value⟩ ∈ w.items.rows :=
  Item.value_eq_some

variable [Environment] (w : World)

/-- The owner of an article: the user of the wallet that has its token, or its
    author if it is not tokenized; with the wallet address. A tokenized article of
    which the contract has no token, or a token of an unknown wallet, has none. -/
def World.owner (w : World) (r : ArticleRow) : Option (String × Option Address) :=
  if r.isTokenized then
    match w.contract.getOwnerOfArticle r.id with
    | some a =>
      if a = 0 then none
      else (w.lookup .walletAddressToUserID a.string).map fun user => (user, some a)
    | none => none
  else some (r.originalAuthorID,
    (w.lookup .userIDToWalletAddress r.originalAuthorID).map hexToAddress)

/-- What `Read` answers of an article, given its owner. -/
def World.result (w : World) (r : ArticleRow) (owner : String × Option Address) : ArticleResult :=
  withOwnerInfo owner.1 owner.2 (articleToResult (r.article (w.documentOf r.id)))

section

omit [Environment]

variable [MySQL] {α : Type} {w}

/-- A call evaluates to what the world answers. -/
theorem eval_call (o : Op) : (call o).eval w.view = (w.view o).mapError .err := by
  rw [call, Program.eval_ask, Program.eval_ofExcept]

/-- A call that is answered by a value. -/
theorem eval_call_bind {o : Op} {v : o.Val} (h : w.view o = .ok v) (f : o.Val → Prog α) :
    (call o >>= f).eval w.view = (f v).eval w.view := by
  rw [Program.eval_bind, eval_call, h]
  rfl

/-- A call that fails. -/
theorem eval_call_bind_error {o : Op} {e : Err} (h : w.view o = .error e) (f : o.Val → Prog α) :
    (call o >>= f).eval w.view = .error (.err e) := by
  rw [Program.eval_bind, eval_call, h]
  rfl

/-- Errors are turned into others. -/
theorem eval_mapErr (f : Err → Err) (p : Prog α) :
    (mapErr f p).eval w.view = (p.eval w.view).mapError (Fault.mapErr f) := by
  rw [mapErr, Program.eval_handle]
  cases p.eval w.view <;> rfl

/-- A part that succeeds is followed by the rest. -/
theorem eval_mapErr_bind {β : Type} {p : Prog α} {a : α} (h : p.eval w.view = .ok a) (g : Err → Err)
    (f : α → Prog β) : (mapErr g p >>= f).eval w.view = (f a).eval w.view := by
  rw [Program.eval_bind, eval_mapErr, h]
  rfl

end

/-! ## The address table -/

section

omit [Environment]

variable [MySQL]

/-- What is looked up is the value, or an error that there is none. -/
theorem eval_getValue (type : KeyValueType) (key : String) :
    (getValue type key).eval w.view = match w.lookup type key with
      | some value => .ok value
      | none => .error (.err (.api .itemNotFound
          ("item for " ++ type.toString ++ "/" ++ key ++ " not found") .client)) := by
  rw [getValue, Program.eval_bind, eval_call, World.view, World.lookup]
  cases w.items.get (type, key) <;> rfl

/-- The address of a user is read from the text stored. -/
theorem eval_getAddressByID (userID : String) :
    (getAddressByID userID).eval w.view =
      ((getValue .userIDToWalletAddress userID).eval w.view).map hexToAddress := by
  rw [getAddressByID, Program.eval_bind]
  cases (getValue .userIDToWalletAddress userID).eval w.view <;> rfl

/-- That there is no wallet address is no error. -/
theorem eval_findAddressByID (userID : String) :
    (findAddressByID userID).eval w.view =
      .ok ((w.lookup .userIDToWalletAddress userID).map hexToAddress) := by
  rw [findAddressByID, Program.eval_handle, Program.eval_bind, eval_getAddressByID, eval_getValue]
  cases w.lookup .userIDToWalletAddress userID <;> rfl

end

/-- The user is looked up by the spelling of the address. -/
theorem eval_getIDByAddress (a : Address) :
    (getIDByAddress a).eval w.view =
      (getValue .walletAddressToUserID a.string).eval w.view := rfl

/-! ## The owner of an article -/

variable {w} {r : ArticleRow} (d : Document)

/-- The contract is not asked about an article that is not tokenized. -/
theorem eval_getOwnerAddressOf_of_not_tokenized (h : r.isTokenized = false) :
    (getOwnerAddressOf (r.article d)).eval w.view = .ok none := by
  rw [getOwnerAddressOf, if_neg (by simp [ArticleRow.article, h])]
  rfl

/-- The address of the owner of an article is that of its token. -/
theorem eval_getOwnerAddressOf (h : r.isTokenized = true) {a : Address}
    (ha : w.contract.getOwnerOfArticle r.id = some a) (hne : a ≠ 0) :
    (getOwnerAddressOf (r.article d)).eval w.view = .ok (some a) := by
  rw [getOwnerAddressOf, if_pos (by exact h)]
  refine (eval_call_bind (o := .getOwnerOfArticle r.id) (congrArg ofView ha) _).trans ?_
  rw [if_neg (by rwa [Address.string_inj])]
  rfl

/-- There is an error where the contract has no token. -/
theorem eval_getOwnerAddressOf_error (h : r.isTokenized = true)
    (ha : ∀ a, w.contract.getOwnerOfArticle r.id = some a → a = 0) :
    ∃ e, (getOwnerAddressOf (r.article d)).eval w.view = .error e := by
  rw [getOwnerAddressOf, if_pos (by exact h)]
  cases hview : w.contract.getOwnerOfArticle r.id with
  | none =>
    exact ⟨_, eval_call_bind_error (o := .getOwnerOfArticle r.id) (congrArg ofView hview) _⟩
  | some a =>
    have hcall := fun f : Address → Prog (Option Address) =>
      eval_call_bind (w := w) (o := .getOwnerOfArticle r.id) (congrArg ofView hview) f
    refine ⟨?_, (hcall _).trans ?_⟩
    rotate_left
    · rw [if_pos (by rw [ha a hview])]
      exact Program.eval_throw _ _

omit [Environment] in
/-- An article that is stored is found. -/
theorem World.view_first_of_mem [MySQL] (hr : r ∈ w.articles.rows) (preload : Bool) :
    w.view (.first r.id preload) =
      .ok (r.article (if preload then w.documentOf r.id else .zero)) := by
  rw [World.view, Keyed.Table.get_key_of_mem hr]

omit [Environment] in
/-- Both queries of `Preload` on the same state give the article with its document. -/
theorem eval_preloadFirst [MySQL] (hr : r ∈ w.articles.rows) :
    (preloadFirst r.id).eval w.view = .ok (r.article (w.documentOf r.id)) := by
  rw [preloadFirst, eval_call_bind (World.view_first_of_mem hr false)]
  exact eval_call_bind (o := .preload r.id) rfl _

omit [Environment] in
/-- The second query is not made if there is no article. -/
theorem eval_preloadFirst_of_not_mem [MySQL] {id : String}
    (hid : ∀ r ∈ w.articles.rows, r.id ≠ id) :
    (preloadFirst id).eval w.view = .error (.err .recordNotFound) := by
  refine eval_call_bind_error (o := .first id false) ?_ _
  rw [World.view, Keyed.Table.get_eq_none.2 hid]

/-- The owner of an article that is not tokenized is its author, at the address registered. -/
theorem World.owner_of_not_tokenized (h : r.isTokenized = false) :
    w.owner r = some (r.originalAuthorID,
      (w.lookup .userIDToWalletAddress r.originalAuthorID).map hexToAddress) :=
  if_neg (by simp [h])

/-- The owner of a tokenized article is the user of the address that owns its token. -/
theorem World.owner_of_tokenized (h : r.isTokenized = true) {a : Address}
    (ha : w.contract.getOwnerOfArticle r.id = some a) (hne : a ≠ 0) :
    w.owner r = (w.lookup .walletAddressToUserID a.string).map fun user => (user, some a) := by
  rw [World.owner, if_pos h, ha]
  exact if_neg hne

/-- An article stored as tokenized, whose token is not minted, has no owner. -/
theorem World.owner_eq_none (h : r.isTokenized = true)
    (ha : ∀ a, w.contract.getOwnerOfArticle r.id = some a → a = 0) : w.owner r = none := by
  rw [World.owner, if_pos h]
  cases hview : w.contract.getOwnerOfArticle r.id with
  | none => rfl
  | some a => exact if_pos (ha a hview)

omit [Environment] in
/-- An article is not tokenized, or the contract tells the owner of its token, or it
    does not. -/
theorem World.token_cases (w : World) (r : ArticleRow) : r.isTokenized = false ∨
    (r.isTokenized = true ∧ ∃ a, w.contract.getOwnerOfArticle r.id = some a ∧ a ≠ 0) ∨
    r.isTokenized = true ∧ ∀ a, w.contract.getOwnerOfArticle r.id = some a → a = 0 := by
  cases htokenized : r.isTokenized with
  | false => exact .inl rfl
  | true =>
    by_cases ha : ∃ a, w.contract.getOwnerOfArticle r.id = some a ∧ a ≠ 0
    · exact .inr (.inl ⟨rfl, ha⟩)
    · push Not at ha
      exact .inr (.inr ⟨rfl, ha⟩)

/-- `Read` answers the owner of an article that is stored, if it has one. -/
theorem eval_read (hr : r ∈ w.articles.rows) {res : ArticleResult} :
    (read r.id).eval w.view = .ok res ↔
      ∃ owner, w.owner r = some owner ∧ res = w.result r owner := by
  rw [read, eval_mapErr_bind (eval_preloadFirst hr), Program.eval_bind]
  rcases w.token_cases r with h | ⟨h, a, ha, hne⟩ | ⟨h, ha⟩
  · rw [eval_getOwnerAddressOf_of_not_tokenized _ h, World.owner_of_not_tokenized h]
    simp only [Program.ok_bind, Program.eval_bind, eval_findAddressByID, ArticleRow.article]
    simp [World.result, ArticleRow.article, eq_comm]
  · rw [eval_getOwnerAddressOf _ h ha hne, World.owner_of_tokenized h ha hne]
    simp only [Program.ok_bind, Program.eval_bind, eval_getIDByAddress, eval_getValue]
    cases w.lookup .walletAddressToUserID a.string with
    | none => simp
    | some user => simp [World.result, eq_comm]
  · obtain ⟨e, he⟩ := eval_getOwnerAddressOf_error (w.documentOf r.id) h ha
    rw [he, World.owner_eq_none h ha]
    simp

/-- `Read` reports the user as the owner of the article. -/
def Reports (w : World) (id user : String) : Prop :=
  ∃ res, (read id).eval w.view = .ok res ∧ res.ownerID = user

/-- Who is reported depends on the row. -/
theorem reports_iff (hr : r ∈ w.articles.rows) {id user : String} (hid : r.id = id) :
    Reports w id user ↔ ∃ a, w.owner r = some (user, a) := by
  rw [Reports, ← hid]
  constructor
  · rintro ⟨res, hres, rfl⟩
    obtain ⟨⟨user, a⟩, howner, rfl⟩ := (eval_read hr).1 hres
    exact ⟨a, howner⟩
  · rintro ⟨a, howner⟩
    exact ⟨_, (eval_read hr).2 ⟨_, howner, rfl⟩, rfl⟩

/-- `Read` reports one owner. -/
theorem Reports.unique {id user user' : String} (h : Reports w id user) (h' : Reports w id user') :
    user = user' := by
  obtain ⟨res, hres, rfl⟩ := h
  obtain ⟨res', hres', rfl⟩ := h'
  rw [hres] at hres'
  cases hres'
  rfl

/-- `Read` answers that there is no article of an id that none is stored of. -/
theorem eval_read_of_not_mem {id : String} (hid : ∀ r ∈ w.articles.rows, r.id ≠ id) :
    (read id).eval w.view = .error (.err (.notFound .recordNotFound)) := by
  rw [read, Program.eval_bind, eval_mapErr, eval_preloadFirst_of_not_mem hid]
  rfl

/-- Whom `Read` reports of an article, it reports of one that is stored. -/
theorem Reports.exists_mem {id user : String} (h : Reports w id user) :
    ∃ r ∈ w.articles.rows, r.id = id := by
  obtain ⟨res, hres, -⟩ := h
  by_contra hnone
  push Not at hnone
  rw [eval_read_of_not_mem hnone] at hres
  cases hres

/-- The search resolves the owner of an article that has one, unless it is an author
    without a wallet address. -/
theorem eval_resolveOwner {owner : String × Option Address} :
    (resolveOwner (r.article d)).eval w.view = .ok owner ↔ w.owner r = some owner ∧
      (r.isTokenized = false → (w.lookup .userIDToWalletAddress r.originalAuthorID).isSome = true) := by
  rw [resolveOwner, Program.eval_bind]
  rcases w.token_cases r with h | ⟨h, a, ha, hne⟩ | ⟨h, ha⟩
  · rw [eval_getOwnerAddressOf_of_not_tokenized _ h, World.owner_of_not_tokenized h]
    simp only [Program.ok_bind, Program.eval_bind, eval_getAddressByID, eval_getValue,
      ArticleRow.article]
    cases w.lookup .userIDToWalletAddress r.originalAuthorID with
    | none => simp [h, Except.map]
    | some value => simp [Except.map]
  · rw [eval_getOwnerAddressOf _ h ha hne, World.owner_of_tokenized h ha hne]
    simp only [Program.ok_bind, Program.eval_bind, eval_getIDByAddress, eval_getValue]
    cases w.lookup .walletAddressToUserID a.string with
    | none => simp
    | some user => simp [h]
  · obtain ⟨e, he⟩ := eval_getOwnerAddressOf_error d h ha
    rw [he, World.owner_eq_none h ha]
    simp

/-- `AuthorizeEdit` lets the author edit an article that is not tokenized. -/
theorem eval_authorizeEdit_of_not_tokenized (h : r.isTokenized = false) {user : String} :
    (authorizeEdit user (r.article d) false).eval w.view = .ok () ↔ user = r.originalAuthorID := by
  have hauthorized : isAuthorized user (r.article d) false =
      (pure (decide (user = r.originalAuthorID)) : Prog Bool) := by
    rw [isAuthorized, if_neg (by simp [ArticleRow.article, h])]
    rfl
  rw [authorizeEdit, hauthorized]
  by_cases huser : user = r.originalAuthorID <;> simp [huser]

/-- `AuthorizeEdit` lets the user edit a tokenized article that the address table has
    for the address that the contract tells. -/
theorem eval_authorizeEdit (h : r.isTokenized = true) {user : String} :
    (authorizeEdit user (r.article d) false).eval w.view = .ok () ↔
      ∃ a, w.contract.getOwnerOfArticle r.id = some a ∧
        w.lookup .walletAddressToUserID a.string = some user := by
  have hauthorized : isAuthorized user (r.article d) false =
      call (.getOwnerOfArticle r.id) >>= fun ownerAddr =>
        getIDByAddress ownerAddr >>= fun ownerID => pure (decide (user = ownerID)) := by
    rw [isAuthorized, if_pos (by exact h)]
    rfl
  rw [authorizeEdit, hauthorized, Program.eval_bind]
  cases hview : w.contract.getOwnerOfArticle r.id with
  | none =>
    rw [eval_call_bind_error (o := .getOwnerOfArticle r.id) (congrArg ofView hview)]
    simp
  | some a =>
    rw [eval_call_bind (o := .getOwnerOfArticle r.id) (congrArg ofView hview)]
    simp only [Program.eval_bind, eval_getIDByAddress, eval_getValue]
    cases hlookup : w.lookup .walletAddressToUserID a.string with
    | none => simp [hlookup]
    | some ownerID => by_cases huser : user = ownerID <;> simp [huser, hlookup, eq_comm]

end Knowtfolio
