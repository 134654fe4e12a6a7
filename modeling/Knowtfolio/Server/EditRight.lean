import Knowtfolio.Server.Hardhat
import Knowtfolio.Server.Runs
import Knowtfolio.Server.Views

/-!
# The right to edit

`AuthorizeEdit` asks the contract for the owner of a tokenized article, and does not
look whether there is one. While the contract has no token of it, it answers the
zero address: then whoever has registered that address may edit the article, of
which `Read` reports no owner. In all other states the right to edit is the
ownership that `Read` reports (`editRight_iff`).
-/

namespace Knowtfolio

open Interaction Machine

section

variable [Environment] {w w' : World}

/-- A call that does not fail. -/
def World.execOk (w : World) (o : Op) (ch : Choice) : Option (Except Err o.Val × World) :=
  match ch with
  | .fail _ => none
  | ch => w.exec o ch

/-- The user may edit the article, and changes what is stored by an update or by a
    deletion of it, only as the owner that `Read` reports; who is the owner may edit
    it. -/
structure EditRight (w : World) (id : ArticleID) (user : String) : Prop where
  authorize : ∀ r ∈ w.articles.rows, r.id = id → ∀ d : Document,
    (authorizeEdit user (r.article d) false).eval w.view = .ok () ↔ Reports w id user
  update : ∀ title content res w',
    Program.Runs World.execOk w (update user id title content) res w' → w' ≠ w → Reports w id user
  delete : ∀ res w', Program.Runs World.execOk w (delete user id) res w' → w' ≠ w →
    Reports w id user

/-! ## Calls that do not fail -/

/-- A call that only reads answers what the world has. -/
theorem execOk_of_isRead {o : Op} (ho : o.isRead = true) {ch : Choice} {a : Except Err o.Val}
    (h : w.execOk o ch = some (a, w')) : a = w.view o ∧ w' = w := by
  cases ch with
  | ok =>
    cases o with
    | getItem | getOwnerOfArticle | getArticleIdsOwnedBy | first | preload | count =>
      cases h
      exact ⟨rfl, rfl⟩
    | _ => cases ho
  | fail message => cases h
  | _ => cases o <;> first | exact absurd ho Bool.false_ne_true | cases h

/-- A transaction begins without changing anything. -/
theorem execOk_begin {ch : Choice} {a : Except Err Unit} (h : w.execOk .begin ch = some (a, w')) :
    a = .ok () ∧ w' = w := by
  cases ch <;> cases h
  exact ⟨rfl, rfl⟩

/-- `AuthorizeEdit` leaves the world as it is. -/
theorem runs_authorizeEdit {user : String} {target : Article} {r : Except Fault Unit}
    (h : Program.Runs World.execOk w (authorizeEdit user target false) r w') :
    r = (authorizeEdit user target false).eval w.view ∧ w' = w :=
  h.eval (q := fun o : Op => o.isRead = true) (fun ho he => execOk_of_isRead ho he)
    (asksOnly_authorizeEdit (fun _ => rfl) (fun _ _ => rfl) _ _ _)

/-! ## Who changes an article -/

/-- The user may edit an article that is stored. -/
def Authorized (w : World) (id : ArticleID) (user : String) : Prop :=
  ∃ r ∈ w.articles.rows, r.id = id ∧
    ∃ d, (authorizeEdit user (r.article d) false).eval w.view = .ok ()

/-- What comes after `AuthorizeEdit` changes something only if the user may edit. -/
theorem runs_authorizeEdit_bind {α : Type} {user : String} {target : Article}
    {f : Unit → Prog α} {res : Except Fault α}
    (h : Program.Runs World.execOk w (authorizeEdit user target false >>= f) res w') :
    w' = w ∨ (authorizeEdit user target false).eval w.view = .ok () := by
  rcases Program.runs_bind.1 h with ⟨u, w₁, h, -⟩ | ⟨e, h, -⟩
  · exact .inr (runs_authorizeEdit h).1.symm
  · exact .inl (runs_authorizeEdit h).2

/-- `Update` changes nothing unless the user is authorized. -/
theorem unchanged_or_authorized_of_update {user : String} {id : ArticleID}
    {title content : Option String} {res : Except Fault ArticleResult}
    (h : Program.Runs World.execOk w (update user id title content) res w') :
    w' = w ∨ Authorized w id user := by
  obtain ⟨res', htransaction⟩ : ∃ res', Program.Runs World.execOk w
      (updateTransaction user id title content) res' w' := by
    rcases Program.runs_bind.1 h with ⟨target, w₁, h, hret⟩ | ⟨e, h, -⟩
    · obtain ⟨-, rfl⟩ := Program.runs_ret.1 hret
      obtain ⟨res', h, -⟩ := runs_of_mapErr h
      exact ⟨res', h⟩
    · obtain ⟨res', h, -⟩ := runs_of_mapErr h
      exact ⟨res', h⟩
  -- The transaction begins, loads and asks who may edit; only after that it writes.
  clear h
  obtain ⟨ch, a, w₁, hbegin, hrest⟩ := runs_call_bind htransaction
  obtain ⟨rfl, rfl⟩ := execOk_begin hbegin
  rcases hrest with ⟨u, -, hrest⟩ | ⟨e, ⟨⟩, -⟩
  obtain ⟨ch, a, w₂, hfirst, hrest⟩ := runs_call_bind hrest
  obtain ⟨rfl, rfl⟩ := execOk_of_isRead rfl hfirst
  rcases hrest with ⟨target, hview, hrest⟩ | ⟨e, -, -, rfl⟩
  · obtain ⟨r, hr, hid, rfl⟩ := World.view_first hview
    exact (runs_authorizeEdit_bind hrest).imp_right fun h => ⟨r, hr, hid, _, h⟩
  · exact .inl rfl

/-- Neither does `Delete`. -/
theorem unchanged_or_authorized_of_delete {user : String} {id : ArticleID}
    {res : Except Fault ArticleResult} (h : Program.Runs World.execOk w (delete user id) res w') :
    w' = w ∨ Authorized w id user := by
  obtain ⟨ch, a, w₁, he, h⟩ := Program.runs_ask.1 h
  obtain ⟨rfl, rfl⟩ := execOk_of_isRead rfl he
  cases hget : w₁.articles.get id with
  | none =>
    rw [World.view, hget] at h
    exact .inl (Program.runs_throw.1 h).2
  | some r =>
    obtain ⟨hr, hid⟩ := Keyed.Table.get_eq_some.1 hget
    rw [World.view, hget] at h
    exact (runs_authorizeEdit_bind h).imp_right fun h => ⟨r, hr, hid, _, h⟩

/-! ## Who owns an article -/

variable {id : ArticleID} {r : ArticleRow} {user : String}

/-- The contract has no token of an article that is stored as tokenized, and the user
    has registered the zero address. -/
def OwnsZero (w : World) (r : ArticleRow) (user : String) : Prop :=
  r.isTokenized = true ∧ w.contract.getOwnerOfArticle r.id = some 0 ∧
    w.lookup .walletAddressToUserID (0 : Address).string = some user

/-- Who may edit is who is reported, but for the user of the zero address. -/
theorem authorizeEdit_iff (hr : r ∈ w.articles.rows) (hid : r.id = id) (d : Document) :
    (authorizeEdit user (r.article d) false).eval w.view = .ok () ↔
      Reports w id user ∨ OwnsZero w r user := by
  rw [reports_iff hr hid, OwnsZero]
  rcases w.token_cases r with h | ⟨h, a, ha, hne⟩ | ⟨h, ha⟩
  · rw [eval_authorizeEdit_of_not_tokenized d h, World.owner_of_not_tokenized h]
    simp [h, eq_comm]
  · rw [eval_authorizeEdit d h, World.owner_of_tokenized h ha hne, ha]
    simp [hne]
  · rw [eval_authorizeEdit d h, World.owner_eq_none h ha]
    constructor
    · rintro ⟨a, haa, hlookup⟩
      obtain rfl := ha a haa
      exact .inr ⟨h, haa, hlookup⟩
    · rintro (⟨_, ⟨⟩⟩ | ⟨-, hzero, hlookup⟩)
      exact ⟨0, hzero, hlookup⟩

/-- In every state the right to edit an article is the ownership that `Read` reports,
    unless the contract has no token of the article although it is stored as
    tokenized, and the user has registered the zero address. -/
theorem editRight_iff (hr : r ∈ w.articles.rows) (hid : r.id = id) :
    EditRight w id user ↔ ¬ OwnsZero w r user := by
  have hrow : ∀ r' ∈ w.articles.rows, r'.id = id → r' = r := fun r' hr' hid' =>
    w.articles.eq_of_key_eq hr' hr (hid'.trans hid.symm)
  constructor
  · -- The user of the zero address is authorized, while `Read` reports nobody.
    intro h hzero
    have hauthorized := (authorizeEdit_iff hr hid .zero).2 (.inr hzero)
    obtain ⟨a, howner⟩ := (reports_iff hr hid).1 ((h.authorize r hr hid .zero).1 hauthorized)
    rw [World.owner_eq_none hzero.1 fun a ha => Option.some.inj (ha.symm.trans hzero.2.1)] at howner
    cases howner
  · intro hzero
    have hauthorize : ∀ r' ∈ w.articles.rows, r'.id = id → ∀ d : Document,
        (authorizeEdit user (r'.article d) false).eval w.view = .ok () ↔ Reports w id user := by
      intro r' hr' hid' d
      obtain rfl := hrow r' hr' hid'
      rw [authorizeEdit_iff hr hid]
      exact or_iff_left hzero
    -- What is changed, is changed by what was authorized.
    have hchange : ∀ w', w' = w ∨ Authorized w id user → w' ≠ w → Reports w id user := by
      rintro w' (heq | ⟨r', hr', hid', d, h⟩) hne
      · exact absurd heq hne
      · exact (hauthorize r' hr' hid' d).1 h
    exact ⟨hauthorize,
      fun title content res w' h => hchange w' (unchanged_or_authorized_of_update h),
      fun res w' h => hchange w' (unchanged_or_authorized_of_delete h)⟩

end

/-! A user registers the zero address; an article is tokenized, and its mint is
pending. -/

section

attribute [local instance] Hardhat.environment

open Hardhat

/-- The user `nobody` registers the zero address as the request `i`. -/
def registerZero (i : ℕ) : List server.Move :=
  .arrive (.putUserWallet "nobody" "0x0000000000000000000000000000000000000000") ::
    steps i [.nonce (.ofList 32 [4]), .ok]

/-- The author has created the article. -/
theorem editRight_author : ∃ c, Run Any c ∧ EditRight c.world articleID "author" := by
  obtain ⟨c, hc, hp⟩ := exists_reaches_of_run (fun _ _ => true) (createArticle 0)
    (.initial World.initial)
    (fun c => ∃ r ∈ c.world.articles.rows, r.id = articleID ∧ r.isTokenized = false)
    (by decide +kernel)
  obtain ⟨r, hr, hid, hflag⟩ := of_decide_eq_true hp
  exact ⟨c, hc.any, (editRight_iff hr hid).2 fun hzero => by
    rw [OwnsZero, hflag] at hzero
    cases hzero.1⟩

/-- A user has registered the zero address, and the mint of the article is pending. -/
theorem not_editRight_nobody : ∃ c, Run Any c ∧ ∃ r ∈ c.world.articles.rows,
    r.id = articleID ∧ ¬ EditRight c.world articleID "nobody" := by
  obtain ⟨c, hc, hp⟩ := exists_reaches_of_run (fun _ _ => true)
    [register 0, createArticle 1, registerZero 2, .arrive tokenize :: mint 3, storeToken 3].flatten
    (.initial World.initial)
    (fun c => ∃ r ∈ c.world.articles.rows, r.id = articleID ∧
      ((authorizeEdit "nobody" (r.article .zero) false).eval c.world.view).isOk = true ∧
      ((read articleID).eval c.world.view).isOk = false)
    (by decide +kernel)
  obtain ⟨r, hr, hid, hauthorized, hread⟩ := of_decide_eq_true hp
  refine ⟨c, hc.any, r, hr, hid, fun h => ?_⟩
  have hok : (authorizeEdit "nobody" (r.article .zero) false).eval c.world.view = .ok () := by
    cases he : (authorizeEdit "nobody" (r.article .zero) false).eval c.world.view with
    | ok u => rfl
    | error e => rw [he] at hauthorized; cases hauthorized
  obtain ⟨res, hres, -⟩ := (h.authorize r hr hid .zero).1 hok
  rw [hres] at hread
  cases hread

end

end Knowtfolio
