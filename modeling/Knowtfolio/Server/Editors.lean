import Knowtfolio.Lambda.PostWalletAddress
import Knowtfolio.Server.Frame

/-!
# Who changes an article

Requests that change an article come with a token, whose user `JWTAuth` finds out, and
whether the user may do so is decided by `AuthorizeEdit` from what it looks up: the article,
the owner of its token, and the user of that owner's address. The three are looked up one
after the other, while other requests go on, and the change is made later still. So what
holds is about the past: an article changes only when it is created, when its author has
signed that it be tokenized, or for a user that has been its owner, by what was looked up
for the same request (`changed_by_owner`).

An error of `First` other than that there is no article is not looked at by `Delete`, which
goes on with the zero article. That has an author without a name, which no user of a token is.

What entitles a user is read off the log of the request (`Entitled`), for each program by a lemma
(`wp_edits_update`, `wp_edits_delete`); and each entry of the log is what some state of the past
had to say (`effect_of_logged`), from which it follows who the user was (`wasOwner_of_entitled`).
-/

namespace Knowtfolio

open Interaction Machine

/-- `JWTAuth`, by the user that it leaves in the context. -/
def jwtAuth [Cognito] (token : String) : Except Fault String :=
  (verifyCognitoToken token).mapError (Fault.mapErr .unauthenticated)

/-- `JWTAuth` lets those pass whose tokens are valid. -/
theorem jwtAuth_eq_ok [Cognito] {token user : String} :
    jwtAuth token = .ok user ↔ VerifiedToken token user := by
  rw [← verifyCognitoToken_eq_ok, jwtAuth]
  cases verifyCognitoToken token <;> simp [Except.mapError]

/-- The user of a request that is sent with a token. -/
def Request.user : Request → Option String
  | .create userID _ _ | .update userID _ _ _ | .delete userID _ => some userID
  | _ => none

/-- The user that edits, and the article. -/
def Request.edits : Request → Option (String × ArticleID)
  | .update userID id _ _ | .delete userID id => some (userID, id)
  | _ => none

/-! ## What is looked up before an edit -/

/-- What has been looked up when `AuthorizeEdit` lets the user edit the article. -/
def EditChecks [Crypto] (user : String) (target : Article) (checks : Log) : Prop :=
  (target.isTokenized = false ∧ target.originalAuthorID = user ∧ checks = []) ∨
    target.isTokenized = true ∧ ∃ owner : Address, checks =
      [answered (.getOwnerOfArticle target.id) owner,
        answered (.getItem .walletAddressToUserID owner.string) (some (some user))]

/-- The article has been loaded, and then the right of the user to edit it was checked. -/
def Entitled [Crypto] (user : String) (id : ArticleID) (l : Log) : Prop :=
  ∃ preload target l₀ checks l₁,
    l = l₀ ++ answered (.first id preload) target :: (checks ++ l₁) ∧
      EditChecks user target checks

/-- An article is committed by an update, or deleted, only for a user who is entitled to. -/
def Edits [Crypto] (request : Request) (l : Log) : Op → Prop
  | .commit _ => ∀ user id title content, request = .update user id title content →
      Entitled user id l
  | .delete _ => ∀ user id, request = .delete user id → user ≠ "" → Entitled user id l
  | _ => True

section

variable [Environment] {P : Log → Op → Prop} {l : Log}

/-- If `AuthorizeEdit` ends without an error, it has looked up what entitles the user. -/
theorem wp_authorizeEdit {user : String} {target : Article}
    (hP : ∀ l o, o.isLookup = true → P l o) :
    Program.wp P (fun l' r => r = .ok () → ∃ checks, l' = l ++ checks ∧
      EditChecks user target checks) l (authorizeEdit user target false) := by
  have hif : ∀ (b : Bool) (l' : Log), (b = true → ∃ checks, l' = l ++ checks ∧
      EditChecks user target checks) →
      Program.wp P (fun l' r => r = .ok () → ∃ checks, l' = l ++ checks ∧
        EditChecks user target checks) l'
        (if b = true then pure () else Program.throw (Fault.err (noEditRight user target.id))) := by
    intro b l' h
    exact Program.wp_ite.2 ⟨fun hb => Program.wp_ret.2 fun _ => h hb,
      fun _ => Program.wp_throw.2 (fun h => by cases h)⟩
  rw [authorizeEdit, isAuthorized]
  refine Program.wp_bind.2 (Program.wp_ite.2 ⟨fun htokenized => ?_, fun htokenized => ?_⟩)
  · refine wp_call_bind.2 ⟨hP _ _ rfl, (fun _ h => by cases h), fun owner => ?_⟩
    refine Program.wp_bind.2 (wp_getValue (hP _ _ rfl) (fun _ _ h => by cases h) fun ownerID => ?_)
    refine Program.wp_ret.2 (hif _ _ fun hb => ⟨_, List.append_assoc _ _ _, .inr ⟨htokenized, ?_⟩⟩)
    obtain rfl := of_decide_eq_true hb
    exact ⟨owner, rfl⟩
  · refine Program.wp_ret.2 (hif _ _ fun hb => ⟨[], (List.append_nil l).symm, .inl ⟨?_, ?_, rfl⟩⟩)
    · simpa using htokenized
    · exact (of_decide_eq_true hb).symm

omit [Environment] in
/-- Look-ups edit nothing. -/
theorem edits_of_isLookup [Crypto] {request : Request} {o : Op} (h : o.isLookup = true) :
    Edits request l o := by
  cases o <;> trivial

/-- `Update` commits for a user who is entitled to. -/
theorem wp_edits_update (userID : String) (id : ArticleID) (title content : Option String) :
    Program.wp (Edits (.update userID id title content)) (fun _ _ => True) []
      (updateTransaction userID id title content) := by
  refine wp_call_bind.2 ⟨trivial, fun _ => trivial, fun begun => ?_⟩
  refine wp_call_bind.2 ⟨trivial, fun _ => trivial, fun target => ?_⟩
  refine Program.wp_bind.2 (Program.wp_mono (fun _ _ h => h) ?_
    (wp_authorizeEdit fun _ _ => edits_of_isLookup))
  rintro l (e | u) hl
  · trivial
  obtain ⟨checks, rfl, hchecks⟩ := hl rfl
  refine wp_call_bind.2 ⟨trivial, fun _ => trivial, fun saved => ?_⟩
  refine wp_call_bind.2 ⟨?_, fun _ => trivial, fun _ => Program.wp_ret.2 trivial⟩
  rintro _ _ _ _ ⟨⟩
  refine ⟨true, target, [answered .begin begun], checks, [answered (.save _) saved], ?_, hchecks⟩
  simp only [List.nil_append, List.cons_append]

/-- `Delete` deletes for a user who is entitled to. -/
theorem wp_edits_delete (userID : String) (id : ArticleID) :
    Program.wp (Edits (.delete userID id)) (fun _ _ => True) [] (delete userID id) := by
  refine Program.wp_ask.2 ⟨trivial, fun r => ?_⟩
  -- From the article on, all is as in an update: what is checked lets the user delete.
  have hdelete : ∀ target : Article,
      (∀ checks, EditChecks userID target checks → userID ≠ "" →
        Entitled userID id ([⟨.first id false, r⟩] ++ checks)) →
      Program.wp (Edits (.delete userID id)) (fun _ _ => True) [⟨.first id false, r⟩] (do
        authorizeEdit userID target false
        call (.delete target.id)
        pure (articleToResult target)) := by
    intro target hentitled
    refine Program.wp_bind.2 (Program.wp_mono (fun _ _ h => h) ?_
      (wp_authorizeEdit fun _ _ => edits_of_isLookup))
    rintro l (e | u) hl
    · trivial
    obtain ⟨checks, rfl, hchecks⟩ := hl rfl
    refine wp_call_bind.2 ⟨?_, fun _ => trivial, fun _ => Program.wp_ret.2 trivial⟩
    rintro _ _ ⟨⟩ hne
    exact hentitled checks hchecks hne
  rcases r with e | target
  · -- The author of the zero article has no name.
    have hzero : ∀ checks, EditChecks userID ⟨id, .zero, "", false⟩ checks → userID ≠ "" →
        Entitled userID id ([⟨.first id false, .error e⟩] ++ checks) := by
      rintro checks (⟨-, rfl, -⟩ | ⟨⟨⟩, -⟩) hne
      exact absurd rfl hne
    cases e with
    | recordNotFound => exact Program.wp_throw.2 trivial
    | _ => exact hdelete _ hzero
  · refine hdelete target fun checks hchecks _ => ⟨false, target, [], checks, [], ?_, hchecks⟩
    simp

/-- So does every request: others commit what they have tokenized, or create. -/
theorem serve_edits (request : Request) :
    (serve request).wp (Edits request) (fun _ _ => True) [] := by
  have hother : (∀ l o, Asks request l o → Edits request l o) →
      (serve request).wp (Edits request) (fun _ _ => True) [] := fun h =>
    Program.wp_mono h (fun _ _ _ => trivial) (serve_asks request)
  cases request with
  | update userID id title content =>
    refine Program.wp_bind.2 (Program.wp_bind.2 (wp_mapErr.2 (Program.wp_mono (fun _ _ h => h) ?_
      (wp_edits_update userID id title content))))
    rintro l (e | target) -
    · trivial
    · exact Program.wp_ret.2 (Program.wp_ret.2 trivial)
  | delete userID id =>
    exact Program.wp_bind_ret (wp_edits_delete userID id) (fun _ _ h => h) fun _ _ h => h
  | _ => exact hother fun l o _ => by cases o <;> first | trivial | nofun

end

/-! ## Runs -/

section

variable [Environment] {ok : server.Config → server.Move → Prop} {c c₁ : server.Config}
  {i : ℕ} {t : server.Thread}

/-- The run to `c` has been at `c₁`. -/
def Past (c₁ c : server.Config) : Prop :=
  Run Any c₁ ∧ Reaches (M := server) Any c₁ c

/-- A call that was answered has had its effect, after the calls before it in the log. -/
theorem effect_of_logged (h : Run Any c) (ht : c.threads[i]? = some t) {l₁ l₂ : Log} {o : Op}
    {v : o.Val} (hl : t.log = l₁ ++ answered o v :: l₂) : ∃ c₁ t₁ w₁, Past c₁ c ∧
      c₁.threads[i]? = some t₁ ∧ t₁.log = l₁ ∧ World.Effect c₁.world o v w₁ := by
  obtain ⟨c₁, t₁, k, ch, w₁, hr₁, -, ht₁, hl₁, hk, hx, hr⟩ := h.logged_move ht hl
  rcases World.exec_cases hx with ⟨e, ⟨⟩, -⟩ | ⟨v', hv, heff⟩
  obtain rfl : v = v' := Except.ok.inj hv
  exact ⟨c₁, t₁, w₁, ⟨hr₁, .trans (.step .refl trivial ht₁ hk hx) hr⟩, ht₁, hl₁, heff⟩

/-- The user was the owner of the article: its author while it was not tokenized, or, as it
    was tokenized, the user of the wallet of the owner of its token. The article, the owner and
    the user are looked up one after the other. -/
inductive WasOwner (c : server.Config) (id : ArticleID) (user : String) : Prop
  | author {c₁ : server.Config} {r : ArticleRow} : Past c₁ c → r ∈ c₁.world.articles.rows →
      r.id = id → r.isTokenized = false → r.originalAuthorID = user → WasOwner c id user
  | token {c₁ c₂ c₃ : server.Config} {r : ArticleRow} {owner : Address} : Past c₁ c₂ →
      Past c₂ c₃ → Past c₃ c → r ∈ c₁.world.articles.rows → r.id = id → r.isTokenized = true →
      c₂.world.contract.getOwnerOfArticle id = some owner →
      c₃.world.lookup .walletAddressToUserID owner.string = some user → WasOwner c id user

omit [Environment] in
/-- What is read is what is there. -/
theorem ofView_eq_ok {α : Type} {v : Option α} {a : α} : ofView v = .ok a ↔ v = some a := by
  cases v <;> simp [ofView]

/-- Who is entitled to edit was the owner. -/
theorem wasOwner_of_entitled (h : Run Any c) (ht : c.threads[i]? = some t) {l₁ l₂ : Log}
    (hl : t.log = l₁ ++ l₂) {user : String} {id : ArticleID} (hentitled : Entitled user id l₁) :
    WasOwner c id user := by
  obtain ⟨preload, target, l₀, checks, l', rfl, hchecks⟩ := hentitled
  let first := answered (.first id preload) target
  rcases hchecks with ⟨hflag, hauthor, rfl⟩ | ⟨hflag, owner, rfl⟩
  · have hlog : t.log = l₀ ++ first :: (l' ++ l₂) := by simpa using hl
    obtain ⟨c₁, t₁, w₁, hpast, -, -, -, hview⟩ := effect_of_logged h ht hlog
    obtain ⟨r, hr, hid, rfl⟩ := World.view_first hview
    exact .author hpast hr hid hflag hauthor
  -- The log is walked backwards: every call was made when the one after it was not yet.
  · let called := answered (.getOwnerOfArticle target.id) owner
    let looked := answered (.getItem .walletAddressToUserID owner.string) (some (some user))
    have hlog₃ : t.log = (l₀ ++ [first, called]) ++ looked :: (l' ++ l₂) := by simpa using hl
    obtain ⟨c₃, t₃, w₃, h₃, ht₃, hl₃, -, huser⟩ := effect_of_logged h ht hlog₃
    have hlog₂ : t₃.log = (l₀ ++ [first]) ++ called :: [] := by simpa using hl₃
    obtain ⟨c₂, t₂, w₂, h₂, ht₂, hl₂, -, howner⟩ := effect_of_logged h₃.1 ht₃ hlog₂
    have hlog₁ : t₂.log = l₀ ++ first :: [] := hl₂
    obtain ⟨c₁, t₁, w₁, h₁, -, -, -, hview⟩ := effect_of_logged h₂.1 ht₂ hlog₁
    obtain ⟨r, hr, hid, rfl⟩ := World.view_first hview
    have hid' : (r.article (if preload then c₁.world.documentOf id else .zero)).id = id := hid
    rw [hid'] at howner
    exact .token h₁ h₂ h₃ hr hid hflag (ofView_eq_ok.1 howner)
      (World.lookup_eq_some.2 (World.mem_items_of_view huser))

/-- The wallet of the author of the article has signed that it be tokenized, with a nonce that
    was in the table. -/
structure SignedToTokenize (c : server.Config) (id : ArticleID) (address signature : String) :
    Prop where
  author : ∃ c₁ c₂ r v, Past c₁ c ∧ Past c₂ c ∧ r ∈ c₁.world.articles.rows ∧ r.id = id ∧
    c₂.world.lookup .userIDToWalletAddress r.originalAuthorID = some v ∧
    (hexToAddress v).string = address
  signed : ∃ c₁ userID nonce, Past c₁ c ∧ c₁.world.lookup .userIDToNonce userID = some nonce ∧
    verifySignature address signature createNFTSignData (some (hexToHash nonce)) = .ok ()

/-- What is committed by a request to tokenize comes after its mint, and the mint after its checks.
    -/
theorem signedToTokenize_of_commit (h : Run Any c) (ht : c.threads[i]? = some t)
    {articleID : ArticleID} {address signature : String} {a : Article}
    (hrequest : t.request = .createForArticle articleID address signature)
    (hasks : Asks t.request t.log (.commit a)) :
    SignedToTokenize c articleID address signature := by
  have heffect : ∀ {o : Op} {v : o.Val}, answered o v ∈ t.log →
      ∃ c₁ w₁, Past c₁ c ∧ World.Effect c₁.world o v w₁ := by
    intro o v hmem
    obtain ⟨l₁, l₂, hl⟩ := List.append_of_mem hmem
    obtain ⟨c₁, -, w₁, hpast, -, -, heff⟩ := effect_of_logged h ht hl
    exact ⟨c₁, w₁, hpast, heff⟩
  -- The commit comes after the mint, and the mint after the checks.
  rcases hasks.2 with ⟨_, _, _, _, _, hreq, -⟩ | ⟨_, _, _, _, gasPrice, tx, -, -, -, hmint⟩
  · cases hrequest.symm.trans hreq
  obtain ⟨l₁, l₂, hl⟩ := List.append_of_mem hmint
  obtain ⟨-, _, _, _, target, v, userID, n, old, hreq, -, -, hfirst, hitem, hv, hput, hverify⟩ :=
    h.asked_wp serve_asks i t ht l₁ _ l₂ hl
  cases hrequest.symm.trans hreq
  have hsub : l₁ ⊆ t.log := by rw [hl]; exact List.subset_append_left _ _
  obtain ⟨c₁, w₁, h₁, -, hview⟩ := heffect (hsub hfirst)
  obtain ⟨c₂, w₂, h₂, -, haddress⟩ := heffect (hsub hitem)
  obtain ⟨c₃, w₃, h₃, hold, -⟩ := heffect (hsub hput)
  obtain ⟨r, hr, hid, rfl⟩ := World.view_first hview
  exact ⟨⟨c₁, c₂, r, v, h₁, h₂, hr, hid,
    World.lookup_eq_some.2 (World.mem_items_of_view haddress), hv⟩,
    ⟨c₃, userID, old, h₃, hold.symm, hverify⟩⟩

/-- Why the request changes the article. -/
inductive ChangedBy (c : server.Config) (t : server.Thread) (id : String) : Prop
  /-- It creates the article, and there was none of the id. -/
  | created {userID title content : String} : t.request = .create userID title content →
      (∀ r ∈ c.world.articles.rows, r.id ≠ id) → ChangedBy c t id
  /-- It tokenizes the article, and its author has signed that. -/
  | tokenized {articleID : ArticleID} {address signature : String} :
      t.request = .createForArticle articleID address signature → articleID.1 = id →
      SignedToTokenize c articleID address signature → ChangedBy c t id
  /-- It edits the article for a user who was its owner. -/
  | edited {userID : String} {articleID : ArticleID} : t.request.edits = some (userID, articleID) →
      articleID.1 = id → WasOwner c articleID userID → ChangedBy c t id

/-- A request that is sent with a token is served for the user of a token that is valid. Users
    have names. -/
def authenticates [Cognito] (_ : server.Config) : server.Move → Prop
  | .arrive r => ∀ user ∈ r.user, user ≠ "" ∧ ∃ token, jwtAuth token = .ok user
  | _ => True

/-- The tables have the same of the article in both worlds. -/
def SameArticle (id : String) (w w' : World) : Prop :=
  (∀ r : ArticleRow, r.id = id → (r ∈ w'.articles.rows ↔ r ∈ w.articles.rows)) ∧
    ∀ d : Document, d.ownerID = id → (d ∈ w'.documents.rows ↔ d ∈ w.documents.rows)

/-- What a request that writes an article does it for. -/
theorem changedBy_of_writes (h : Run Any c) (ht : c.threads[i]? = some t)
    (huser : ∀ user ∈ t.request.user, user ≠ "") {o : Op} {k : calls.Ans o → Prog Reply}
    (hk : t.rest = .ask o k) {v : o.Val} {w' : World} (heff : World.Effect c.world o v w')
    {id : String} (hwrites : o.writes = some id)
    (hid : ∀ id' ∈ t.request.articleID, id = id') : ChangedBy c t id := by
  have hasks := asks_of_rest h ht hk
  have hedits := h.rest_wp serve_edits ht
  rw [hk] at hedits
  have hedits := (Program.wp_ask.1 hedits).1
  have hlog : t.log = t.log ++ [] := (List.append_nil _).symm
  -- A creation, a commit by an update or by a mint, a deletion: nothing else writes articles.
  cases o with
  | create a =>
    cases hwrites
    obtain ⟨-, userID, title, content, _, _, hrequest, -⟩ := hasks
    exact .created hrequest (Keyed.Table.get_eq_none.1 heff.1)
  | commit a =>
    rcases hasks.2 with ⟨userID, articleID, title, content, target, hrequest, -⟩ |
      ⟨articleID, address, signature, _, _, _, hrequest, -⟩
    · have hedit := hedits userID articleID title content hrequest
      rw [hrequest] at hid
      exact .edited (by rw [hrequest]; rfl) (hid _ rfl).symm (wasOwner_of_entitled h ht hlog hedit)
    · rw [hrequest] at hid
      exact .tokenized hrequest (hid _ rfl).symm (signedToTokenize_of_commit h ht hrequest hasks)
  | delete x =>
    obtain ⟨-, userID, articleID, hrequest, -⟩ := hasks
    have hedit := hedits userID articleID hrequest (huser userID (by rw [hrequest]; rfl))
    rw [hrequest] at hid
    exact .edited (by rw [hrequest]; rfl) (hid _ rfl).symm (wasOwner_of_entitled h ht hlog hedit)
  | _ => cases hwrites

/-- Whatever changes an article is a call that writes it, of a request about it. -/
theorem step_of_change (h : Run Any c) {m : server.Move} {c' : server.Config}
    (hn : c.next m = some c') {id : String} (hchange : ¬ SameArticle id c.world c'.world) :
    ∃ i ch t o k v, m = .step i ch ∧ c.threads[i]? = some t ∧ t.rest = .ask o k ∧
      c.world.exec o ch = some (.ok v, c'.world) ∧ World.Effect c.world o v c'.world ∧
      o.writes = some id ∧ ∀ id' ∈ t.request.articleID, id = id' := by
  obtain ⟨hframe, hid⟩ := (coherent_and_frame h).2 m c' hn
  have hwritten : written c m = some id := by
    by_contra hne
    exact hchange ⟨fun r hr => hframe.rows r (hr ▸ hne), fun d hd => hframe.documents d (hd ▸ hne)⟩
  cases m with
  | arrive r => cases hwritten
  | act x => cases hwritten
  | step i ch =>
    obtain ⟨t, o, k, a, w', ht, hk, he, rfl⟩ := Config.next_step hn
    have hasking := Config.asking_of_rest ht hk
    rw [written, hasking, Option.bind_some] at hwritten
    rcases World.exec_cases he with ⟨e, rfl, rfl⟩ | ⟨v, rfl, heff⟩
    · exact absurd ⟨fun _ _ => Iff.rfl, fun _ _ => Iff.rfl⟩ hchange
    · exact ⟨i, ch, t, o, k, v, rfl, ht, hk, he, heff, hwritten,
        hid i ch _ _ _ rfl hasking id hwritten⟩

end

/-! The author gives an article another title. -/

section

attribute [local instance] Hardhat.environment

open Hardhat

/-- A user pool with one token, of the user `author`. -/
@[reducible] def authorPool : Cognito where
  issuer := "https://cognito-idp.ap-northeast-1.amazonaws.com/pool"
  clientID := "client"
  parseString token _ :=
    if token = "token" then
      .ok fun name => if name = "cognito:username" then some (.string "author") else none
    else .error "invalid JWT"

attribute [local instance] authorPool

/-- The requests of `author`, and those without a user. -/
def isOfAuthor (_ : server.Config) : server.Move → Bool
  | .arrive r => r.user.all (· = "author")
  | _ => true

/-- The token of `author` is valid. -/
theorem authenticates_of_isOfAuthor (c : server.Config) (m : server.Move)
    (h : isOfAuthor c m = true) : authenticates c m := by
  cases m with
  | arrive r =>
    intro user huser
    obtain rfl : user = "author" := by
      rw [isOfAuthor, Option.mem_def.1 huser] at h
      exact of_decide_eq_true h
    exact ⟨by decide, "token", jwtAuth_eq_ok.2 ⟨_, rfl, rfl⟩⟩
  | _ => trivial

end

end Knowtfolio
