import Knowtfolio.Server.Editors
import Knowtfolio.Server.Ownership

/-!
# Who else changes an article

An update and a deletion are made for a user whose right was checked by three calls before, one
after the other, and the right may be gone when they are made. So that nobody else has the right
now does not mean that nobody else's request changes the article.

But what a request is answered is what holds when it asks. While a wallet holds the token of an
article, every request that starts to edit it is answered that it is tokenized, that this wallet is
the owner, and whose wallet this is. So it goes on only for this user: from then on, whatever others
request, the article is changed by the holder's requests only (`changed_by_holder`).

The three look-ups of `AuthorizeEdit` take place one after the other. Each of them, made while the
user holds the token, tells of this user (`Told`, `told_of_holder`), so that the three together can
entitle nobody else (`eq_of_entitled`), however the moments at which they are made lie in the run.
-/

namespace Knowtfolio

open Interaction Machine

section

variable [Environment] {c c' c'' : server.Config} {w : World} {r : ArticleRow} {user : String}
  {a : Address} {id : ArticleID}

/-! ## What requests are answered -/

/-- What is asked to check the right to edit an article is answered as its holder is. -/
structure Told (id user : String) (a : Address) (e : calls.Entry) : Prop where
  tokenized : ∀ preload target, e = answered (.first id preload) target → target.isTokenized = true
  owner : ∀ owner, e = answered (.getOwnerOfArticle id) owner → owner = a
  user : ∀ user', e = answered (.getItem .walletAddressToUserID a.string) (some (some user')) →
    user' = user

/-- Whatever is looked up while the user holds the token names this user. -/
theorem told_of_holder {id : String} (hbook : AddressBook w.items) (h : Holder w id user a) {o : Op}
    {ch : Choice} {x : Except Err o.Val} {w' : World} (hx : w.exec o ch = some (x, w')) :
    Told id user a ⟨o, x⟩ := by
  have hview : ∀ {o' : Op} {v : o'.Val}, (⟨o, x⟩ : calls.Entry) = answered o' v →
      World.Effect w o' v w' := by
    rintro o' v ⟨⟩
    rcases World.exec_cases hx with ⟨e, ⟨⟩, -⟩ | ⟨v', hv, heff⟩
    cases hv
    exact heff
  refine ⟨fun preload target he => ?_, fun owner he => ?_, fun user' he => ?_⟩
  · obtain ⟨r, hr, hid, rfl⟩ := World.view_first (hview he).2
    exact h.tokenized r hr hid
  · have howner := ofView_eq_ok.1 (hview he).2
    exact (Option.some.inj (h.owner.symm.trans howner)).symm
  · have huser := World.lookup_eq_some.2 (World.mem_items_of_view (hview he).2)
    rw [← wallet_eq_some_iff hbook h.wallet]
    exact (hbook.toPEquiv.mem_iff_mem).1 huser

/-- Who is entitled by such answers is the holder. -/
theorem eq_of_entitled {user' : String} {l : Log} (hentitled : Entitled user' id l)
    (hloaded : ∀ preload target, answered (.first id preload) target ∈ l → target.id = id)
    (htold : ∀ e ∈ l, Told id user a e) : user' = user := by
  obtain ⟨preload, target, l₀, checks, l₁, rfl, hchecks⟩ := hentitled
  have hfirst : answered (.first id preload) target ∈
      l₀ ++ answered (.first id preload) target :: (checks ++ l₁) := by simp
  have hid := hloaded preload target hfirst
  have hflag := (htold _ hfirst).tokenized preload target rfl
  rcases hchecks with ⟨hflag', -⟩ | ⟨-, owner, rfl⟩
  · rw [hflag] at hflag'
    cases hflag'
  · rw [hid] at htold
    obtain rfl : owner = a :=
      (htold (answered (.getOwnerOfArticle id) owner) (by simp)).owner owner rfl
    exact (htold (answered (.getItem .walletAddressToUserID owner.string) (some (some user')))
      (by simp)).user user' rfl

/-! ## The requests of others -/

/-- Users have names. -/
def namesUsers (_ : server.Config) : server.Move → Bool
  | .arrive r => r.user.all (· ≠ "")
  | _ => true

/-- The token is kept, users have names, and what is committed is of articles still stored. -/
def confined (a : Address) (t : ℕ) (c : server.Config) (m : server.Move) : Bool :=
  keepsToken a t c m && namesUsers c m && commitsStored c m

/-- No request of another user to edit the article is half served. -/
def Unedited (c : server.Config) (id : ArticleID) (user : String) : Prop :=
  ∀ t ∈ c.threads, ∀ user', t.request.edits = some (user', id) → user' ≠ user →
    t.log = [] ∨ t.rest.Done

/-- A tokenized article that is tokenized again stays as it is. -/
theorem sameArticle_of_tokenized (h : Run Any c) {i : ℕ} {t : server.Thread}
    (ht : c.threads[i]? = some t) {target : Article} {k : calls.Ans (.commit target) → Prog Reply}
    (hk : t.rest = .ask (.commit target) k) {articleID : ArticleID} {address signature : String}
    (hrequest : t.request = .createForArticle articleID address signature)
    (hflag : ∀ r ∈ c.world.articles.rows, r.id = target.id → r.isTokenized = true)
    (hstored : (c.world.articles.get target.id).isSome = true) (b : Bool) :
    SameArticle target.id c.world (c.world.write target b) := by
  have hc := consistent h
  rcases (asks_of_rest h ht hk).2 with ⟨_, _, _, _, _, hreq, -⟩ |
    ⟨id, _, _, loaded, _, _, -, hfirst, rfl, -⟩
  · cases hrequest.symm.trans hreq
  obtain ⟨-, hauthor, -, hzero⟩ := hc.loaded i _ _ _ ((h.mem_log ht).1 hfirst)
  obtain ⟨r, hr⟩ := Option.isSome_iff_exists.1 hstored
  obtain ⟨hmem, hid⟩ := Keyed.Table.get_eq_some.1 hr
  -- The row that is written is the one that is there.
  have hrow : loaded.setIsTokenized.row = r := by
    obtain ⟨a₁, ha₁, haid₁, hauthor₁⟩ := hauthor
    obtain ⟨a₂, ha₂, haid₂, hauthor₂⟩ := hc.rows r hmem
    have hid' : r.id = loaded.id := hid
    cases ha₁.unique h ha₂ (.inl (by rw [haid₁, haid₂, hid']))
    obtain ⟨rid, author, flag⟩ := r
    obtain rfl : flag = true := hflag _ hmem hid
    obtain rfl : rid = loaded.id := hid
    obtain rfl : author = loaded.originalAuthorID := hauthor₂.symm.trans hauthor₁
    rfl
  rw [World.write]
  simp only [hstored, true_or, if_true, hrow]
  have hdocument : loaded.setIsTokenized.document = .zero := hzero rfl
  rw [if_pos hdocument]
  refine ⟨fun r' _ => ?_, fun _ _ => Iff.rfl⟩
  rw [Keyed.Table.mem_put]
  constructor
  · rintro (⟨hr', -⟩ | rfl)
    · exact hr'
    · exact hmem
  · intro hr'
    by_cases hkey : r'.id = r.id
    · exact .inr (c.world.articles.eq_of_key_eq hr' hmem hkey)
    · exact .inl ⟨hr', hkey⟩

/-- A call that changes an article that was created, and is tokenized, is an edit that a user is
    entitled to. -/
theorem entitled_of_change (h : Run (namesUsers · ·) c) (hstored : ∃ a, Created c a ∧ a.id = id.1)
    (hflag : ∀ r ∈ c.world.articles.rows, r.id = id.1 → r.isTokenized = true) {m : server.Move}
    (hok : commitsStored c m = true) (hn : c.next m = some c')
    (hchange : ¬ SameArticle id c.world c'.world) :
    ∃ i ch t user, m = .step i ch ∧ c.threads[i]? = some t ∧ ¬ t.rest.Done ∧
      t.request.edits = some (user, id) ∧ Entitled user id t.log := by
  obtain ⟨i, ch, t, o, k, v, rfl, ht, hk, he, heff, hwrites, harticle⟩ :=
    step_of_change h.any hn hchange
  -- `Edits` says nothing of a deletion without a user; in this run there is none.
  have hnamed : ∀ user ∈ t.request.user, user ≠ "" := by
    refine h.request (p := fun r : Request => ∀ user ∈ r.user, user ≠ "")
      (fun c r hr user hu => ?_) ht
    rw [namesUsers, Option.mem_def.1 hu] at hr
    exact of_decide_eq_true hr
  have hasks := asks_of_rest h ht hk
  have hedits := h.rest_wp serve_edits ht
  rw [hk] at hedits
  have hedits := (Program.wp_ask.1 hedits).1
  have hdone : ¬ t.rest.Done := fun hdone => by
    rw [hk] at hdone
    exact hdone
  cases o with
  | create a =>
    obtain ⟨a', ha', haid⟩ := hstored
    exact absurd (haid.trans (Option.some.inj hwrites).symm) (not_created_of_rest h ht hk ha').1
  | commit a =>
    rcases hasks.2 with ⟨userID, articleID, title, content, -, hrequest, -⟩ |
      ⟨articleID, _, _, _, _, _, hrequest, -⟩
    · obtain rfl : articleID = id := Subtype.ext (harticle _ (by rw [hrequest]; rfl)).symm
      exact ⟨i, ch, t, userID, rfl, ht, hdone, by rw [hrequest]; rfl,
        hedits userID articleID title content hrequest⟩
    · -- A mint of an article that is tokenized already writes what is there.
      obtain ⟨b, rfl⟩ := World.choice_of_commit he
      have hid : a.id = id.1 := Option.some.inj hwrites
      have hw : c'.world = c.world.write a b := (congrArg Prod.snd (Option.some.inj he)).symm
      simp only [commitsStored, Config.asking_of_rest ht hk] at hok
      rw [hw, ← hid] at hchange
      exact absurd (sameArticle_of_tokenized h.any ht hk hrequest (hid ▸ hflag) hok b) hchange
  | delete x =>
    obtain ⟨-, userID, articleID, hrequest, -⟩ := hasks
    obtain rfl : articleID = id := Subtype.ext (harticle _ (by rw [hrequest]; rfl)).symm
    exact ⟨i, ch, t, userID, rfl, ht, hdone, by rw [hrequest]; rfl,
      hedits userID articleID hrequest (hnamed userID (by rw [hrequest]; rfl))⟩
  | _ => cases hwrites

/-- As long as the wallet of the user holds the token of the article, the article is changed by
    requests of this user only. -/
theorem changed_by_holder (ha : Chain.isContract a = false) (hne : a ≠ 0)
    (h : Run (fun c m => custodial a c m = true ∧ namesUsers c m = true) c)
    (hr : r ∈ c.world.articles.rows) (hid : r.id = id.1) (hflag : r.isTokenized = true)
    (howner : c.world.contract.getOwnerOfArticle id = some a)
    (hwallet : c.world.wallet user = some a) (hunedited : Unedited c id user)
    (h' : Reaches (confined a (c.world.contract.tokenIdOf id) · ·) c c') {m : server.Move}
    (hok : confined a (c.world.contract.tokenIdOf id) c' m = true) (hn : c'.next m = some c'')
    (hchange : ¬ SameArticle id c'.world c''.world) :
    ∃ i ch t, m = .step i ch ∧ c'.threads[i]? = some t ∧ t.request.edits = some (user, id) := by
  rw [← hid] at howner h' hok
  have hcustodial : Run (custodial a · ·) c := h.mono fun _ _ hm => hm.1
  have hholder : ∀ {c₁}, Reaches (confined a (c.world.contract.tokenIdOf r.id) · ·) c c₁ →
      AddressBook c₁.world.items ∧ Holder c₁.world id user a := by
    intro c₁ h₁
    have hkeeps : Reaches (keepsToken a (c.world.contract.tokenIdOf r.id) · ·) c c₁ :=
      h₁.mono fun _ _ hm => (Bool.and_eq_true_iff.1 (Bool.and_eq_true_iff.1 hm).1).1
    have hbook := addressBook_of_custodial
      (hcustodial.trans (hkeeps.mono fun _ _ hm => (Bool.and_eq_true_iff.1 hm).1))
    exact ⟨hbook, hid ▸ holder_stays ha hne hcustodial hr hflag howner hwallet hkeeps⟩
  have hrun : Run (namesUsers · ·) c' := .trans (h.mono fun _ _ hm => hm.2)
    (h'.mono fun _ _ hm => (Bool.and_eq_true_iff.1 (Bool.and_eq_true_iff.1 hm).1).2)
  have hcreated : ∃ a, Created c' a ∧ a.id = id.1 := by
    obtain ⟨a₁, ha₁, haid, -⟩ := (consistent hcustodial).rows r hr
    exact ⟨a₁, ha₁.mono h'.history_prefix.subset, haid.trans hid⟩
  obtain ⟨i, ch, t, user', rfl, ht, hdone, hrequest, hentitled⟩ := entitled_of_change hrun hcreated
    (hholder h').2.tokenized (Bool.and_eq_true_iff.1 hok).2 hn hchange
  refine ⟨i, ch, t, rfl, ht, ?_⟩
  by_cases hother : user' = user
  · rw [hrequest, hother]
  -- What the request of another user was answered, it was answered since.
  refine absurd (eq_of_entitled (a := a) hentitled (fun preload target hmem =>
    ((consistent hrun).loaded i _ _ _ ((hrun.mem_log ht).1 hmem)).id_eq) fun e he => ?_) hother
  refine (h'.answered_since (P := Told id user a) (fun c₁ j ch u o k x w h₁ _ _ _ hx =>
    told_of_holder (hholder h₁).1 (hholder h₁).2 hx) ht e he).resolve_right ?_
  rintro ⟨t₀, ht₀, he₀⟩
  obtain ⟨u, hu, hsame, hstays⟩ := h'.thread_mono ht₀
  cases hu.symm.trans ht
  rcases hunedited t₀ (List.mem_of_getElem? ht₀) user' (hsame ▸ hrequest) hother with hnil | hend
  · rw [hnil] at he₀
    cases he₀
  · exact hdone (hstays hend ▸ hend)

end

/-! The author has the token. Another user who has registered gives the article a title, to no
avail, while the author does so. -/

section

attribute [local instance] Hardhat.environment

open Hardhat

/-- The updates of both users, up to the commit of the author's. -/
def contested : List server.Move :=
  [registerBuyer 3, .arrive (.update "author" articleID (some "title 2") none) :: steps 4 [.ok, .ok],
    .arrive (.update "buyer" articleID (some "mine") none) :: steps 5 [.ok, .ok, .ok, .ok],
    steps 4 [.ok, .ok, .ok]].flatten

/-- The buyer asks to edit the article too, and registers, while the holder gives it another title.
    -/
theorem changed_by_holder_contested : ∃ c c' c'' : server.Config, Run Any c ∧
    Reaches (confined author 1 · ·) c c' ∧ c'.next (.step 4 (.recreate false)) = some c'' ∧
    ¬ SameArticle articleID c'.world c''.world ∧
    ∃ t : server.Thread, c'.threads[4]? = some t ∧ t.request.edits = some ("author", articleID) := by
  obtain ⟨c, h, hp⟩ := exists_reaches_of_run (fun c m => custodial author c m && namesUsers c m)
    tokenized (.initial World.initial)
    (fun c => (∃ r ∈ c.world.articles.rows, r.id = articleID.1 ∧ r.isTokenized = true) ∧
      c.world.contract.tokenIdOf articleID = 1 ∧
      c.world.contract.getOwnerOfArticle articleID = some author ∧
      c.world.wallet "author" = some author ∧ (∀ t ∈ c.threads, t.request.edits = none) ∧
      (c.run (confined author 1) contested).any fun c' =>
        confined author 1 c' (.step 4 (.recreate false)) ∧
          (c'.next (.step 4 (.recreate false))).any fun c'' => c''.world.documents.rows.any fun d =>
            d.ownerID = articleID ∧ d ∉ c'.world.documents.rows) (by decide +kernel)
  obtain ⟨⟨r, hr, hid, hflag⟩, htoken, howner, hwallet, hedits, hrun⟩ := of_decide_eq_true hp
  obtain ⟨c', h', hp'⟩ := exists_reaches_of_run (confined author 1) contested c _ hrun
  obtain ⟨hok, hp'⟩ := of_decide_eq_true hp'
  obtain ⟨c'', hn, hd⟩ := (Option.any_eq_true _ _).1 hp'
  obtain ⟨d, hd, hchanged⟩ := List.any_eq_true.1 hd
  obtain ⟨hdid, hnew⟩ := of_decide_eq_true hchanged
  have hchange : ¬ SameArticle articleID c'.world c''.world := fun hsame =>
    hnew ((hsame.2 d hdid).1 hd)
  have hunedited : Unedited c articleID "author" := fun t ht user' hrequest _ => by
    rw [hedits t ht] at hrequest
    cases hrequest
  rw [← htoken] at h' hok
  obtain ⟨i, ch, t, hm, ht, hrequest⟩ := changed_by_holder rfl author_ne_zero
    (h.mono fun _ _ hm => Bool.and_eq_true_iff.1 hm) hr hid hflag howner hwallet hunedited h' hok hn
    hchange
  cases hm
  exact ⟨c, c', c'', h.any, htoken ▸ h', hn, hchange, t, ht, hrequest⟩

end

end Knowtfolio
