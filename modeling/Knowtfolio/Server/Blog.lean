import Knowtfolio.Interaction.Linearization
import Knowtfolio.Server.Frame
import Knowtfolio.Server.Tokenized
import Knowtfolio.Server.Updates
import Knowtfolio.Server.Views

/-!
# The blog

What the server is for: a blog, on which articles are published, revised, tokenized and withdrawn,
each at once (`Blog.apply`). The server loads an article, looks up whose it is, and writes it back,
call by call, while it serves other requests.

As long as no request writes over what another one has written since it loaded the article
(`isolated`), the server is the blog: what is stored is what comes of the requests that have made
their change, in the order in which they have (`blog_eq_replay`); and what a request answers of an
article is what was on the blog at a moment while it was served (`answer_of_blog`).

Every call that writes articles has a lemma that says its change (`blog_create`, `blog_commit`,
`blog_delete`); the others leave the blog as it is. For the answers, what a request holds of an
article is followed from the call that has loaded it (`Shown`, `serve_shown`). The document is
loaded after the row, and so was on the blog at a moment since then, even if it is not any more
(`exists_post_since`): a document is not removed together with its article.
-/

namespace Knowtfolio

open Interaction Machine

/-! ## The blog and its changes -/

/-- An article, to those who read it. -/
structure Post where
  author : String
  title : String
  content : String
  isTokenized : Bool
  deriving DecidableEq

/-- The articles, by their ids. -/
abbrev Blog := String → Option Post

/-- What a request does to the blog. -/
inductive Change
  | publish (id author title content : String)
  | revise (id : String) (e : Edit)
  | tokenize (id : String)
  | withdraw (id : String)
  deriving DecidableEq

/-- A post with the fields replaced that are given. -/
def Post.revise (p : Post) (e : Edit) : Post :=
  { p with
    title := e.title.getD p.title
    content := e.content.getD p.content }

/-- A post that has got a token. -/
def Post.tokenize (p : Post) : Post := { p with isTokenized := true }

/-- The blog after a change, which is made at once. What is not on the blog can be neither revised
    nor tokenized. -/
def Blog.apply (b : Blog) : Change → Blog
  | .publish id author title content => Function.update b id (some ⟨author, title, content, false⟩)
  | .revise id e => Function.update b id ((b id).map (·.revise e))
  | .tokenize id => Function.update b id ((b id).map (·.tokenize))
  | .withdraw id => Function.update b id none

/-! ## What is stored, as a blog -/

/-- A row and a document, as a post. -/
def ArticleRow.post (r : ArticleRow) (d : Document) : Post :=
  ⟨r.originalAuthorID, d.title, d.content, r.isTokenized⟩

/-- What is stored, to those who read it: the rows with their documents. -/
def World.blog (w : World) : Blog := fun id => (w.articles.get id).map (·.post (w.documentOf id))

/-- The change that a request is for, with the call that makes it. -/
def Request.change : Request → calls.Entry → Option Change
  | .create userID title content, ⟨.create a, .ok _⟩ => some (.publish a.id userID title content)
  | .update _ id title content, ⟨.commit _, .ok _⟩ => some (.revise id ⟨title, content⟩)
  | .createForArticle id _ _, ⟨.commit _, .ok _⟩ => some (.tokenize id)
  | .delete _ id, ⟨.delete _, .ok _⟩ => some (.withdraw id)
  | _, _ => none

section

variable [Environment] {ok : server.Config → server.Move → Prop} {c c' : server.Config}

/-- The server as a blog. -/
def blog : Abstraction server Blog Change where
  state := World.blog
  change := Request.change
  apply := Blog.apply

/-- What is committed is of an article that is still stored. -/
def commitsStored (c : server.Config) : server.Move → Bool
  | .step i (.recreate _) =>
    match c.asking i with
    | some (_, _, .commit a) => (c.world.articles.get a.id).isSome
    | _ => true
  | _ => true

/-- No request commits over what another one has written since it loaded the article: other
    fields, that the article is tokenized, or that it is gone. -/
def isolated (c : server.Config) (m : server.Move) : Bool :=
  keepsFields c m && keepsTokenized c m && commitsStored c m

omit [Environment] in
/-- What the blog has of an article depends on its row and its document only. -/
theorem World.blog_congr {w w' : World} {id : String}
    (harticle : w'.articles.get id = w.articles.get id)
    (hdocument : ∀ r, w.articles.get id = some r → w'.documentOf id = w.documentOf id) :
    w'.blog id = w.blog id := by
  rw [World.blog, World.blog, harticle]
  cases h : w.articles.get id with
  | none => rfl
  | some r => rw [hdocument r h]

omit [Environment] in
/-- A row that is stored is on the blog, with its document. -/
theorem World.blog_of_mem {w : World} {r : ArticleRow} (hr : r ∈ w.articles.rows) :
    w.blog r.id = some (r.post (w.documentOf r.id)) := by
  rw [World.blog, Keyed.Table.get_key_of_mem hr, Option.map_some]

omit [Environment] in
/-- The blog is what is stored of articles and documents. -/
theorem World.blog_eq {w w' : World} (harticles : w'.articles = w.articles)
    (hdocuments : w'.documents = w.documents) : w'.blog = w.blog := by
  funext id
  rw [World.blog, World.blog, World.documentOf, World.documentOf, harticles, hdocuments]

omit [Environment] in
/-- A call that fails changes nothing. -/
theorem Request.change_error (request : Request) (o : Op) (e : Err) :
    request.change ⟨o, .error e⟩ = none := by
  cases request <;> cases o <;> rfl

omit [Environment] in
/-- Only calls that write articles change the blog. -/
theorem Request.change_eq_none (request : Request) {e : calls.Entry}
    (h : e.1.writesArticles = false) : request.change e = none := by
  obtain ⟨o, x⟩ := e
  cases request <;> cases o <;> first | rfl | cases h

/-! ## Whether an article is tokenized -/

/-- What is tokenized was committed as that. -/
theorem committedTokenized_of_row (h : Run ok c) {r : ArticleRow} (hr : r ∈ c.world.articles.rows)
    (hflag : r.isTokenized = true) : CommittedTokenized c r.id := by
  -- The history only grows, so that only the writes of articles have to be looked at.
  refine h.induction (fun c : server.Config => ∀ r ∈ c.world.articles.rows, r.isTokenized = true →
    CommittedTokenized c r.id) (fun r hr => absurd hr Keyed.Table.not_mem_empty) ?_ ?_ ?_ r hr hflag
  · intro c r _ hc _ r' hr' hflag
    obtain ⟨i, a, ha, hrest⟩ := hc r' hr' hflag
    exact ⟨i, a, Config.mem_history_arrive.2 (.inl ha), hrest⟩
  · intro c i ch t o k ans w' hrun hc _ ht hk he r hr hflag
    have hold : ∀ r ∈ c.world.articles.rows, r.isTokenized = true →
        CommittedTokenized (c.step i t ⟨o, ans⟩ (k ans) w') r.id := fun r hr hflag =>
      let ⟨j, a, ha, hrest⟩ := hc r hr hflag
      ⟨j, a, Config.mem_history_step.2 (.inl ha), hrest⟩
    rcases World.exec_cases he with ⟨e, rfl, rfl⟩ | ⟨v, rfl, heff⟩
    · exact hold r hr hflag
    rcases World.mem_articles heff hr with ⟨hr, -⟩ | ⟨a, rfl, rfl⟩ | ⟨a, rfl, rfl⟩
    · exact hold r hr hflag
    · -- An article is not tokenized when it is created.
      obtain ⟨-, _, _, _, _, _, -, rfl, -⟩ := asks_of_rest hrun ht hk
      cases hflag
    · exact ⟨i, a, Config.mem_history_step.2 (.inr rfl), hflag, rfl⟩
  · intro c x w' _ hc _ hx r hr hflag
    rw [Config.act, World.act_eq hx] at hr
    obtain ⟨i, a, ha, hrest⟩ := hc r hr hflag
    exact ⟨i, a, Config.mem_history_act.2 (.inl ha), hrest⟩

/-- What an update commits says of its article that it is tokenized exactly if it still is, or has
    become so. -/
theorem isTokenized_of_loaded (h : Run (keepsTokenized · ·) c) {i : ℕ} {t : server.Thread}
    (ht : c.threads[i]? = some t) {id : String} {target : Article}
    (hf : answered (.first id true) target ∈ t.log)
    (hok : target.isTokenized = false → tokenizedSince i target.id c.history = false)
    {r : ArticleRow} (hr : r ∈ c.world.articles.rows) (hid : r.id = target.id) :
    target.isTokenized = r.isTokenized := by
  have hf := (h.mem_log ht).1 hf
  cases hflag : target.isTokenized with
  | false =>
    -- Had it been tokenized meanwhile, the commit would not be allowed.
    cases hflag' : r.isTokenized with
    | false => rfl
    | true =>
      have hcommitted := committedTokenized_of_row h hr hflag'
      have := (keptTokenized h).since i id true target hf hflag (hid ▸ hcommitted)
      rw [hok hflag] at this
      cases this
  | true =>
    obtain ⟨c₁, t₁, k, ch, w₁, h₁, hm, ht₁, hk, hx, h₂⟩ := h.asked_move hf
    rcases World.exec_cases hx with ⟨e, ⟨⟩, -⟩ | ⟨v, hv, heff⟩
    cases hv
    obtain ⟨r₁, hr₁, rfl, rfl⟩ := World.view_first heff.2
    obtain ⟨j, a, ha, hrest⟩ := committedTokenized_of_row h₁ hr₁ hflag
    have hcommitted : CommittedTokenized c r₁.id :=
      ⟨j, a, h₂.history_prefix.subset (Config.mem_history_step.2 (.inl ha)), hrest⟩
    exact ((keptTokenized h).rows r hr (hid.symm ▸ hcommitted)).symm

/-! ## Every call, as a change of the blog -/

/-- Where requests are isolated, tokenizations are kept. -/
theorem run_of_isolated (h : Run (isolated · ·) c) : Run (keepsTokenized · ·) c :=
  h.mono fun _ _ hm => (Bool.and_eq_true_iff.1 (Bool.and_eq_true_iff.1 hm).1).2

section

variable (hrun : Run (isolated · ·) c) {i : ℕ} {t : server.Thread} (ht : c.threads[i]? = some t)
  {o : Op} {k : calls.Ans o → Prog Reply} (hk : t.rest = .ask o k) {ch : Choice} {v : o.Val}
  {w' : World} (he : c.world.exec o ch = some (.ok v, w')) (hok : isolated c (.step i ch) = true)

include hrun ht hk he hok

/-- The document of an article stays as it is, unless the article is committed. -/
theorem documentOf_of_stored {r : ArticleRow} (hr : r ∈ c.world.articles.rows)
    (hcommitter : committer r.id (.asked i (answered o v)) = none) :
    w'.documentOf r.id = c.world.documentOf r.id := by
  obtain ⟨a, ha, haid, -⟩ := (consistent hrun).rows r hr
  have hfields : keepsFields c (.step i ch) = true :=
    (Bool.and_eq_true_iff.1 (Bool.and_eq_true_iff.1 hok).1).1
  rw [documentOf_answered hrun ⟨a, ha, haid⟩ ht hk he hok hfields, hcommitter]
  rfl

/-- What a call does not write stays as it is. -/
theorem blog_of_ne {id : String} (hid : o.writes ≠ some id)
    (harticle : w'.articles.get id = c.world.articles.get id) : w'.blog id = c.world.blog id := by
  refine World.blog_congr harticle fun r hr => ?_
  obtain ⟨hmem, rfl⟩ := Keyed.Table.get_eq_some.1 hr
  refine documentOf_of_stored hrun ht hk he hok hmem ?_
  rw [Option.eq_none_iff_forall_ne_some]
  intro j hj
  obtain ⟨a, heq, haid⟩ := committer_eq_some.1 hj
  cases heq
  exact hid (congrArg some haid)

end

section

variable (hrun : Run (isolated · ·) c) {i : ℕ} {t : server.Thread} (ht : c.threads[i]? = some t)
  {a : Article}

include hrun ht

/-- A creation publishes the article, under an id that nothing is stored under. -/
theorem blog_create {k : calls.Ans (.create a) → Prog Reply} (hk : t.rest = .ask (.create a) k)
    {ch : Choice} {v : Unit} {w' : World} (he : c.world.exec (.create a) ch = some (.ok v, w'))
    (hok : isolated c (.step i ch) = true) :
    w'.blog = blog.after t.request (answered (.create a) v) c.world.blog := by
  obtain ⟨-, userID, title, content, id, documentID, hrequest, rfl, -⟩ := asks_of_rest hrun ht hk
  have hrun' := hrun.step hok ht hk he
  obtain ⟨-, hw⟩ : World.Effect c.world (.create _) v w' := by
    rcases World.exec_cases he with ⟨e, ⟨⟩, -⟩ | ⟨v', -, heff⟩
    exact heff
  let article := newArticle id documentID title content userID
  have hrow : article.row ∈ w'.articles.rows := by
    rw [hw]
    exact Keyed.Table.mem_put.2 (.inr rfl)
  have hmem : article.document ∈ w'.documents.rows := by
    rw [hw]
    exact Keyed.Table.mem_put.2 (.inr rfl)
  have hdocument : w'.documentOf id = article.document := documentOf_eq hrun' hmem
  -- Under the id, there is the new article with the new document; elsewhere nothing changes.
  have hself : w'.blog article.id = some (article.row.post (w'.documentOf id)) :=
    World.blog_of_mem hrow
  rw [hrequest]
  refine Function.eq_update_iff.2 ⟨?_, fun id' hid => ?_⟩
  · rw [hself, hdocument]
    rfl
  refine blog_of_ne hrun ht hk he hok (fun h => hid (Option.some.inj h).symm) ?_
  rw [hw]
  exact Keyed.Table.get_put_of_ne fun h => hid h.symm

/-- What a commit writes is the article that it is of, with its author and its document, which is
    changed only by an update. -/
theorem blog_write {k : calls.Ans (.commit a) → Prog Reply} (hk : t.rest = .ask (.commit a) k)
    {b : Bool} {v : Unit} {w' : World}
    (he : c.world.exec (.commit a) (.recreate b) = some (.ok v, w'))
    (hok : isolated c (.step i (.recreate b)) = true) :
    ∃ r ∈ c.world.articles.rows, r.id = a.id ∧
      w'.documentOf a.id = ((t.request.edit a.id).map (c.world.documentOf a.id).edit).getD
        (c.world.documentOf a.id) ∧
      w'.blog = Function.update c.world.blog a.id
        (some ⟨r.originalAuthorID, (w'.documentOf a.id).title, (w'.documentOf a.id).content,
          a.isTokenized⟩) := by
  -- The row was there when it was loaded, and `isolated` says that it is still there.
  have hc := consistent hrun
  have hw : w' = c.world.write a b := (congrArg Prod.snd (Option.some.inj he)).symm
  obtain ⟨hkeeps, hstored⟩ := Bool.and_eq_true_iff.1 hok
  simp only [commitsStored, Config.asking_of_rest ht hk] at hstored
  obtain ⟨r, hr⟩ := Option.isSome_iff_exists.1 hstored
  obtain ⟨hmem, hid⟩ := Keyed.Table.get_eq_some.1 hr
  obtain ⟨a₁, ha₁, hrid, hrauthor⟩ := hc.rows r hmem
  refine ⟨r, hmem, hid, ?_, Function.eq_update_iff.2 ⟨?_, fun id hne => ?_⟩⟩
  · have hcommitter : committer a.id (.asked i (answered (.commit a) v)) = some i := if_pos rfl
    rw [documentOf_answered hrun ⟨a₁, ha₁, hrid.trans hid⟩ ht hk he hok
      (Bool.and_eq_true_iff.1 hkeeps).1, hcommitter, Option.bind_some, editOf, ht, Option.bind_some]
  · -- The author is the one who created the article.
    have hauthor : r.originalAuthorID = a.originalAuthorID := by
      obtain ⟨⟨a₂, ha₂, haid, haauthor⟩, -⟩ := committed_of_rest hrun hc ht hk
      rw [← haauthor, ← hrauthor, ha₁.unique hrun ha₂ (.inl (by rw [haid, hrid, hid]))]
    have hrow : a.row ∈ w'.articles.rows := by
      rw [hw, World.write]
      simp [hstored]
    rw [hauthor]
    exact World.blog_of_mem hrow
  · refine blog_of_ne hrun ht hk he hok (fun h => hne (Option.some.inj h).symm) ?_
    rw [hw, World.write]
    simp only [hstored, true_or, if_true]
    exact Keyed.Table.get_put_of_ne fun h => hne h.symm

/-- A commit revises the article or tokenizes it. It writes the whole row and document, but what it
    has loaded of the others is still so. -/
theorem blog_commit {k : calls.Ans (.commit a) → Prog Reply} (hk : t.rest = .ask (.commit a) k)
    {ch : Choice} {v : Unit} {w' : World} (he : c.world.exec (.commit a) ch = some (.ok v, w'))
    (hok : isolated c (.step i ch) = true) :
    w'.blog = blog.after t.request (answered (.commit a) v) c.world.blog := by
  have hid : ∀ id ∈ t.request.articleID, a.id = id := eq_articleID_of_writes hrun ht hk rfl
  obtain ⟨b, rfl⟩ := World.choice_of_commit he
  obtain ⟨r, hr, hrid, hdocument, hblog⟩ := blog_write hrun ht hk he hok
  have hold : c.world.blog a.id = some (r.post (c.world.documentOf a.id)) := by
    rw [← hrid]
    exact World.blog_of_mem hr
  rw [hblog]
  -- An update writes its edit, and a mint the flag, over what both have loaded before.
  rcases (asks_of_rest hrun ht hk).2 with ⟨userID, id, title, content, target, hrequest, hf, rfl⟩ |
    ⟨id, _, _, target, _, _, hrequest, hf, rfl, -⟩
  · rw [hrequest] at hid hdocument ⊢
    have hid : target.id = id := hid id rfl
    have hflag : target.isTokenized = r.isTokenized := by
      refine isTokenized_of_loaded (run_of_isolated hrun) ht hf (fun hflag => ?_) hr hrid
      have htokenized := (Bool.and_eq_true_iff.1 (Bool.and_eq_true_iff.1 hok).1).2
      simpa [keepsTokenized, Config.asking_of_rest ht hk, editArticle, hflag] using htokenized
    have hdocument : w'.documentOf id = (c.world.documentOf id).edit ⟨title, content⟩ := by
      rw [← hid]
      simpa [Request.edit, editArticle, hid] using hdocument
    have hold : c.world.blog id = some (r.post (c.world.documentOf id)) := hid ▸ hold
    show Function.update c.world.blog target.id (some ⟨_, (w'.documentOf target.id).title,
      (w'.documentOf target.id).content, target.isTokenized⟩) = Function.update c.world.blog id.1 _
    rw [hid, hdocument, hold, hflag]
    rfl
  · rw [hrequest] at hid hdocument ⊢
    have hid : target.id = id := hid id rfl
    have hdocument : w'.documentOf id = c.world.documentOf id := hid ▸ hdocument
    have hold : c.world.blog id = some (r.post (c.world.documentOf id)) := hid ▸ hold
    show Function.update c.world.blog target.id (some ⟨_, (w'.documentOf target.id).title,
      (w'.documentOf target.id).content, true⟩) = Function.update c.world.blog id.1 _
    rw [hid, hdocument, hold]
    rfl

/-- A deletion withdraws the article. -/
theorem blog_delete {x : String} {k : calls.Ans (.delete x) → Prog Reply}
    (hk : t.rest = .ask (.delete x) k) {ch : Choice} {v : Unit} {w' : World}
    (he : c.world.exec (.delete x) ch = some (.ok v, w')) (hok : isolated c (.step i ch) = true) :
    w'.blog = blog.after t.request (answered (.delete x) v) c.world.blog := by
  obtain ⟨-, userID, id, hrequest, -⟩ := asks_of_rest hrun ht hk
  have hid : x = id := eq_articleID_of_writes hrun ht hk rfl id.1 (by rw [hrequest]; rfl)
  have hw : w' = { c.world with articles := c.world.articles.erase x } := by
    rcases World.exec_cases he with ⟨e, ⟨⟩, -⟩ | ⟨v', -, heff⟩
    exact heff
  rw [hrequest]
  refine Function.eq_update_iff.2 ⟨?_, fun id' hne => ?_⟩
  · rw [hw, World.blog, Keyed.Table.get_erase, if_pos hid]
    rfl
  · refine blog_of_ne hrun ht hk he hok (fun h => hne (hid ▸ Option.some.inj h).symm) ?_
    rw [hw]
    exact Keyed.Table.get_erase.trans (if_neg fun h => hne (h.symm.trans hid))

end

/-- Every call makes the change that its request is for, if it is the one that makes it. -/
theorem simulates_blog : blog.Simulates (isolated · ·) World.initial where
  step := by
    intro c i ch t o k x w' hrun hok ht hk he
    rcases World.exec_cases he with ⟨e, rfl, rfl⟩ | ⟨v, rfl, heff⟩
    · rw [Abstraction.after]
      show _ = (Request.change t.request ⟨o, .error e⟩).elim _ _
      rw [Request.change_error]
      rfl
    -- Only three calls write articles; the others make no change, and the blog stays.
    cases o with
    | create a => exact blog_create hrun ht hk he hok
    | commit a => exact blog_commit hrun ht hk he hok
    | delete x => exact blog_delete hrun ht hk he hok
    | _ =>
      rw [Abstraction.after]
      show World.blog w' = (Request.change t.request _).elim _ _
      rw [Request.change_eq_none t.request rfl]
      exact World.blog_eq (heff.changes.articles rfl) (heff.changes.documents rfl)
  act := by
    intro c x w' hrun hok hx
    rw [World.act_eq hx]
    rfl

/-- What is stored is what comes of the requests that have made their change, in the order in
    which they have. -/
theorem blog_eq_replay (h : Run (isolated · ·) c) :
    c.world.blog = blog.replay c c.history fun _ => none :=
  simulates_blog.state_eq h

/-! ## What is answered -/

/-- The answer is the text of the article. -/
structure TextOf (a : Article) (res : ArticleResult) : Prop where
  id : res.id = a.id
  title : res.title = a.document.title
  content : res.content = a.document.sanitizedContent

/-- Where an answer is from: a call has stored its article; or the first call has loaded it, and the
    second one its document. -/
inductive Shown (l : Log) (res : ArticleResult) : Prop
  | stored {o : Op} {v : o.Val} (a : Article) : answered o v ∈ l → o = .create a ∨ o = .commit a →
      TextOf a res → Shown l res
  | loaded {id : String} {target : Article} {document : Document} {l' : Log} :
      l = answered (.first id false) target :: answered (.preload target.id) document :: l' →
      TextOf { target with document } res → Shown l res

/-- `Create` answers the article that it has stored. -/
theorem wp_create_shown (userID title content : String) :
    Program.wp (fun _ _ => True) (fun l r => ∀ res, r = .ok res → Shown l res) []
      (create userID title content) := by
  refine Program.wp_bind.2 (wp_generateID trivial fun r id _ => ?_)
  refine Program.wp_bind.2 (wp_generateID trivial fun r' documentID _ => ?_)
  refine wp_call_bind.2 ⟨trivial, (fun _ _ h => by cases h), fun _ => Program.wp_ret.2 ?_⟩
  rintro _ ⟨⟩
  exact .stored _ (List.mem_append_right _ (List.mem_singleton.2 rfl)) (.inl rfl) ⟨rfl, rfl, rfl⟩

/-- `Read` answers the article that it has loaded, with the document that it has loaded then. -/
theorem wp_read_shown (id : ArticleID) :
    Program.wp (fun _ _ => True) (fun l r => ∀ res, r = .ok res → Shown l res) [] (read id) := by
  refine Program.wp_bind.2 (wp_mapErr.2 (wp_call_bind.2
    ⟨trivial, (fun _ _ h => by cases h), fun target => ?_⟩))
  refine wp_call_bind.2 ⟨trivial, (fun _ _ h => by cases h), fun document => Program.wp_ret.2 ?_⟩
  -- Whoever owns it, what is shown is the article that was loaded.
  have hshown : ∀ {l : Log} {ownerID : String} {a : Option Address},
      Shown (answered (.first id false) target :: answered (.preload target.id) document :: l)
        (withOwnerInfo ownerID a (articleToResult { target with document })) :=
    .loaded rfl ⟨rfl, rfl, rfl⟩
  refine Program.wp_bind.2
    ((onlyLooksUp_getOwnerAddressOf _).wp (fun _ _ _ => trivial) fun l r _ => ?_)
  rcases r with e | _ | ownerAddr
  · rintro _ ⟨⟩
  · refine Program.wp_bind.2 ((onlyLooksUp_findAddressByID _).wp (fun _ _ _ => trivial)
      fun l' r _ => ?_)
    cases r with
    | error e => rintro _ ⟨⟩
    | ok a =>
      refine Program.wp_ret.2 ?_
      rintro _ ⟨⟩
      exact hshown
  · refine Program.wp_bind.2 ((onlyLooksUp_getIDByAddress _).wp (fun _ _ _ => trivial)
      fun l' r _ => ?_)
    cases r with
    | error e => rintro _ ⟨⟩
    | ok ownerID =>
      refine Program.wp_ret.2 ?_
      rintro _ ⟨⟩
      exact hshown

/-- `Update` answers the article that it has committed. -/
theorem wp_update_shown (userID : String) (id : ArticleID) (title content : Option String) :
    Program.wp (fun _ _ => True) (fun l r => ∀ res, r = .ok res → Shown l res) []
      (update userID id title content) := by
  -- What the transaction returns is what it has committed.
  have htransaction : Program.wp (fun _ _ => True)
      (fun l r => ∀ target, r = .ok target → answered (.commit target) () ∈ l) []
      (updateTransaction userID id title content) := by
    refine wp_call_bind.2 ⟨trivial, (fun _ _ h => by cases h), fun _ => ?_⟩
    refine wp_call_bind.2 ⟨trivial, (fun _ _ h => by cases h), fun target => ?_⟩
    refine Program.wp_bind.2 ((onlyLooksUp_authorizeEdit _ _ _).wp (fun _ _ _ => trivial)
      fun l r _ => ?_)
    cases r with
    | error e => rintro _ ⟨⟩
    | ok u =>
      refine wp_call_bind.2 ⟨trivial, (fun _ _ h => by cases h), fun _ => ?_⟩
      refine wp_call_bind.2 ⟨trivial, (fun _ _ h => by cases h), fun _ => Program.wp_ret.2 ?_⟩
      rintro _ ⟨⟩
      exact List.mem_append_right _ (List.mem_singleton.2 rfl)
  refine Program.wp_bind.2 (wp_mapErr.2 (Program.wp_mono (fun _ _ h => h) ?_ htransaction))
  rintro l (e | target) hl
  · rintro _ ⟨⟩
  · refine Program.wp_ret.2 ?_
    rintro _ ⟨⟩
    exact .stored target (hl target rfl) (.inr rfl) ⟨rfl, rfl, rfl⟩

/-- The requests that answer the text of an article. -/
def Request.answersText : Request → Bool
  | .create _ _ _ | .read _ | .update _ _ _ _ => true
  | _ => false

/-- What a request answers of an article is what it has loaded, created or committed. -/
theorem serve_shown (request : Request) :
    (serve request).wp (fun _ _ => True) (fun l r => request.answersText = true →
      ∀ res, r = .ok (.article res) → Shown l res) [] := by
  cases request with
  | create userID title content =>
    exact Program.wp_bind_ret (wp_create_shown userID title content)
      (fun l a h _ res hres => by cases hres; exact h a rfl) (fun _ _ _ _ _ h => by cases h)
  | read id =>
    exact Program.wp_bind_ret (wp_read_shown id)
      (fun l a h _ res hres => by cases hres; exact h a rfl) (fun _ _ _ _ _ h => by cases h)
  | update userID id title content =>
    exact Program.wp_bind_ret (wp_update_shown userID id title content)
      (fun l a h _ res hres => by cases hres; exact h a rfl) (fun _ _ _ _ _ h => by cases h)
  | _ => exact Program.wp_trivial (fun _ _ h => by cases h) _

/-- A post has the text of a document. -/
structure Post.HasText (p : Post) (d : Document) : Prop where
  title : p.title = d.title
  content : p.content = d.content

/-- An article that a call has stored for such a request is on the blog then. -/
theorem blog_of_stored (hrun : Run (isolated · ·) c) {i : ℕ} {t : server.Thread}
    (ht : c.threads[i]? = some t) (htext : t.request.answersText = true) {o : Op} {v : o.Val}
    {k : calls.Ans o → Prog Reply} (hk : t.rest = .ask o k) {ch : Choice} {w' : World}
    (he : c.world.exec o ch = some (.ok v, w')) (hok : isolated c (.step i ch) = true)
    {a : Article} (ha : o = .create a ∨ o = .commit a) :
    ∃ p, w'.blog a.id = some p ∧ p.HasText a.document := by
  -- What a creation puts there is new; what an update commits is what was loaded, edited.
  rcases ha with rfl | rfl
  · obtain ⟨-, userID, title, content, id, documentID, hrequest, rfl, -⟩ :=
      asks_of_rest hrun ht hk
    refine ⟨⟨userID, title, content, false⟩, ?_, rfl, rfl⟩
    rw [blog_create hrun ht hk he hok, hrequest]
    exact Function.update_self _ _ _
  · obtain ⟨b, rfl⟩ := World.choice_of_commit he
    obtain ⟨r, -, -, hdocument, hblog⟩ := blog_write hrun ht hk he hok
    rcases (asks_of_rest hrun ht hk).2 with ⟨userID, id, title, content, target, hrequest, hf, rfl⟩ |
      ⟨id, _, _, _, _, _, hrequest, -⟩
    · have hfields := (Bool.and_eq_true_iff.1 (Bool.and_eq_true_iff.1 hok).1).1
      simp only [keepsFields, Config.asking_of_rest ht hk, hrequest] at hfields
      obtain ⟨hedit, hid⟩ := editArticle_document hrun ht hf hfields
      refine ⟨_, by rw [hblog]; exact Function.update_self _ _ _, ?_⟩
      have hsame : w'.documentOf (editArticle target title content).id =
          (editArticle target title content).document := by
        rw [hdocument, hrequest, hedit, hid]
        simp [Request.edit]
      exact ⟨congrArg Document.title hsame, congrArg Document.content hsame⟩
    · rw [hrequest] at htext
      cases htext

/-- A move leaves the document of an article as it was, or the article is on the blog with its new
    one then. -/
theorem documentOf_next (hrun : Run (isolated · ·) c) {id : String}
    (hcreated : ∃ a, Created c a ∧ a.id = id) {m : server.Move} (hok : isolated c m = true)
    (hn : c.next m = some c') : c'.world.documentOf id = c.world.documentOf id ∨
      ∃ p, c'.world.blog id = some p ∧ p.HasText (c'.world.documentOf id) := by
  cases m with
  | arrive r =>
    cases hn
    exact .inl rfl
  | act x =>
    obtain ⟨w', hx, rfl⟩ := Config.next_act hn
    refine .inl ?_
    show w'.documentOf id = c.world.documentOf id
    rw [World.act_eq hx]
    rfl
  | step i ch =>
    obtain ⟨t, o, k, x, w', ht, hk, he, rfl⟩ := Config.next_step hn
    rcases World.exec_cases he with ⟨e, rfl, rfl⟩ | ⟨v, rfl, -⟩
    · exact .inl rfl
    have hfields := (Bool.and_eq_true_iff.1 (Bool.and_eq_true_iff.1 hok).1).1
    have hdocument := documentOf_answered hrun hcreated ht hk he hok hfields
    cases hcommitter : committer id (.asked i (answered o v)) with
    | none =>
      rw [hcommitter] at hdocument
      exact .inl hdocument
    | some j =>
      -- It is committed, which is allowed of an article that is there only.
      obtain ⟨a, heq, rfl⟩ := committer_eq_some.1 hcommitter
      cases heq
      obtain ⟨b, rfl⟩ := World.choice_of_commit he
      obtain ⟨r, -, -, -, hblog⟩ := blog_write hrun ht hk he hok
      refine .inr ⟨⟨r.originalAuthorID, (w'.documentOf a.id).title, (w'.documentOf a.id).content,
        a.isTokenized⟩, ?_, rfl, rfl⟩
      show w'.blog a.id = _
      rw [hblog]
      exact Function.update_self _ _ _

/-- While an article that was there at a moment is read, its document is the one that it had on the
    blog at some moment since, even if it has been withdrawn. -/
theorem exists_post_since {c₀ : server.Config} {id : String} (h₀ : Run (isolated · ·) c₀)
    (hpos : 0 < c₀.history.length) {p : Post} (hp : c₀.world.blog id = some p)
    (htext : p.HasText (c₀.world.documentOf id)) (h : Reaches (isolated · ·) c₀ c) :
    ∃ n < c.history.length, c₀.history.length ≤ n + 1 ∧
      ∃ p, blog.replay c (c.history.take (n + 1)) (fun _ => none) id = some p ∧
        p.HasText (c.world.documentOf id) := by
  have hcreated : ∃ a, Created c₀ a ∧ a.id = id := by
    obtain ⟨r, hr, -⟩ := Option.map_eq_some_iff.1 hp
    obtain ⟨hmem, rfl⟩ := Keyed.Table.get_eq_some.1 hr
    obtain ⟨a, ha, haid, -⟩ := (consistent h₀).rows r hmem
    exact ⟨a, ha, haid⟩
  -- What is on the blog now is what comes of the history until now.
  have hnow : ∀ {c₁ : server.Config} {p : Post}, Run (isolated · ·) c₁ →
      c₀.history.length ≤ c₁.history.length → c₁.world.blog id = some p →
      p.HasText (c₁.world.documentOf id) → ∃ n < c₁.history.length, c₀.history.length ≤ n + 1 ∧
        ∃ p, blog.replay c₁ (c₁.history.take (n + 1)) (fun _ => none) id = some p ∧
          p.HasText (c₁.world.documentOf id) := by
    intro c₁ p h₁ hle hp htext
    have hlength : c₁.history.length - 1 + 1 = c₁.history.length := by omega
    refine ⟨c₁.history.length - 1, by omega, by omega, p, ?_, htext⟩
    rw [hlength, List.take_length, ← blog_eq_replay h₁, hp]
  induction h with
  | refl => exact hnow h₀ le_rfl hp htext
  | @move c₁ c₂ m h₁ hok hn ih =>
    obtain ⟨n, hlt, hle, p, hp, htext⟩ := ih
    have hrun := h₀.trans h₁
    have hmove : Reaches (isolated · ·) c₁ c₂ := .move .refl hok hn
    have hlength : c₁.history.length ≤ c₂.history.length := hmove.history_prefix.length_le
    obtain ⟨a, ha, haid⟩ := hcreated
    rcases documentOf_next hrun ⟨a, ha.mono h₁.history_prefix.subset, haid⟩ hok hn with
      hsame | ⟨p', hp', htext'⟩
    · refine ⟨n, hlt.trans_le hlength, hle, p, ?_, hsame ▸ htext⟩
      have htake : c₂.history.take (n + 1) = c₁.history.take (n + 1) := by
        obtain ⟨es, hes⟩ := hmove.history_prefix
        rw [← hes, List.take_append_of_le_length (by omega)]
      rw [htake, Abstraction.replay_congr hrun hmove (List.take_subset _ _), hp]
    · exact hnow (hrun.trans hmove) (h₁.history_prefix.length_le.trans hlength) hp' htext'

/-- The request was being served at the place `n` of the history: some call of it is not after
    this place, and some call is not before it. -/
def ServedAt (c : server.Config) (i n : ℕ) : Prop :=
  (∃ m ≤ n, ∃ e, c.history[m]? = some (.asked i e)) ∧ ∃ m ≥ n, ∃ e, c.history[m]? = some (.asked i e)

/-- The answer is what was on the blog at a moment while the request was served. -/
def WasOnBlog (c : server.Config) (i : ℕ) (res : ArticleResult) : Prop :=
  ∃ n, ServedAt c i n ∧ ∃ p, blog.replay c (c.history.take (n + 1)) (fun _ => none) res.id = some p ∧
    res.title = p.title ∧ res.content = Bluemonday.ugc p.content

/-- A call that has stored the article of an answer. -/
theorem wasOnBlog_of_stored (h : Run (isolated · ·) c) {i : ℕ} {t : server.Thread}
    (ht : c.threads[i]? = some t) (htext : t.request.answersText = true) {o : Op} {v : o.Val}
    {a : Article} {res : ArticleResult} (he : answered o v ∈ t.log)
    (ha : o = .create a ∨ o = .commit a) (hres : TextOf a res) : WasOnBlog c i res := by
  obtain ⟨c₁, t₁, k, ch, w₁, h₂, h₁, hok, ht₁, hrequest, hk, hx, hhistory, -, hstate⟩ :=
    simulates_blog.asked h ht he
  obtain ⟨p, hp, hptext⟩ := blog_of_stored h₁ ht₁ (hrequest ▸ htext) hk hx hok ha
  have hplace : c.history[c₁.history.length]? = some (.asked i (answered o v)) := by
    rw [hhistory, List.getElem?_append_right le_rfl, Nat.sub_self]
    rfl
  have htake : c.history.take (c₁.history.length + 1) = c₁.history ++ [.asked i (answered o v)] := by
    rw [hhistory, List.take_append, List.take_of_length_le (Nat.le_succ _)]
    simp
  refine ⟨c₁.history.length, ⟨⟨_, le_rfl, _, hplace⟩, _, le_rfl, _, hplace⟩, p, ?_, ?_, ?_⟩
  · have hreplay : w₁.blog = blog.replay c (c₁.history ++ [.asked i (answered o v)]) fun _ => none :=
      hstate
    rw [htake, ← hreplay, hres.id, hp]
  · rw [hres.title, hptext.title]
  · rw [hres.content, hptext.content]
    rfl

/-- What a request answers of an article, which it creates, reads or updates, was on the blog
    while it was served. -/
theorem answer_of_blog (h : Run (isolated · ·) c) {i : ℕ} {t : server.Thread}
    (ht : c.threads[i]? = some t) (htext : t.request.answersText = true) {res : ArticleResult}
    (hret : t.rest = .ret (.article res)) : WasOnBlog c i res := by
  have hshown : Shown t.log res := by
    have hwp := h.rest_wp (P := fun _ _ _ => True) serve_shown ht
    rw [hret] at hwp
    exact Program.wp_ret.1 hwp htext res rfl
  cases hshown with
  | stored a he ha hres => exact wasOnBlog_of_stored h ht htext he ha hres
  | @loaded id target document l' hlog hres =>
    -- The document was loaded when the article had been, and may have been withdrawn.
    have hlog : t.log = [answered (.first id false) target] ++
        answered (.preload target.id) document :: l' := hlog
    obtain ⟨c₂, t₂, k₂, ch₂, w₂, h₂, hok₂, ht₂, hlog₂, hk₂, hx₂, hafter⟩ := h.logged_move ht hlog
    have hlog₂ : t₂.log = [] ++ answered (.first id false) target :: [] := hlog₂
    obtain ⟨c₁, t₁, k₁, ch₁, w₁, h₁, hok₁, ht₁, -, hk₁, hx₁, hbetween⟩ := h₂.logged_move ht₂ hlog₂
    obtain ⟨hw₁, hview⟩ : w₁ = c₁.world ∧ c₁.world.view (.first id false) = .ok target := by
      rcases World.exec_cases hx₁ with ⟨e, ⟨⟩, -⟩ | ⟨v, hv, heff⟩
      cases hv
      exact heff
    obtain ⟨r, hr, rfl, rfl⟩ := World.view_first hview
    have hdocument : document = c₂.world.documentOf r.id := by
      rcases World.exec_cases hx₂ with ⟨e, ⟨⟩, -⟩ | ⟨v, hv, heff⟩
      cases hv
      exact heff.2
    have hblog : w₁.blog r.id = some (r.post (w₁.documentOf r.id)) :=
      World.blog_of_mem (hw₁ ▸ hr)
    obtain ⟨n, hlt, hle, p, hp, hptext⟩ := exists_post_since (h₁.step hok₁ ht₁ hk₁ hx₁)
      (by simp [Config.step]) hblog ⟨rfl, rfl⟩ hbetween
    have hstep : Reaches (isolated · ·) c₂ c := .trans (.step .refl hok₂ ht₂ hk₂ hx₂) hafter
    have hfirst : c.history[c₁.history.length]? =
        some (.asked i (answered (.first r.id false) (r.article .zero))) :=
      (hbetween.trans hstep).getElem?_history_step
    have hsecond : c.history[c₂.history.length]? =
        some (.asked i (answered (.preload r.id) document)) := hafter.getElem?_history_step
    have htake : c.history.take (n + 1) = c₂.history.take (n + 1) := by
      obtain ⟨es, hes⟩ := hstep.history_prefix
      rw [← hes, List.take_append_of_le_length (by omega)]
    refine ⟨n, ⟨⟨_, ?_, _, hfirst⟩, _, hlt.le, _, hsecond⟩, p, ?_, ?_, ?_⟩
    · simpa [Config.step] using hle
    · rw [htake, Abstraction.replay_congr h₂ hstep (List.take_subset _ _)]
      exact hres.id ▸ hp
    · rw [hres.title, hptext.title, hdocument]
    · rw [hres.content, hptext.content, ← hdocument]
      rfl

end

/-! Two updates take turns while the article is read; and it is withdrawn while it is read. -/

section

attribute [local instance] Hardhat.environment

open Hardhat

/-- The answer of a request that has ended with an article. -/
def articleAnswered : Prog Reply → Option ArticleResult
  | .ret (.article res) => some res
  | _ => none

/-- An article is answered exactly if the request has ended with one. -/
theorem articleAnswered_eq_some {p : Prog Reply} {res : ArticleResult} :
    articleAnswered p = some res ↔ p = .ret (.article res) := by
  constructor
  · intro h
    unfold articleAnswered at h
    split at h
    · rw [Option.some.inj h]
    · cases h
  · rintro rfl
    rfl

/-- The article is created and gets two titles, while the request 3 reads it. -/
def readBetween : List server.Move :=
  createArticle 0 ++ (interleaved ⟨some "title 2", none⟩ ⟨some "title 3", none⟩).dropLast ++
    [.arrive (.read articleID), .step 3 .ok, .step 2 (.recreate false)] ++ steps 3 [.ok, .ok]

/-- Two updates of the title take turns while the article is read, and the last one stays. -/
theorem blog_eq_replay_readBetween : ∃ c : server.Config, Run (isolated · ·) c ∧
    (c.world.blog articleID).map (·.title) = some "title 3" ∧
    c.world.blog = blog.replay c c.history fun _ => none := by
  obtain ⟨c, hc, hp⟩ := exists_reaches_of_run isolated readBetween (.initial World.initial)
    (fun c => (c.world.blog articleID).map (·.title) = some "title 3") (by decide +kernel)
  exact ⟨c, hc, of_decide_eq_true hp, blog_eq_replay hc⟩

/-- When the request 1 has loaded the article, it gets another title, and is deleted. Then the
    request loads its document. -/
def readWithdrawn : List server.Move :=
  [createArticle 0, .arrive (.read articleID) :: steps 1 [.ok],
    .arrive (.update "author" articleID (some "title 2") none) :: steps 2 [.ok, .ok, .ok,
      .recreate false],
    .arrive (.delete "author" articleID) :: steps 3 [.ok, .ok], steps 1 [.ok, .ok]].flatten

/-- The article is gone when it is answered, with the title that it had in between. -/
theorem answer_of_blog_readWithdrawn : ∃ (c : server.Config) (res : ArticleResult),
    Run (isolated · ·) c ∧ res.title = "title 2" ∧ c.world.blog articleID = none ∧
    WasOnBlog c 1 res := by
  obtain ⟨c, hc, hp⟩ := exists_reaches_of_run isolated readWithdrawn (.initial World.initial)
    (fun c => c.world.blog articleID = none ∧
      (c.threads[1]?).any fun t => t.request.answersText &&
        (articleAnswered t.rest).any fun res => res.title = "title 2") (by decide +kernel)
  obtain ⟨hblog, ht⟩ := of_decide_eq_true hp
  obtain ⟨t, ht, h⟩ := (Option.any_eq_true _ _).1 ht
  obtain ⟨htext, h⟩ := Bool.and_eq_true_iff.1 h
  obtain ⟨res, hres, htitle⟩ := (Option.any_eq_true _ _).1 h
  exact ⟨c, res, hc, of_decide_eq_true htitle, hblog,
    answer_of_blog hc ht htext (articleAnswered_eq_some.1 hres)⟩

end

end Knowtfolio
