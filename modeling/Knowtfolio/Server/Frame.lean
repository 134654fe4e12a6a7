import Knowtfolio.Server.Hardhat
import Knowtfolio.Server.Storage

/-!
# What a request writes

Every write is of one article, the one of its request: the rows of the others stay as
they are, and so do the id and the author of the article, and the id and the owner of
its document (`Frame`). With the raw text of the documents, this holds in every run
(`coherent_and_frame`).

A deletion leaves the document of the article behind. So articles and documents are in
pairs as long as no article is deleted (`paired_iff_keepsArticles`), and not after one
was (`not_paired_of_delete`).

The frame is read off the effects of calls (`rows_of_effect`, `documents_of_effect`): which article
a call writes is a function of the call (`Op.writes`), and that it is the one of the request is
what the request may ask (`eq_articleID_of_writes`).
-/

namespace Knowtfolio

open Interaction Machine

/-- The article that a call writes. -/
def Op.writes : Op → Option String
  | create a | commit a => some a.id
  | delete id => some id
  | _ => none

/-- The article that a request is about, unless it is one that the request creates. -/
def Request.articleID : Request → Option String
  | .update _ id _ _ | .delete _ id | .createForArticle id _ _ => some id.1
  | _ => none

section

variable [Environment] {ok : server.Config → server.Move → Prop} {c c' : server.Config}

/-- The tables of `w'` differ from those of `w` only in the article `written`, of which
    the ids and the owners are the same. -/
structure Frame (written : Option String) (w w' : World) : Prop where
  rows : ∀ r : ArticleRow, written ≠ some r.id → (r ∈ w'.articles.rows ↔ r ∈ w.articles.rows)
  documents : ∀ d : Document, written ≠ some d.ownerID →
    (d ∈ w'.documents.rows ↔ d ∈ w.documents.rows)
  author : ∀ r ∈ w.articles.rows, ∀ r' ∈ w'.articles.rows, r'.id = r.id →
    r'.originalAuthorID = r.originalAuthorID
  document : ∀ d ∈ w.documents.rows, ∀ d' ∈ w'.documents.rows,
    d'.ownerID = d.ownerID ↔ d'.id = d.id

/-- The authors, and the ids of the documents and of their owners, are those of the
    articles that were created. -/
theorem Consistent.frame (hc : Consistent c) (hsub : c.history ⊆ c'.history) (h : Run ok c')
    (hc' : Consistent c') {written : Option String}
    (hrows : ∀ r : ArticleRow, written ≠ some r.id →
      (r ∈ c'.world.articles.rows ↔ r ∈ c.world.articles.rows))
    (hdocuments : ∀ d : Document, written ≠ some d.ownerID →
      (d ∈ c'.world.documents.rows ↔ d ∈ c.world.documents.rows)) :
    Frame written c.world c'.world where
  rows := hrows
  documents := hdocuments
  author r hr r' hr' hid := by
    obtain ⟨a, ha, haid, hauthor⟩ := (hc.rows r hr).mono hsub
    obtain ⟨a', ha', haid', hauthor'⟩ := hc'.rows r' hr'
    cases Created.unique h ha' ha (.inl (by rw [haid, haid', hid]))
    rw [← hauthor', ← hauthor]
  document d hd d' hd' := by
    obtain ⟨-, a, ha, howner, hid⟩ := (hc.documents d hd).mono hsub
    obtain ⟨-, a', ha', howner', hid'⟩ := hc'.documents d' hd'
    constructor
    · intro heq
      cases Created.unique h ha' ha (.inl (by rw [howner, howner', heq]))
      rw [← hid', ← hid]
    · intro heq
      cases Created.unique h ha' ha (.inr (by rw [hid, hid', heq]))
      rw [← howner', ← howner]

/-- The rows that a call changes are those of the article that it writes. -/
theorem rows_of_effect {w w' : World} {o : Op} {v : o.Val} (h : World.Effect w o v w')
    (r : ArticleRow) (hr : o.writes ≠ some r.id) : r ∈ w'.articles.rows ↔ r ∈ w.articles.rows := by
  cases o with
  | create a =>
    obtain ⟨-, rfl⟩ := h
    exact Keyed.Table.mem_put_of_ne fun heq => hr (congrArg some heq.symm)
  | commit a =>
    obtain ⟨b, rfl⟩ := h
    rw [World.write]
    dsimp only
    split_ifs
    · exact Keyed.Table.mem_put_of_ne fun heq => hr (congrArg some heq.symm)
    · rfl
  | delete id =>
    cases h
    have hne : r.id ≠ id := fun heq => hr (congrArg some heq.symm)
    simp [hne]
  | _ => rw [h.changes.articles rfl]

/-- So are the documents, as a document that is written has the id of one of the
    article, or a new one. -/
theorem documents_of_effect (h : Run ok c) {i : ℕ} {t : server.Thread} {o : Op}
    (ht : c.threads[i]? = some t) {k : calls.Ans o → Prog Reply} (hk : t.rest = .ask o k)
    {v : o.Val} {w' : World} (heff : World.Effect c.world o v w') (d : Document)
    (hd : o.writes ≠ some d.ownerID) : d ∈ w'.documents.rows ↔ d ∈ c.world.documents.rows := by
  have hc := consistent h
  cases o with
  | create a =>
    obtain ⟨-, _, _, _, _, _, -, ha, -⟩ := asks_of_rest h ht hk
    have howner : a.document.ownerID = a.id := by rw [ha]; rfl
    obtain ⟨-, rfl⟩ := heff
    have hne : d ≠ a.document := fun heq => hd (by rw [heq, howner]; rfl)
    simp only [Keyed.Table.mem_put, hne, or_false, and_iff_left_iff_imp]
    intro hmem
    obtain ⟨-, a', ha', -, hid⟩ := hc.documents d hmem
    rw [← hid]
    exact (not_created_of_rest h ht hk ha').2
  | commit a =>
    obtain ⟨b, rfl⟩ := heff
    obtain ⟨-, hdoc⟩ := committed_of_rest h hc ht hk
    rw [World.write]
    dsimp only
    rcases hdoc with hzero | ⟨⟨-, a₁, ha₁, howner₁, hid₁⟩, howner⟩
    · rw [if_pos hzero]
    split_ifs
    · rfl
    -- A document with the id of the one that is written is of the same article.
    have hne : d ≠ { a.document with ownerID := a.id } := fun heq =>
      hd (by rw [heq]; rfl)
    simp only [Keyed.Table.mem_put, hne, or_false, and_iff_left_iff_imp]
    intro hmem hid
    obtain ⟨-, a₂, ha₂, howner₂, hid₂⟩ := hc.documents d hmem
    cases ha₁.unique h ha₂ (.inr (by rw [hid₁, hid₂, hid]))
    exact hd (by rw [← howner₂, howner₁, howner]; rfl)
  | _ => rw [heff.changes.documents rfl]

/-- A call writes the article of its request. -/
theorem eq_articleID_of_writes (h : Run ok c) {i : ℕ} {t : server.Thread} {o : Op}
    (ht : c.threads[i]? = some t) {k : calls.Ans o → Prog Reply} (hk : t.rest = .ask o k)
    {id : String} (ho : o.writes = some id) : ∀ id' ∈ t.request.articleID, id = id' := by
  have hfirst : ∀ {id : String} {p : Bool} {target : Article},
      answered (.first id p) target ∈ t.log → target.id = id := fun hmem =>
    ((consistent h).loaded i _ _ _ ((h.mem_log ht).1 hmem)).id_eq
  have hasks := (asks_of_rest h ht hk).2
  cases o with
  | create a =>
    obtain ⟨_, _, _, _, _, hrequest, -⟩ := hasks
    rw [hrequest]
    nofun
  | commit a =>
    cases ho
    -- Neither editing nor tokenizing changes the id of the article that was loaded.
    rcases hasks with ⟨_, id, _, _, target, hrequest, hl, rfl⟩ |
      ⟨id, _, _, target, _, _, hrequest, hl, rfl, -⟩
    all_goals
      rw [hrequest]
      rintro _ ⟨⟩
      exact (hfirst hl : target.id = id)
  | delete x =>
    cases ho
    obtain ⟨_, id, hrequest, hx⟩ := hasks
    rw [hrequest]
    rintro _ ⟨⟩
    rcases hx with rfl | ⟨target, hl, rfl⟩
    · rfl
    · exact hfirst hl
  | _ => cases ho

/-- The article that a move writes. -/
def written (c : server.Config) : server.Move → Option String
  | .step i _ => (c.asking i).bind fun (_, _, o) => o.writes
  | _ => none

/-- In every run the raw text of every document is the one of its title and its
    content, and every move writes at most one article, that of its request. -/
theorem coherent_and_frame (h : Run Any c) :
    (∀ d ∈ c.world.documents.rows,
      d.rawText = d.title ++ "\n" ++ Bluemonday.stripTags d.content) ∧
    ∀ m c', c.next m = some c' → Frame (written c m) c.world c'.world ∧
      ∀ i ch request l o, m = .step i ch → c.asking i = some (request, l, o) →
        ∀ id ∈ o.writes, ∀ id' ∈ request.articleID, id = id' := by
  -- What is stored is consistent before and after the move: the frame is read off of both.
  have hc := consistent h
  refine ⟨fun d hd => (hc.documents d hd).1, fun m c' hn => ⟨?_, ?_⟩⟩
  · have h' : Run Any c' := .move h trivial hn
    have hc' := consistent h'
    cases m with
    | arrive r =>
      cases hn
      exact hc.frame (List.subset_append_left _ _) h' hc' (fun _ _ => Iff.rfl) fun _ _ => Iff.rfl
    | step i ch =>
      obtain ⟨t, o, k, a, w', ht, hk, he, rfl⟩ := Config.next_step hn
      rw [written, Config.asking_of_rest ht hk, Option.bind_some]
      refine hc.frame (List.subset_append_left _ _) h' hc' (fun r hr => ?_) fun d hd => ?_
      all_goals rcases World.exec_cases he with ⟨e, rfl, rfl⟩ | ⟨v, rfl, heff⟩
      · rfl
      · exact rows_of_effect heff r hr
      · rfl
      · exact documents_of_effect h ht hk heff d hd
    | act x =>
      obtain ⟨w', hx, rfl⟩ := Config.next_act hn
      refine hc.frame (List.subset_append_left _ _) h' hc' (fun r _ => ?_) fun d _ => ?_
      · rw [Config.act, World.act_eq hx]
      · rw [Config.act, World.act_eq hx]
  · intro i ch request l o hm hasking id hid
    subst hm
    obtain ⟨t, o', k, a, w', ht, hk, he, rfl⟩ := Config.next_step hn
    rw [Config.asking_of_rest ht hk] at hasking
    cases hasking
    exact eq_articleID_of_writes h ht hk hid

/-! ## Pairs -/

/-- Every article has one document, and every document is of an article. -/
structure Paired (w : World) : Prop where
  document : ∀ r ∈ w.articles.rows, ∃! d, d ∈ w.documents.rows ∧ d.ownerID = r.id
  article : ∀ d ∈ w.documents.rows, ∃ r ∈ w.articles.rows, r.id = d.ownerID

/-- What was created has a document, so articles and documents are in pairs exactly if
    it is stored as an article as well. -/
theorem paired_iff (h : Run ok c) :
    Paired c.world ↔ ∀ a, Created c a → ∃ r ∈ c.world.articles.rows, r.id = a.id := by
  have hc := consistent h
  constructor
  · intro hp a ha
    obtain ⟨d, hd, hid⟩ := hc.document_of a ha
    obtain ⟨r, hr, hr'⟩ := hp.article d hd
    exact ⟨r, hr, hr'.trans hid⟩
  · intro hstored
    refine ⟨fun r hr => ?_, fun d hd => ?_⟩
    · obtain ⟨d, hd, hid⟩ := hc.exists_document hr
      refine ⟨d, ⟨hd, hid⟩, fun d' ⟨hd', hid'⟩ => ?_⟩
      obtain ⟨-, a, ha, howner, hdoc⟩ := hc.documents d hd
      obtain ⟨-, a', ha', howner', hdoc'⟩ := hc.documents d' hd'
      cases ha'.unique h ha (.inl (by rw [howner, howner', hid, hid']))
      exact c.world.documents.eq_of_key_eq hd' hd (hdoc'.symm.trans hdoc)
    · obtain ⟨-, a, ha, howner, -⟩ := hc.documents d hd
      exact howner ▸ hstored a ha

/-- The article that a move deletes, if the call does not fail. -/
def deletes (c : server.Config) : server.Move → Option String
  | .step i .ok =>
    match c.asking i with
    | some (_, _, .delete id) => some id
    | _ => none
  | _ => none

/-- No article that is stored is deleted. -/
def keepsArticles (c : server.Config) (m : server.Move) : Bool :=
  (deletes c m).all fun id => (c.world.articles.get id).isNone

/-- The article that a step deletes is that of the call. -/
theorem deletes_step {i : ℕ} {t : server.Thread} (ht : c.threads[i]? = some t) {id : String}
    {k : calls.Ans (.delete id) → Prog Reply} (hk : t.rest = .ask (.delete id) k) :
    deletes c (.step i .ok) = some id := by
  simp only [deletes, Config.asking_of_rest ht hk]

/-- An article stays stored, unless it is deleted. -/
theorem stored_of_effect {w w' : World} {o : Op} {v : o.Val} (h : World.Effect w o v w')
    {id : String} (ho : o ≠ .delete id) (hid : ∃ r ∈ w.articles.rows, r.id = id) :
    ∃ r ∈ w'.articles.rows, r.id = id := by
  -- A row that is put under the id takes the place of the old one.
  have hput : ∀ a : Article, ∃ r ∈ (w.articles.put a.row).rows, r.id = id := by
    intro a
    obtain ⟨r, hr, rfl⟩ := hid
    by_cases hne : r.id = a.row.id
    · exact ⟨a.row, Keyed.Table.mem_put.2 (.inr rfl), hne.symm⟩
    · exact ⟨r, Keyed.Table.mem_put.2 (.inl ⟨hr, hne⟩), rfl⟩
  cases o with
  | create a =>
    obtain ⟨-, rfl⟩ := h
    exact hput a
  | commit a =>
    obtain ⟨b, rfl⟩ := h
    rw [World.write]
    dsimp only
    split_ifs
    · exact hput a
    · exact hid
  | delete id' =>
    cases h
    obtain ⟨r, hr, rfl⟩ := hid
    exact ⟨r, Keyed.Table.mem_erase.2 ⟨hr, fun heq => ho (congrArg Op.delete heq.symm)⟩, rfl⟩
  | _ =>
    rw [h.changes.articles rfl]
    exact hid

/-- What is created by a step is what its call creates. -/
theorem created_step {i : ℕ} {t : server.Thread} {o : Op} {r : Except Err o.Val} {p : Prog Reply}
    {w : World} {a : Article} (h : Created (c.step i t ⟨o, r⟩ p w) a) :
    Created c a ∨ (⟨o, r⟩ : calls.Entry) = answered (.create a) () := by
  obtain ⟨j, hj⟩ := h
  rcases Config.mem_history_step.1 hj with hj | hj
  · exact .inl ⟨j, hj⟩
  · injection hj with _ hj
    exact .inr hj.symm

/-- As long as nothing is deleted, every article that was created is stored. -/
theorem stored_of_keepsArticles (h : Run (keepsArticles · ·) c) :
    ∀ a, Created c a → ∃ r ∈ c.world.articles.rows, r.id = a.id := by
  refine h.induction (fun c : server.Config => ∀ a, Created c a →
    ∃ r ∈ c.world.articles.rows, r.id = a.id) (fun a ⟨i, hi⟩ => absurd hi List.not_mem_nil) ?_ ?_ ?_
  · rintro c r - hc - a ⟨i, hi⟩
    exact hc a ⟨i, by simpa using hi⟩
  · intro c i ch t o k ans w' hrun hc hm ht hk he a ha
    rcases World.exec_cases he with ⟨e, rfl, rfl⟩ | ⟨v, rfl, heff⟩
    · rcases created_step ha with ha | ha
      · exact hc a ha
      · cases ha
    rcases created_step ha with ha' | ha'
    · -- Only a deletion of the article would take it away, and this one finds none to delete.
      by_cases ho : o = .delete a.id
      · subst ho
        have hch : ch = .ok := by
          cases ch with
          | ok => rfl
          | _ => cases he
        subst hch
        obtain ⟨r, hr, hid⟩ := hc a ha'
        rw [keepsArticles, deletes_step ht hk, Option.all_some, Option.isNone_iff_eq_none] at hm
        exact absurd hid (Keyed.Table.get_eq_none.1 hm r hr)
      · exact stored_of_effect heff ho (hc a ha')
    · cases ha'
      obtain ⟨-, rfl⟩ := heff
      exact ⟨a.row, Keyed.Table.mem_put.2 (.inr rfl), rfl⟩
  · rintro c x w' - hc - hx a ⟨i, hi⟩
    have hstored := hc a ⟨i, by simpa using hi⟩
    rw [Config.act, World.act_eq hx]
    exact hstored

/-- The document of an article that was deleted stays. -/
theorem not_paired_of_delete (h : Run ok c) {m : server.Move} (hn : c.next m = some c')
    (hm : keepsArticles c m = false) : ¬ Paired c'.world := by
  have h' : Run Any c' := .move h.any trivial hn
  obtain ⟨id, hdel, hstored⟩ : ∃ id, deletes c m = some id ∧
      (c.world.articles.get id).isSome = true := by
    cases hdel : deletes c m with
    | none => simp [keepsArticles, hdel] at hm
    | some id => exact ⟨id, rfl, by simpa [keepsArticles, hdel] using hm⟩
  unfold deletes at hdel
  split at hdel
  next i =>
    split at hdel
    next request l id' hasking =>
      cases hdel
      obtain ⟨t, o, k, a, w', ht, hk, he, rfl⟩ := Config.next_step hn
      rw [Config.asking_of_rest ht hk] at hasking
      cases hasking
      cases he
      -- The article was created, and its document is kept: it would have to be stored still.
      obtain ⟨r, hget⟩ := Option.isSome_iff_exists.1 hstored
      obtain ⟨hr, rfl⟩ := Keyed.Table.get_eq_some.1 hget
      obtain ⟨a, ha, hid, -⟩ := (consistent h).rows r hr
      intro hp
      obtain ⟨r', hr', hid'⟩ := (paired_iff h').1 hp a (ha.mono (List.subset_append_left _ _))
      exact (Keyed.Table.mem_erase.1 hr').2 (hid'.trans hid)
    next => cases hdel
  next => cases hdel

/-- While no article is deleted, articles and documents are in pairs, and the next move
    keeps them so exactly if it deletes none. -/
theorem paired_iff_keepsArticles (h : Run (keepsArticles · ·) c) :
    Paired c.world ∧ ∀ m c', c.next m = some c' →
      (Paired c'.world ↔ keepsArticles c m = true) := by
  refine ⟨(paired_iff h).2 (stored_of_keepsArticles h), fun m c' hn => ⟨fun hp => ?_, fun hm => ?_⟩⟩
  · by_contra hm
    exact not_paired_of_delete h hn (Bool.not_eq_true _ ▸ hm) hp
  · have h' : Run (keepsArticles · ·) c' := .move h hm hn
    exact (paired_iff h').2 (stored_of_keepsArticles h')

end

/-! An article is updated, and deleted. -/

section

attribute [local instance] Hardhat.environment

open Hardhat

/-- The author gives the article another title, as the request `i`, up to the commit. -/
def retitle (i : ℕ) : List server.Move :=
  .arrive (.update "author" articleID (some "another title") none) :: steps i [.ok, .ok, .ok]

/-- An article is created, and gets another title: one document is written. -/
theorem coherent_and_frame_retitle : ∃ c c' : server.Config, Run Any c ∧
    c.next (.step 1 (.recreate false)) = some c' ∧
    (∃ d ∈ c.world.documents.rows,
      d.rawText = d.title ++ "
" ++ Bluemonday.stripTags d.content) ∧
    written c (.step 1 (.recreate false)) = some articleID.1 ∧
    Frame (some articleID.1) c.world c'.world := by
  obtain ⟨c, hc, hp⟩ := exists_reaches_of_run (fun _ _ => true)
    [createArticle 0, retitle 1].flatten (.initial World.initial)
    (fun c => (c.next (.step 1 (.recreate false))).isSome = true ∧ c.world.documents.rows ≠ [] ∧
      written c (.step 1 (.recreate false)) = some articleID.1) (by decide +kernel)
  obtain ⟨hn, hne, hwritten⟩ := of_decide_eq_true hp
  obtain ⟨c', hn⟩ := Option.isSome_iff_exists.1 hn
  obtain ⟨d, hd⟩ := List.exists_mem_of_ne_nil _ hne
  obtain ⟨hcoherent, hframe⟩ := coherent_and_frame hc.any
  exact ⟨c, c', hc.any, hn, ⟨d, hd, hcoherent d hd⟩, hwritten, hwritten ▸ (hframe _ _ hn).1⟩

/-- As long as nothing is deleted, its document is the one of an article that is stored. -/
theorem paired_retitle : ∃ c, Run (keepsArticles · ·) c ∧ c.world.articles.rows ≠ [] ∧
    Paired c.world := by
  obtain ⟨c, hc, hp⟩ := exists_reaches_of_run keepsArticles
    [createArticle 0, retitle 1, [.step 1 (.recreate false)]].flatten (.initial World.initial)
    (fun c => c.world.articles.rows ≠ []) (by decide +kernel)
  exact ⟨c, hc, of_decide_eq_true hp, (paired_iff_keepsArticles hc).1⟩

/-- The article is deleted, and its document stays behind. -/
theorem not_paired_deleted : ∃ c, Run Any c ∧ Machine.Config.Quiet c ∧ ¬ Paired c.world := by
  obtain ⟨c, hc, hp⟩ := exists_reaches_of_run (fun _ _ => true)
    [createArticle 0, .arrive (.delete "author" articleID) :: steps 1 [.ok, .ok]].flatten
    (.initial World.initial)
    (fun c => Machine.Config.Quiet c ∧ c.world.articles.rows = [] ∧ c.world.documents.rows ≠ [])
    (by decide +kernel)
  obtain ⟨hquiet, hrows, hdocuments⟩ := of_decide_eq_true hp
  refine ⟨c, hc.any, hquiet, fun hpaired => ?_⟩
  obtain ⟨d, hd⟩ := List.exists_mem_of_ne_nil _ hdocuments
  obtain ⟨r, hr, -⟩ := hpaired.article d hd
  rw [hrows] at hr
  cases hr

end

end Knowtfolio
