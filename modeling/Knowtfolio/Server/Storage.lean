import Knowtfolio.Server.Runs

/-!
# What is stored

In every run, the rows of the articles, and the articles in memory, are of
articles that were created: their ids and their authors never change. So are
the documents, whose raw text is always the one of their title and content; and
every article stored has exactly one document (`Consistent`, `consistent`).

The invariant is kept by every call that writes articles, by a lemma of its own
(`Consistent.create`, `Consistent.commit`, `Consistent.delete`); what such a call may write is
known from what its request may ask. The other calls leave the tables as they are
(`Consistent.of_unchanged`), and what the history says only grows (`Later`).
-/

namespace Knowtfolio

open Interaction Machine

variable [Environment] {ok : server.Config → server.Move → Prop} {c c' : server.Config}

/-- What was created stays so. -/
theorem Created.mono (hsub : c.history ⊆ c'.history) {a : Article} (h : Created c a) :
    Created c' a :=
  let ⟨i, hi⟩ := h; ⟨i, hsub hi⟩

/-- The article `id`, by `author`, was created. -/
def ArticleOf (c : server.Config) (id author : String) : Prop :=
  ∃ a, Created c a ∧ a.id = id ∧ a.originalAuthorID = author

/-- A row that goes back to a creation does so ever after. -/
theorem ArticleOf.mono (hsub : c.history ⊆ c'.history) {id author : String}
    (h : ArticleOf c id author) : ArticleOf c' id author :=
  let ⟨a, ha, heq⟩ := h; ⟨a, ha.mono hsub, heq⟩

/-- The document is the one of an article that was created, as it may be now. -/
def DocumentOf (c : server.Config) (d : Document) : Prop :=
  d.Coherent ∧ ∃ a, Created c a ∧ a.id = d.ownerID ∧ a.document.id = d.id

/-- So does a document. -/
theorem DocumentOf.mono (hsub : c.history ⊆ c'.history) {d : Document} (h : DocumentOf c d) :
    DocumentOf c' d :=
  let ⟨hd, a, ha, heq⟩ := h; ⟨hd, a, ha.mono hsub, heq⟩

/-- An article as a request has got it from the table. -/
structure LoadedOf (c : server.Config) (id : String) (preload : Bool) (a : Article) : Prop where
  id_eq : a.id = id
  article : ArticleOf c a.id a.originalAuthorID
  document : preload = true → DocumentOf c a.document ∧ a.document.ownerID = a.id
  zero : preload = false → a.document = .zero

/-- So does what was loaded. -/
theorem LoadedOf.mono (hsub : c.history ⊆ c'.history) {id : String} {preload : Bool} {a : Article}
    (h : LoadedOf c id preload a) : LoadedOf c' id preload a where
  id_eq := h.id_eq
  article := h.article.mono hsub
  document hp := ⟨(h.document hp).1.mono hsub, (h.document hp).2⟩
  zero := h.zero

/-- What is stored, and what was loaded, are of articles that were created. -/
structure Consistent (c : server.Config) : Prop where
  rows : ∀ r ∈ c.world.articles.rows, ArticleOf c r.id r.originalAuthorID
  documents : ∀ d ∈ c.world.documents.rows, DocumentOf c d
  document_of : ∀ a, Created c a → ∃ d ∈ c.world.documents.rows, d.ownerID = a.id
  loaded : ∀ i id p a, .asked i (answered (.first id p) a) ∈ c.history → LoadedOf c id p a

/-- `c'` comes after `c`, and nothing was loaded or created between. -/
structure Later (c c' : server.Config) : Prop where
  subset : c.history ⊆ c'.history
  loaded : ∀ i id p a, .asked i (answered (.first id p) a) ∈ c'.history →
    .asked i (answered (.first id p) a) ∈ c.history
  created : ∀ a, Created c' a → Created c a

/-- Moves that write nothing. -/
theorem Consistent.of_unchanged (hc : Consistent c) (hlater : Later c c')
    (harticles : c'.world.articles = c.world.articles)
    (hdocuments : c'.world.documents = c.world.documents) : Consistent c' where
  rows r hr := (hc.rows r (harticles ▸ hr)).mono hlater.subset
  documents d hd := (hc.documents d (hdocuments ▸ hd)).mono hlater.subset
  document_of a ha := hdocuments ▸ hc.document_of a (hlater.created a ha)
  loaded i id p a h := (hc.loaded i id p a (hlater.loaded i id p a h)).mono hlater.subset

omit [Environment] in
/-- The document of an article is one of the table, if there is one of it. -/
theorem World.documentOf_mem {w : World} {id : String}
    (h : ∃ d ∈ w.documents.rows, d.ownerID = id) :
    w.documentOf id ∈ w.documents.rows ∧ (w.documentOf id).ownerID = id := by
  obtain ⟨d, hd, hid⟩ := h
  cases hf : w.documents.rows.find? fun d => d.ownerID = id with
  | none =>
    have := List.find?_eq_none.1 hf d hd
    simp [hid] at this
  | some d' =>
    have hmem := List.mem_of_find?_eq_some hf
    have howner := List.find?_some hf
    simp only [World.documentOf, hf, Option.getD_some]
    exact ⟨hmem, by simpa using howner⟩

/-- An article that is stored has a document: nothing deletes documents. -/
theorem Consistent.exists_document (hc : Consistent c) {r : ArticleRow}
    (hr : r ∈ c.world.articles.rows) : ∃ d ∈ c.world.documents.rows, d.ownerID = r.id := by
  obtain ⟨a, ha, haid, -⟩ := hc.rows r hr
  exact haid ▸ hc.document_of a ha

/-- What `First` loads. -/
theorem Consistent.loadedOf_view (hc : Consistent c) {id : String} {p : Bool} {a : Article}
    (h : c.world.view (.first id p) = .ok a) : LoadedOf c id p a := by
  obtain ⟨r, hmem, rfl, rfl⟩ := World.view_first h
  refine ⟨rfl, hc.rows r hmem, ?_, ?_⟩
  · rintro rfl
    obtain ⟨hd, howner⟩ := World.documentOf_mem (hc.exists_document hmem)
    exact ⟨hc.documents _ hd, howner⟩
  · rintro rfl
    rfl

/-- A document that is written in the place of another one has the same owner. -/
theorem exists_mem_put (h : Run ok c) {t : Keyed.Table Document.id} {d : Document}
    (hd : DocumentOf c d) (ht : ∀ d ∈ t.rows, DocumentOf c d) {owner : String}
    (howner : ∃ d' ∈ t.rows, d'.ownerID = owner) : ∃ d' ∈ (t.put d).rows, d'.ownerID = owner := by
  obtain ⟨d', hd', rfl⟩ := howner
  by_cases hid : d'.id = d.id
  · obtain ⟨-, a, ha, haid, had⟩ := hd
    obtain ⟨-, a', ha', haid', had'⟩ := ht d' hd'
    have := ha.unique h ha' (.inr (by rw [had, had', hid]))
    exact ⟨d, by simp, by rw [← haid, ← haid', this]⟩
  · exact ⟨d', by simp [hd', hid], rfl⟩

/-- What a commit writes: the row of the article, and its document unless it is
    zero. -/
theorem committed_of_rest (h : Run ok c) (hc : Consistent c) {i : ℕ} {t : server.Thread}
    (ht : c.threads[i]? = some t) {a : Article} {k : calls.Ans (.commit a) → Prog Reply}
    (hk : t.rest = .ask (.commit a) k) :
    ArticleOf c a.id a.originalAuthorID ∧
      (a.document = .zero ∨ DocumentOf c a.document ∧ a.document.ownerID = a.id) := by
  rcases (asks_of_rest h ht hk).2 with
    ⟨_, id, title, content, target, -, hl, rfl⟩ | ⟨id, _, _, target, _, _, -, hl, rfl, -⟩
  · obtain ⟨-, hart, hdoc, -⟩ := hc.loaded i _ _ _ ((h.mem_log ht).1 hl)
    obtain ⟨⟨hcoh, a, ha, haid, had⟩, howner⟩ := hdoc rfl
    refine ⟨hart, .inr ?_⟩
    simp only [editArticle, target.document.set_if_present title content hcoh]
    exact ⟨⟨Document.coherent_reloadRawText _, a, ha, haid, had⟩, howner⟩
  · obtain ⟨-, hart, -, hzero⟩ := hc.loaded i _ _ _ ((h.mem_log ht).1 hl)
    exact ⟨hart, .inl (hzero rfl)⟩

section

variable (hrun : Run ok c) (hc : Consistent c) {i : ℕ} {t : server.Thread}
  (ht : c.threads[i]? = some t) {a : Article}

include hrun hc ht

/-- A row and a document that are created are those of the article that was created. -/
theorem Consistent.create {k : calls.Ans (.create a) → Prog Reply}
    (hk : t.rest = .ask (.create a) k) (hsub : c.history ⊆ c'.history)
    (hloaded : ∀ i id p a, .asked i (answered (.first id p) a) ∈ c'.history →
      .asked i (answered (.first id p) a) ∈ c.history)
    (hcreated : ∀ a', Created c' a' ↔ Created c a' ∨ a' = a)
    (harticles : c'.world.articles = c.world.articles.put a.row)
    (hdocuments : c'.world.documents = c.world.documents.put a.document) : Consistent c' := by
  obtain ⟨-, _, _, _, _, _, -, ha, -⟩ := asks_of_rest hrun ht hk
  have howner : a.document.ownerID = a.id := by rw [ha]; rfl
  have hcoherent : a.document.Coherent := by rw [ha]; exact Document.coherent_reloadRawText _
  have hmem : Created c' a := (hcreated a).2 (.inr rfl)
  refine ⟨fun r hr => ?_, fun d hd => ?_, fun a' ha' => ?_, fun j id p a' ha' =>
    (hc.loaded j id p a' (hloaded j id p a' ha')).mono hsub⟩
  · rw [harticles, Keyed.Table.mem_put] at hr
    rcases hr with ⟨hr, -⟩ | rfl
    · exact (hc.rows r hr).mono hsub
    · exact ⟨a, hmem, rfl, rfl⟩
  · rw [hdocuments, Keyed.Table.mem_put] at hd
    rcases hd with ⟨hd, -⟩ | rfl
    · exact (hc.documents d hd).mono hsub
    · exact ⟨hcoherent, a, hmem, howner.symm, rfl⟩
  · rw [hdocuments]
    rcases (hcreated a').1 ha' with ha' | rfl
    -- The id of the new document was not drawn before, so that no document is replaced.
    · obtain ⟨d, hd, hdr⟩ := hc.document_of a' ha'
      obtain ⟨-, a₁, ha₁, -, hid⟩ := hc.documents d hd
      have hne := (not_created_of_rest hrun ht hk ha₁).2
      exact ⟨d, Keyed.Table.mem_put.2 (.inl ⟨hd, by rwa [← hid]⟩), hdr⟩
    · exact ⟨a'.document, Keyed.Table.mem_put.2 (.inr rfl), howner⟩

/-- What is committed was loaded before, so that its key, its author and the key of its document are
    those of an article that was created. -/
theorem Consistent.commit {k : calls.Ans (.commit a) → Prog Reply}
    (hk : t.rest = .ask (.commit a) k) (hlater : Later c c') {b : Bool}
    (hw : c'.world = c.world.write a b) : Consistent c' := by
  obtain ⟨hart, hdoc⟩ := committed_of_rest hrun hc ht hk
  have harticles : ∀ r ∈ c'.world.articles.rows, r ∈ c.world.articles.rows ∨ r = a.row := by
    intro r hr
    rw [hw, World.write] at hr
    dsimp only at hr
    split_ifs at hr
    · exact (Keyed.Table.mem_put.1 hr).imp_left And.left
    · exact .inl hr
  refine ⟨fun r hr => ?_, fun d hd => ?_, fun a' ha' => ?_, fun j id p a' ha' =>
    (hc.loaded j id p a' (hlater.loaded j id p a' ha')).mono hlater.subset⟩
  · rcases harticles r hr with hr | rfl
    · exact (hc.rows r hr).mono hlater.subset
    · exact hart.mono hlater.subset
  · rw [hw, World.write] at hd
    dsimp only at hd
    -- An article that was loaded without its document leaves the table of documents alone.
    rcases hdoc with hzero | ⟨hdoc, howner⟩
    · rw [if_pos hzero] at hd
      exact (hc.documents d hd).mono hlater.subset
    · split_ifs at hd
      · exact (hc.documents d hd).mono hlater.subset
      · rcases Keyed.Table.mem_put.1 hd with ⟨hd, -⟩ | rfl
        · exact (hc.documents d hd).mono hlater.subset
        · rw [← howner]
          exact hdoc.mono hlater.subset
  · have hex := hc.document_of a' (hlater.created a' ha')
    rw [hw, World.write]
    dsimp only
    rcases hdoc with hzero | ⟨hdoc, howner⟩
    · rwa [if_pos hzero]
    · split_ifs
      · exact hex
      · rw [← howner]
        exact exists_mem_put hrun hdoc hc.documents hex

end

/-- A call that neither loads nor creates an article leaves what is known of them. -/
theorem Later.step {i : ℕ} {t : server.Thread} {o : Op} {r : Except Err o.Val}
    {p : Prog Reply} {w : World}
    (hfirst : ∀ id p a, (⟨o, r⟩ : calls.Entry) ≠ answered (.first id p) a)
    (hcreate : ∀ a, (⟨o, r⟩ : calls.Entry) ≠ answered (.create a) ()) :
    Later c (c.step i t ⟨o, r⟩ p w) where
  subset := List.subset_append_left _ _
  loaded j id p a h := by
    rcases Config.mem_history_step.1 h with h | h
    · exact h
    · injection h with _ h
      exact absurd h.symm (hfirst id p a)
  created a h := by
    obtain ⟨j, h⟩ := h
    rcases Config.mem_history_step.1 h with h | h
    · exact ⟨j, h⟩
    · injection h with _ h
      exact absurd h.symm (hcreate a)

/-- An event that is no answer loads and creates nothing. -/
theorem Later.of_concat {x : server.Event} (hx : ∀ i e, x ≠ .asked i e)
    (h : c'.history = c.history ++ [x]) : Later c c' := by
  have hasked : ∀ i e, .asked i e ∈ c'.history → .asked i e ∈ c.history := by
    intro i e he
    rw [h, List.mem_append, List.mem_singleton] at he
    exact he.resolve_right fun heq => hx i e heq.symm
  exact ⟨h ▸ List.subset_append_left _ _, fun i id p a => hasked i _,
    fun a ⟨i, hi⟩ => ⟨i, hasked i _ hi⟩⟩

/-- A deletion takes a row away, and leaves its document where it is. -/
theorem Consistent.delete (hc : Consistent c) (hlater : Later c c') {id : String}
    (harticles : c'.world.articles = c.world.articles.erase id)
    (hdocuments : c'.world.documents = c.world.documents) : Consistent c' where
  rows r hr := (hc.rows r (Keyed.Table.mem_erase.1 (harticles ▸ hr)).1).mono hlater.subset
  documents d hd := (hc.documents d (hdocuments ▸ hd)).mono hlater.subset
  document_of a ha := hdocuments ▸ hc.document_of a (hlater.created a ha)
  loaded i id p a h := (hc.loaded i id p a (hlater.loaded i id p a h)).mono hlater.subset

/-- An article is loaded as it is stored. -/
theorem Consistent.first (hc : Consistent c) {i : ℕ} {t : server.Thread} {id : String} {p : Bool}
    {a : Article} (hview : c.world.view (.first id p) = .ok a) (rest : Prog Reply) :
    Consistent (c.step i t (answered (.first id p) a) rest c.world) := by
  have hsub : c.history ⊆ (c.step i t (answered (.first id p) a) rest c.world).history :=
    List.subset_append_left _ _
  refine ⟨fun r hr => (hc.rows r hr).mono hsub, fun d hd => (hc.documents d hd).mono hsub,
    fun a' ⟨j, hj⟩ => hc.document_of a' ⟨j, ?_⟩, fun j id' p' a' ha => ?_⟩
  · rcases Config.mem_history_step.1 hj with hj | hj
    · exact hj
    · cases hj
  · rcases Config.mem_history_step.1 ha with ha | ha
    · exact (hc.loaded j id' p' a' ha).mono hsub
    · cases ha
      exact (hc.loadedOf_view hview).mono hsub

/-- What is stored in a run. -/
theorem consistent (h : Run ok c) : Consistent c := by
  -- Only creations, commits and deletions write; a load is kept with what it has found.
  refine h.induction Consistent ⟨?_, ?_, ?_, ?_⟩ ?_ ?_ ?_
  · exact fun r hr => absurd hr Keyed.Table.not_mem_empty
  · exact fun d hd => absurd hd Keyed.Table.not_mem_empty
  · exact fun a ⟨i, hi⟩ => absurd hi List.not_mem_nil
  · exact fun i id p a ha => absurd ha List.not_mem_nil
  · intro c r _ hc _
    exact hc.of_unchanged (.of_concat (x := .arrived c.threads.length r) nofun rfl) rfl rfl
  · intro c i ch t o k ans w' hrun hc _ ht hk he
    rcases World.exec_cases he with ⟨e, rfl, rfl⟩ | ⟨v, rfl, heff⟩
    · exact hc.of_unchanged (.step (fun _ _ _ h => by cases h) fun _ h => by cases h) rfl rfl
    cases o with
    | create a =>
      obtain ⟨-, rfl⟩ := heff
      refine hc.create hrun ht hk (List.subset_append_left _ _) (fun j id p a' ha' => ?_)
        (fun a' => ⟨fun ⟨j, hj⟩ => ?_, fun ha' => ?_⟩) rfl rfl
      · rcases Config.mem_history_step.1 ha' with ha' | ha'
        · exact ha'
        · cases ha'
      · rcases Config.mem_history_step.1 hj with hj | hj
        · exact .inl ⟨j, hj⟩
        · cases hj; exact .inr rfl
      · rcases ha' with ha' | rfl
        · exact ha'.mono (List.subset_append_left _ _)
        · exact ⟨i, Config.mem_history_step.2 (.inr rfl)⟩
    | commit a =>
      obtain ⟨b, rfl⟩ := heff
      exact hc.commit hrun ht hk (.step (fun _ _ _ h => by cases h) fun _ h => by cases h) rfl
    | delete id =>
      cases heff
      exact hc.delete (.step (fun _ _ _ h => by cases h) fun _ h => by cases h) rfl rfl
    | first id p =>
      obtain ⟨rfl, hview⟩ := heff
      exact hc.first hview _
    | _ =>
      exact hc.of_unchanged (.step (fun _ _ _ h => by cases h) fun _ h => by cases h)
        (heff.changes.articles rfl) (heff.changes.documents rfl)
  · intro c x w' _ hc _ hx
    exact hc.of_unchanged (.of_concat (x := .acted x) nofun rfl) (World.articles_of_act hx)
      (World.documents_of_act hx)

end Knowtfolio
