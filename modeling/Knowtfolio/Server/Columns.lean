import Knowtfolio.Server.EditRight
import Knowtfolio.Server.Updates
import Mathlib.Data.String.Basic

/-!
# The columns of an article

An article and its document are stored in columns of limited capacity. The title and the
content have columns of four gigabytes; the text that they are searched by, which is the
two together, has one of 64 kilobytes. MySQL, in its strict mode, refuses a statement of
which one value is too long for its column (`World.execStrict`). So an article is created,
and is read as it was created or updated last, exactly if its title and its content without
tags are short enough together (`roundTrip_iff`).

Whether an article can be created is decided by the columns of its row and its document
(`tooLong_newArticle`). From then on the updates are followed one by one (`Stores.update`): one
that is answered without an error has stored the fields that it was given.
-/

namespace Knowtfolio

open Interaction Machine

/-- The types of the columns of texts. -/
inductive ColumnType
  | varchar (n : ℕ)
  | text
  | longtext
  | longblob
  deriving DecidableEq

/-- The text can be stored in a column of the type. The length of a `VARCHAR` is counted in
    characters, and the one of the others in bytes. -/
def ColumnType.Holds : ColumnType → String → Prop
  | varchar n, s => s.length ≤ n
  | text, s => s.utf8ByteSize ≤ 65535
  | longtext, s | longblob, s => s.utf8ByteSize ≤ 4294967295

instance (t : ColumnType) (s : String) : Decidable (t.Holds s) := by
  cases t <;> exact inferInstanceAs (Decidable (_ ≤ _))

/-- A value for a column. -/
structure Column where
  name : String
  type : ColumnType
  value : String

/-- The texts of the row of an article. -/
def ArticleRow.columns (r : ArticleRow) : List Column :=
  [⟨"id", .varchar 191, r.id⟩, ⟨"original_author_id", .longtext, r.originalAuthorID⟩]

/-- The texts of the row of a document. -/
def Document.columns (d : Document) : List Column :=
  [⟨"id", .varchar 191, d.id⟩, ⟨"owner_id", .longtext, d.ownerID⟩, ⟨"title", .longtext, d.title⟩,
    ⟨"content", .longblob, d.content⟩, ⟨"raw_text", .text, d.rawText⟩]

/-- The texts that are stored with an article. A zero document is left out. -/
def Article.columns (a : Article) : List Column :=
  a.row.columns ++ if a.document = .zero then [] else a.document.columns

/-- The first column, if there is one, that the text for it is too long for. -/
def Article.tooLong (a : Article) : Option Column :=
  a.columns.find? fun col => ¬ col.type.Holds col.value

/-- The column that a statement is refused for. -/
def Op.tooLong : Op → Option Column
  | create a | save a => a.tooLong
  | _ => none

/-- The error of a statement that is refused. -/
def dataTooLong (col : Column) : Err :=
  .external ("Data too long for column '" ++ col.name ++ "' at row 1")

/-- A call that does not fail, on tables with columns of limited capacity. -/
def World.execStrict [Environment] (w : World) (o : Op) (ch : Choice) :
    Option (Except Err o.Val × World) :=
  match o.tooLong, ch with
  | some col, .ok => some (.error (dataTooLong col), w)
  | _, ch => w.execOk o ch

/-- What is given to `Create` is not too long for the columns of its article. -/
def FitsColumns [Bluemonday] (userID title content : String) : Prop :=
  userID.utf8ByteSize ≤ 4294967295 ∧ content.utf8ByteSize ≤ 4294967295 ∧
    title.utf8ByteSize + 1 + (Bluemonday.stripTags content).utf8ByteSize ≤ 65535

section

variable {id documentID userID title content : String}

/-- A character takes four bytes at most. -/
theorem utf8ByteSize_le (s : String) : s.utf8ByteSize ≤ 4 * s.length := by
  rw [← String.utf8Len_toList, ← String.length_toList]
  induction s.toList with
  | nil => exact Nat.le_refl 0
  | cons c cs ih =>
    have hsize := c.utf8Size_le_four
    rw [String.utf8Len_cons, List.length_cons]
    omega

/-- An article can be written if every column holds its value. -/
theorem Article.tooLong_eq_none {a : Article} :
    a.tooLong = none ↔ ∀ col ∈ a.columns, col.type.Holds col.value := by
  rw [Article.tooLong, List.find?_eq_none]
  refine forall₂_congr fun col _ => ?_
  rw [decide_eq_true_eq, not_not]

variable [Bluemonday]

/-- Of an article about to be created, the ids are short enough. -/
theorem tooLong_newArticle (hid : IsArticleID id) (hdocumentID : IsArticleID documentID) :
    (newArticle id documentID title content userID).tooLong = none ↔
      FitsColumns userID title content := by
  have hlength := hid.1
  have hlength' := hdocumentID.1
  have hsize := utf8ByteSize_le id
  have hzero : (newArticle id documentID title content userID).document ≠ .zero :=
    (Document.coherent_reloadRawText _).ne_zero
  have hraw : (title ++ "\n" ++ Bluemonday.stripTags content).utf8ByteSize =
      title.utf8ByteSize + 1 + (Bluemonday.stripTags content).utf8ByteSize := by
    rw [String.utf8ByteSize_append, String.utf8ByteSize_append]
    rfl
  rw [Article.tooLong_eq_none, Article.columns, if_neg hzero]
  simp only [ArticleRow.columns, Document.columns, Article.row, newArticle, newDocument,
    Document.reloadRawText, List.cons_append, List.nil_append, List.forall_mem_cons,
    List.not_mem_nil, IsEmpty.forall_iff, implies_true, and_true, ColumnType.Holds, hraw, FitsColumns]
  omega

end

section

variable [Environment] {w w' : World}

/-- A call on tables of limited capacity is answered as one that may fail. -/
theorem exec_of_execStrict {w w' : World} {o : Op} {ch : Choice} {a : Except Err o.Val}
    (h : w.execStrict o ch = some (a, w')) : ∃ ch', w.exec o ch' = some (a, w') := by
  have hok : w.execOk o ch = some (a, w') → ∃ ch', w.exec o ch' = some (a, w') := by
    intro hok
    cases ch with
    | fail message => cases hok
    | _ => exact ⟨_, hok⟩
  cases o with
  | create article | save article =>
    cases ch with
    | ok =>
      simp only [World.execStrict, Op.tooLong] at h
      cases htooLong : article.tooLong with
      | none =>
        rw [htooLong] at h
        exact hok h
      | some col =>
        rw [htooLong] at h
        cases h
        -- The statement that is refused is one that fails with the error of the column.
        exact ⟨.fail _, rfl⟩
    | _ =>
      cases htooLong : article.tooLong <;>
        simp only [World.execStrict, Op.tooLong, htooLong] at h <;> exact hok h
  | _ => exact hok h

/-- An id that is new can be drawn. -/
theorem execStrict_generateString {n : ℕ} {id : String} (hnew : id ∉ w.ids)
    (hid : IsArticleID id) :
    w.execStrict (.generateString n) (.id id) = some (.ok id, { w with ids := id :: w.ids }) :=
  if_pos ⟨hnew, hid⟩

/-- What is not too long is created. -/
theorem execStrict_create {a : Article} (h : a.tooLong = none) :
    w.execStrict (.create a) .ok = some (w.insert a) := by
  simp only [World.execStrict, Op.tooLong, h]
  rfl

/-- What is too long for a column is refused. -/
theorem execStrict_create_of_tooLong {a : Article} {col : Column} (h : a.tooLong = some col) :
    w.execStrict (.create a) .ok = some (.error (dataTooLong col), w) := by
  simp only [World.execStrict, Op.tooLong, h]

/-- The ids that `Create` uses are new. -/
theorem runs_generateID_bind {α : Type} {f : String → Prog α} {r : Except Fault α}
    (h : Program.Runs World.execStrict w (generateID >>= f) r w') :
    ∃ id, id ∉ w.ids ∧ IsArticleID id ∧
      Program.Runs World.execStrict { w with ids := id :: w.ids } (f id) r w' := by
  rw [generateID, Program.ask_bind] at h
  obtain ⟨ch, a, w₁, he, h⟩ := Program.runs_ask.1 h
  cases ch with
  | id id =>
    have he : (if id ∉ w.ids ∧ IsArticleID id then
        some (Except.ok id, { w with ids := id :: w.ids }) else none) = some (a, w₁) := he
    split_ifs at he with hid
    cases he
    exact ⟨id, hid.1, hid.2, h⟩
  | _ => cases he

/-- The ids of what is stored have been generated. -/
theorem new_id {ok : server.Config → server.Move → Prop} {c : server.Config} (h : Run ok c)
    {id : String} (hnew : id ∉ c.world.ids) :
    c.world.articles.get id = none ∧ ∀ d ∈ c.world.documents.rows, d.ownerID ≠ id := by
  have hc := consistent h
  have hcreated : ∀ a, Created c a → a.id ≠ id := by
    rintro a ⟨i, hi⟩ rfl
    obtain ⟨t, l₁, l₂, ht, hl, -, _, _, _, _, _, _, rfl, hg, -⟩ := asks_of_asked h hi
    have hsub : l₁ ⊆ t.log := by
      rw [hl]
      exact List.subset_append_left _ _
    exact hnew ((h.nodup_drawn handsOut_ids).2 _
      (List.mem_filterMap.2 ⟨_, asked_of_generated h ht hsub hg, rfl⟩))
  constructor
  · refine Keyed.Table.get_eq_none.2 fun r hr => ?_
    obtain ⟨a, ha, haid, -⟩ := hc.rows r hr
    exact haid ▸ hcreated a ha
  · intro d hd
    obtain ⟨-, a, ha, haid, -⟩ := hc.documents d hd
    exact haid ▸ hcreated a ha

/-! ## The article of a user -/

/-- The article of the user is stored, with the title and the content. -/
structure Stores (w : World) (userID id documentID title content : String) : Prop where
  row : ⟨id, userID, false⟩ ∈ w.articles.rows
  document : newDocument documentID id title content ∈ w.documents.rows
  document_id : ∀ d ∈ w.documents.rows, d.ownerID = id → d.id = documentID

variable {userID id documentID title content : String}

/-- What was stored is the document as it was created. -/
theorem Stores.documentOf_eq (h : Stores w userID id documentID title content) :
    w.documentOf id = newDocument documentID id title content := by
  obtain ⟨hmem, howner⟩ := World.documentOf_mem ⟨_, h.document, rfl⟩
  exact w.documents.eq_of_key_eq hmem h.document (h.document_id _ hmem howner)

/-- An article whose id is new is stored. -/
theorem stores_insert (hget : w.articles.get id = none)
    (hnew : ∀ d ∈ w.documents.rows, d.ownerID ≠ id) :
    ∃ w', w.insert (newArticle id documentID title content userID) = (.ok (), w') ∧
      Stores w' userID id documentID title content := by
  refine ⟨{ w with
    articles := w.articles.put (newArticle id documentID title content userID).row
    documents := w.documents.put (newDocument documentID id title content) }, ?_, ?_, ?_, ?_⟩
  · have hget : w.articles.get (newArticle id documentID title content userID).id = none := hget
    simp only [World.insert, hget]
    rfl
  · exact Keyed.Table.mem_put.2 (.inr rfl)
  · exact Keyed.Table.mem_put.2 (.inr rfl)
  · intro d hd howner
    rcases Keyed.Table.mem_put.1 hd with ⟨hd, -⟩ | rfl
    · exact absurd howner (hnew d hd)
    · rfl

/-- `Read` reports what is stored. -/
theorem Stores.read (h : Stores w userID id documentID title content) :
    ∃ res, (read id).eval w.view = .ok res ∧ res.title = title ∧
      res.content = Bluemonday.ugc content ∧ res.ownerID = userID := by
  refine ⟨_, (eval_read h.row).2 ⟨_, World.owner_of_not_tokenized rfl, rfl⟩, ?_, ?_, rfl⟩
  · show (w.documentOf id).title = title
    rw [h.documentOf_eq]
    rfl
  · show Bluemonday.ugc (w.documentOf id).content = Bluemonday.ugc content
    rw [h.documentOf_eq]
    rfl

/-- What is committed is stored. -/
theorem Stores.write (h : Stores w userID id documentID title content) (title' content' : String)
    (b : Bool) :
    Stores (w.write (newArticle id documentID title' content' userID) b) userID id documentID
      title' content' := by
  -- The document that is saved is none that GORM would skip.
  have hzero : (newArticle id documentID title' content' userID).document ≠ .zero :=
    (Document.coherent_reloadRawText _).ne_zero
  have hdocuments : (w.write (newArticle id documentID title' content' userID) b).documents =
      w.documents.put (newDocument documentID id title' content') :=
    World.documents_write hzero b
  have harticles : (w.write (newArticle id documentID title' content' userID) b).articles =
      w.articles.put ⟨id, userID, false⟩ :=
    if_pos (.inl (Option.isSome_iff_exists.2 ⟨_, Keyed.Table.get_key_of_mem h.row⟩))
  refine ⟨?_, ?_, ?_⟩
  · rw [harticles]
    exact Keyed.Table.mem_put.2 (.inr rfl)
  · rw [hdocuments]
    exact Keyed.Table.mem_put.2 (.inr rfl)
  · intro d hd howner
    rw [hdocuments] at hd
    rcases Keyed.Table.mem_put.1 hd with ⟨hd, -⟩ | rfl
    · exact h.document_id d hd howner
    · rfl

/-- The author may edit an article that is not tokenized, without a look-up. -/
theorem authorizeEdit_author (d : Document) :
    authorizeEdit userID (ArticleRow.article ⟨id, userID, false⟩ d) false = pure () := by
  show (if decide (userID = userID) = true then pure () else _ : Prog Unit) = pure ()
  rw [if_pos (decide_eq_true rfl)]

/-- An edit of a document gives the document that would have been created with the fields. -/
theorem editArticle_newDocument (title' content' : Option String) :
    editArticle (ArticleRow.article ⟨id, userID, false⟩
        (newDocument documentID id title content)) title' content' =
      newArticle id documentID (title'.getD title) (content'.getD content) userID := by
  rw [editArticle, newArticle]
  congr 1
  exact Document.set_if_present _ title' content' (Document.coherent_reloadRawText _)

/-- In a run that succeeds, every call has been answered by a value. -/
theorem runs_call_bind_ok {α : Type} {o : Op} {f : o.Val → Prog α} {res : α}
    (h : Program.Runs World.exec w (call o >>= f) (.ok res) w') :
    ∃ v w₁, World.Effect w o v w₁ ∧ Program.Runs World.exec w₁ (f v) (.ok res) w' := by
  obtain ⟨ch, a, w₁, he, ⟨v, rfl, h⟩ | ⟨e, -, ⟨⟩, -⟩⟩ := runs_call_bind h
  rcases World.exec_cases he with ⟨e, ⟨⟩, -⟩ | ⟨v', hv, heff⟩
  cases hv
  exact ⟨v, w₁, heff, h⟩

/-- An update by the user that succeeds replaces the fields that it is given. -/
theorem Stores.update {id : ArticleID} (h : Stores w userID id documentID title content)
    {title' content' : Option String} {res : ArticleResult}
    (hrun : Program.Runs World.exec w (update userID id title' content') (.ok res) w') :
    Stores w' userID id documentID (title'.getD title) (content'.getD content) := by
  obtain ⟨target, htransaction⟩ : ∃ target, Program.Runs World.exec w
      (updateTransaction userID id title' content') (.ok target) w' := by
    rcases Program.runs_bind.1 hrun with ⟨target, w₁, hrun, hret⟩ | ⟨e, -, ⟨⟩⟩
    obtain ⟨-, rfl⟩ := Program.runs_ret.1 hret
    obtain ⟨r, hrun, hr⟩ := runs_of_mapErr hrun
    cases r with
    | ok target => exact ⟨target, hrun⟩
    | error e => cases hr
  obtain ⟨-, _, rfl, hfirst⟩ := runs_call_bind_ok htransaction
  obtain ⟨target, _, ⟨rfl, hview⟩, hauthorize⟩ := runs_call_bind_ok hfirst
  -- What the transaction reads first is what is stored.
  rw [World.view_first_of_mem h.row true, if_pos rfl, h.documentOf_eq] at hview
  cases hview
  rw [authorizeEdit_author] at hauthorize
  obtain ⟨-, _, rfl, hcommit⟩ := runs_call_bind_ok hauthorize
  obtain ⟨-, _, ⟨b, rfl⟩, hret⟩ := runs_call_bind_ok hcommit
  obtain ⟨-, rfl⟩ := Program.runs_ret.1 hret
  rw [editArticle_newDocument]
  exact h.write _ _ b

/-! ## Create, update and read -/

/-- The user updates the article, with one edit after the other, and every update
    succeeds. -/
inductive Updated (userID : String) (id : ArticleID) : List Edit → World → World → Prop
  | nil {w : World} : Updated userID id [] w w
  | cons {w w₁ w₂ : World} {e : Edit} {edits : List Edit} {res : ArticleResult} :
    Program.Runs World.execStrict w (update userID id e.title e.content) (.ok res) w₁ →
      Updated userID id edits w₁ w₂ → Updated userID id (e :: edits) w w₂

/-- The title after the edits. -/
def latestTitle (title : String) (edits : List Edit) : String :=
  edits.foldl (fun title e => e.title.getD title) title

/-- The content after the edits. -/
def latestContent (content : String) (edits : List Edit) : String :=
  edits.foldl (fun content e => e.content.getD content) content

/-- In every state, `Create` succeeds; and after any updates of the article by its user,
    `Read` reports the title and the content that were given last, and the user as the
    owner. -/
def RoundTrip (userID title content : String) : Prop :=
  ∀ c, Run Any c → ∀ r w,
    Program.Runs World.execStrict c.world (create userID title content) r w →
    ∃ res, r = .ok res ∧ ∃ id : ArticleID, res.id = id ∧
      ∀ edits w', Updated userID id edits w w' → ∃ res', (read id).eval w'.view = .ok res' ∧
        res'.title = latestTitle title edits ∧
        res'.content = Bluemonday.ugc (latestContent content edits) ∧ res'.ownerID = userID

/-- After any number of updates, the article is stored with the last title and the last content. -/
theorem Stores.updated {id : ArticleID} {edits : List Edit} (hupdated : Updated userID id edits w w')
    (h : Stores w userID id documentID title content) :
    Stores w' userID id documentID (latestTitle title edits) (latestContent content edits) := by
  induction hupdated generalizing title content with
  | nil => exact h
  | cons hrun _ ih => exact ih (h.update (hrun.mono exec_of_execStrict))

/-- A new article whose texts fit is stored. -/
theorem runs_create {ok : server.Config → server.Move → Prop} {c : server.Config} (h : Run ok c)
    (hfits : FitsColumns userID title content) {r : Except Fault ArticleResult}
    (hrun : Program.Runs World.execStrict c.world (create userID title content) r w') :
    ∃ (id : ArticleID) (documentID : String) (res : ArticleResult), r = .ok res ∧ res.id = id ∧
      Stores w' userID id documentID title content := by
  rw [create] at hrun
  obtain ⟨id, hnew, hid, hrun⟩ := runs_generateID_bind hrun
  obtain ⟨documentID, -, hdocumentID, hrun⟩ := runs_generateID_bind hrun
  obtain ⟨hget, howner⟩ := new_id h hnew
  obtain ⟨ch, a, w₁, he, hrest⟩ := runs_call_bind hrun
  have htooLong := (tooLong_newArticle hid hdocumentID).2 hfits
  -- Only the choice `ok` answers the statement.
  cases ch with
  | ok =>
    obtain ⟨w₂, hinsert, hstores⟩ := @stores_insert _
      { c.world with ids := documentID :: id :: c.world.ids } userID id documentID title content
      hget howner
    rw [execStrict_create htooLong, hinsert] at he
    cases he
    rcases hrest with ⟨v, -, hrest⟩ | ⟨e, ⟨⟩, -⟩
    obtain ⟨rfl, rfl⟩ := Program.runs_ret.1 hrest
    exact ⟨⟨id, hid⟩, documentID, _, rfl, rfl, hstores⟩
  | _ =>
    simp only [World.execStrict, Op.tooLong, htooLong] at he
    cases he

/-- A new article of which a text is too long is refused. -/
theorem fitsColumns_of_roundTrip (h : RoundTrip userID title content) :
    FitsColumns userID title content := by
  by_contra hfits
  have hid : IsArticleID "article_001" := by decide
  have hdocumentID : IsArticleID "document_01" := by decide
  have hnew : "document_01" ∉ ["article_001"] := by decide
  obtain ⟨col, hcol⟩ := Option.ne_none_iff_exists'.1
    (mt (tooLong_newArticle hid hdocumentID).1 hfits)
  obtain ⟨res, hres, -⟩ := h _ .refl _ _
    (.ask (execStrict_generateString List.not_mem_nil hid)
      (.ask (execStrict_generateString hnew hdocumentID)
        (.ask (execStrict_create_of_tooLong hcol) .throw)))
  cases hres

/-- A title and a content come back, exactly if they are not too long for the columns of an
    article: with a line break between them, the title and the content without tags have to
    fit one of 64 kilobytes. -/
theorem roundTrip_iff : RoundTrip userID title content ↔ FitsColumns userID title content := by
  refine ⟨fitsColumns_of_roundTrip, fun hfits c hc r w hrun => ?_⟩
  obtain ⟨id, documentID, res, rfl, hid, hstores⟩ := runs_create hc hfits hrun
  exact ⟨res, rfl, id, hid, fun edits w' hupdated => (hstores.updated hupdated).read⟩

end

/-! A text of 64 kilobytes, without tags. -/

section

attribute [local instance] Hardhat.environment

/-- The bytes of a text that repeats one character. -/
theorem utf8ByteSize_replicate (n : ℕ) (c : Char) :
    (String.ofList (List.replicate n c)).utf8ByteSize = n * c.utf8Size := by
  rw [String.utf8ByteSize_ofList]
  induction n with
  | zero => exact (Nat.zero_mul _).symm
  | succ n ih => rw [List.replicate_succ, String.utf8Len_cons, ih, Nat.succ_mul]

/-- A content of 65530 bytes fits its own column, but its raw text does not. -/
theorem not_roundTrip_long :
    ¬ RoundTrip "author" "title" (String.ofList (List.replicate 65530 'a')) := by
  -- The content stays a variable, so that its length is never computed.
  have hraw : ∀ content, RoundTrip "author" "title" content →
      "title".utf8ByteSize + 1 + content.utf8ByteSize ≤ 65535 :=
    fun content h => (fitsColumns_of_roundTrip h).2.2
  have htitle : "title".utf8ByteSize = 5 := by decide
  have ha : 'a'.utf8Size = 1 := by decide
  intro h
  have hlong := hraw _ h
  rw [utf8ByteSize_replicate, htitle, ha] at hlong
  omega

end

end Knowtfolio
