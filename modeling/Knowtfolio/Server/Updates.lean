import Knowtfolio.Server.Hardhat
import Knowtfolio.Server.Storage
import Mathlib.Data.List.Permutation

/-!
# Concurrent updates

An update replaces the fields that it is given (`Document.edit`), but commits all
of the document that it has loaded. What others have committed meanwhile to the
other fields is lost. If that never happens (`keepsFields`), the document that is
stored is the result of the updates, one after the other in the order of their
commits (`documentOf_updates`).

The document is what comes of the commits, at any moment (`documentOf_eq_applyUpdates`), each of
which changes it by the edit of its request (`documentOf_answered`). That a commit replaces the
fields that were not given by what is stored is what `keepsFields` asks of the moves; it is decided
on the state before the move.
-/

namespace Knowtfolio

open Interaction Machine

/-- The fields that an update is given. -/
structure Edit where
  title : Option String
  content : Option String
  deriving DecidableEq

/-- A document with the fields replaced that are given, and the raw text of the
    result. -/
def Document.edit [Bluemonday] (d : Document) (e : Edit) : Document :=
  reloadRawText { d with
    title := e.title.getD d.title
    content := e.content.getD d.content }

/-- A document with its text is not the zero one, whose text lacks the end of the title's line. -/
theorem Document.Coherent.ne_zero [Bluemonday] {d : Document} (h : d.Coherent) : d ≠ .zero := by
  rintro rfl
  have hlength := congrArg String.length h
  rw [String.length_append, String.length_append] at hlength
  have hnewline : "\n".length = 1 := by decide
  simp only [zero, String.length_empty] at hlength
  omega

section

variable [Bluemonday] (d : Document) (e : Edit)

/-- An edit leaves a coherent document. -/
theorem Document.coherent_edit : (d.edit e).Coherent := coherent_reloadRawText _

@[simp] theorem Document.ownerID_edit : (d.edit e).ownerID = d.ownerID := rfl

end

/-- A document that has the owner stays as it is. -/
theorem Document.with_ownerID {d : Document} {id : String} (h : d.ownerID = id) :
    { d with ownerID := id } = d := by
  rw [← h]

/-- The commit of an article without its document leaves the documents as they are. -/
theorem World.documents_write_of_zero {w : World} {a : Article} (h : a.document = .zero)
    (b : Bool) : (w.write a b).documents = w.documents := if_pos h

/-- The commit of an article with its document puts that in place of the one stored. -/
theorem World.documents_write {w : World} {a : Article} (h : a.document ≠ .zero) (b : Bool) :
    (w.write a b).documents = w.documents.put { a.document with ownerID := a.id } := if_neg h

section

variable [Environment] {ok : server.Config → server.Move → Prop} {c₀ c c' : server.Config}
  {id : String}

/-- The fields that a request gives the article `id`, if it is an update of it. -/
def Request.edit (id : String) : Request → Option Edit
  | .update _ id' title content => if id'.1 = id then some ⟨title, content⟩ else none
  | _ => none

/-- The commits. -/
def Op.isCommit : Op → Bool
  | commit _ => true
  | _ => false

omit [Environment] in
/-- Commits are of one kind. -/
theorem Op.sameKind_of_isCommit {o o' : Op} (h : o.isCommit = true) (h' : o'.isCommit = true) :
    o.sameKind o' = true := by
  cases o with
  | commit a => cases o' with
    | commit a' => rfl
    | _ => exact absurd h' Bool.false_ne_true
  | _ => exact absurd h Bool.false_ne_true

/-- The request that commits the article `id`, if it is what happens. -/
def committer (id : String) : server.Event → Option ℕ
  | .asked i ⟨.commit a, .ok _⟩ => if a.id = id then some i else none
  | _ => none

/-- The requests that committed the article `id`, in the order of the commits. -/
def commitOrder (id : String) (h : List server.Event) : List ℕ := h.filterMap (committer id)

/-- The fields that the request `i` gives the article `id`. -/
def editOf (c : server.Config) (id : String) (i : ℕ) : Option Edit :=
  (c.threads[i]?).bind (·.request.edit id)

/-- Whether a document still has the fields, other than those of the update, that
    its article was loaded with. -/
def hasLoadedFields (d : Document) (e : Edit) : calls.Entry → Bool
  | ⟨.first _ _, .ok target⟩ =>
    let target : Article := target
    (e.title.isSome || target.document.title = d.title) &&
      (e.content.isSome || target.document.content = d.content)
  | _ => true

/-- No update commits a field that it was not given, and that was changed since
    the update loaded it. -/
def keepsFields (c : server.Config) : server.Move → Bool
  | .step i (.recreate _) =>
    match c.asking i with
    | some (.update _ id title content, l, .commit _) =>
      l.all (hasLoadedFields (c.world.documentOf id) ⟨title, content⟩)
    | _ => true
  | _ => true

/-! ## The order of the commits -/

/-- Who has committed the article, if the event is a commit of it. -/
theorem committer_eq_some {x : server.Event} {i : ℕ} :
    committer id x = some i ↔ ∃ a, x = .asked i (answered (.commit a) ()) ∧ a.id = id := by
  constructor
  · intro h
    unfold committer at h
    split at h
    next j a v =>
      split_ifs at h with hid
      cases h
      exact ⟨a, rfl, hid⟩
    next => cases h
  · rintro ⟨a, rfl, hid⟩
    exact if_pos hid

/-- The requests that have committed the article. -/
theorem mem_commitOrder {i : ℕ} {h : List server.Event} :
    i ∈ commitOrder id h ↔ ∃ a, .asked i (answered (.commit a) ()) ∈ h ∧ a.id = id := by
  simp only [commitOrder, List.mem_filterMap, committer_eq_some]
  constructor
  · rintro ⟨_, hx, a, rfl, hid⟩
    exact ⟨a, hx, hid⟩
  · rintro ⟨a, ha, hid⟩
    exact ⟨_, ha, a, rfl, hid⟩

/-- The commits of a history are those of its parts. -/
theorem commitOrder_append (h h' : List server.Event) :
    commitOrder id (h ++ h') = commitOrder id h ++ commitOrder id h' :=
  List.filterMap_append

/-- An event commits for one request at most. -/
theorem commitOrder_singleton {x : server.Event} : commitOrder id [x] = (committer id x).toList := by
  cases hx : committer id x <;> simp [commitOrder, hx]

/-- A request commits once. -/
theorem nodup_commitOrder (h : Run ok c) : (commitOrder id c.history).Nodup := by
  refine (nodup_askers (fun _ _ => Op.sameKind_of_isCommit) h).sublist
    (Lists.filterMap_sublist (fun x i hx => ?_) _)
  obtain ⟨a, rfl, -⟩ := committer_eq_some.1 hx
  rfl

/-! ## The document of an article -/

/-- An article has one document. -/
theorem documentOf_eq (h : Run ok c) {d : Document} (hd : d ∈ c.world.documents.rows) :
    c.world.documentOf d.ownerID = d := by
  have hc := consistent h
  obtain ⟨hmem, howner⟩ := World.documentOf_mem ⟨d, hd, rfl⟩
  obtain ⟨-, a, ha, haid, had⟩ := hc.documents _ hmem
  obtain ⟨-, a', ha', haid', had'⟩ := hc.documents d hd
  have haa' : a = a' := ha.unique h ha' (.inl (by rw [haid, howner, haid']))
  exact Keyed.Table.eq_of_key_eq _ hmem hd (by rw [← had, ← had', haa'])

/-- The updates that committed the article `id` in the part `l` of the history,
    applied to the document `d`. -/
def applyUpdates (c : server.Config) (id : String) (l : List server.Event) (d : Document) :
    Document :=
  ((commitOrder id l).filterMap (editOf c id)).foldl Document.edit d

/-- The last event changes the document by the edit of its request, if it is a commit of one. -/
theorem applyUpdates_concat (l : List server.Event) (x : server.Event) (d : Document) :
    applyUpdates c id (l ++ [x]) d =
      (((committer id x).bind (editOf c id)).map (applyUpdates c id l d).edit).getD
        (applyUpdates c id l d) := by
  rw [applyUpdates, commitOrder_append, commitOrder_singleton, List.filterMap_append,
    List.foldl_append]
  cases committer id x with
  | none => rfl
  | some i => cases h : editOf c id i <;> simp [h, applyUpdates]

/-- The updates are the same when a request has gone on. -/
theorem editOf_step {i j : ℕ} {t : server.Thread} {e : calls.Entry} {q : Prog Reply} {w : World}
    (ht : c.threads[i]? = some t) : editOf (c.step i t e q w) id j = editOf c id j := by
  by_cases hji : j = i
  · subst hji
    rw [editOf, editOf, Config.getElem?_step_self ht, ht]
    rfl
  · rw [editOf, editOf, Config.getElem?_step_of_ne hji]

/-- A request that arrives has no part in the updates before. -/
theorem applyUpdates_arrive (h : Run ok c) {r : Request} {l : List server.Event}
    (hl : l ⊆ c.history) (d : Document) :
    applyUpdates (c.arrive r) id l d = applyUpdates c id l d := by
  rw [applyUpdates, applyUpdates, List.filterMap_congr]
  intro i hi
  obtain ⟨a, ha, -⟩ := mem_commitOrder.1 hi
  obtain ⟨t, ht, -⟩ := h.exists_thread (hl ha)
  rw [editOf, editOf, ht, Config.getElem?_arrive_of_some ht]

/-- A document that is still there is still the one of its article. -/
theorem documentOf_of_mem (hdoc : ∃ d ∈ c.world.documents.rows, d.ownerID = id)
    (h' : Run ok c') (hmem : c.world.documentOf id ∈ c'.world.documents.rows) :
    c'.world.documentOf id = c.world.documentOf id := by
  have howner := (World.documentOf_mem hdoc).2
  rw [← documentOf_eq h' hmem, howner]

/-- An update whose article is committed has changed the fields that it was given. -/
theorem editArticle_document (hrun : Run ok c) {i : ℕ} {t : server.Thread}
    (ht : c.threads[i]? = some t) {target : Article} {id : ArticleID}
    (hf : answered (.first id true) target ∈ t.log) {title content : Option String}
    (hloaded : t.log.all (hasLoadedFields (c.world.documentOf id) ⟨title, content⟩) = true) :
    (editArticle target title content).document =
      (c.world.documentOf id).edit ⟨title, content⟩ ∧
      (editArticle target title content).id = id := by
  have hc := consistent hrun
  have hl := hc.loaded i id true target ((hrun.mem_log ht).1 hf)
  obtain ⟨⟨hcoh, a, ha, haid, had⟩, howner⟩ := hl.document rfl
  obtain ⟨hmem, howner'⟩ : c.world.documentOf id ∈ c.world.documents.rows ∧
      (c.world.documentOf id).ownerID = id :=
    World.documentOf_mem (by
      obtain ⟨d, hd, hdid⟩ := hc.document_of a ha
      exact ⟨d, hd, by rw [hdid, haid, howner, hl.id_eq]⟩)
  obtain ⟨-, a', ha', haid', had'⟩ := hc.documents _ hmem
  have haa' : a = a' := ha.unique hrun ha' (.inl (by rw [haid, haid', howner, howner', hl.id_eq]))
  -- A field that is not in the request is written as it was loaded, which is as it is now.
  have hfields := List.all_eq_true.1 hloaded _ hf
  simp only [hasLoadedFields, Bool.and_eq_true, Bool.or_eq_true, decide_eq_true_eq] at hfields
  have htitle : title.getD target.document.title = title.getD (c.world.documentOf id).title := by
    cases title with
    | none => exact hfields.1.resolve_left nofun
    | some _ => rfl
  have hcontent : content.getD target.document.content =
      content.getD (c.world.documentOf id).content := by
    cases content with
    | none => exact hfields.2.resolve_left nofun
    | some _ => rfl
  refine ⟨?_, hl.id_eq⟩
  rw [editArticle, target.document.set_if_present title content hcoh, Document.edit, htitle,
    hcontent]
  simp only [Document.reloadRawText, Document.mk.injEq, and_true]
  exact ⟨by rw [← had, ← had', haa'], by rw [howner, howner', hl.id_eq]⟩

/-- What an update writes is then the document of the article. -/
theorem documentOf_write_editArticle (hrun : Run ok c) {i : ℕ} {t : server.Thread}
    (ht : c.threads[i]? = some t) {target : Article} {id : ArticleID}
    (hf : answered (.first id true) target ∈ t.log)
    (howner : (c.world.documentOf id).ownerID = id) {title content : Option String}
    (hloaded : t.log.all (hasLoadedFields (c.world.documentOf id) ⟨title, content⟩) = true)
    (h' : Run ok c') {r : Bool} (hw : c'.world = c.world.write (editArticle target title content) r) :
    c'.world.documentOf id = (c.world.documentOf id).edit ⟨title, content⟩ := by
  obtain ⟨hedit, hid⟩ := editArticle_document hrun ht hf hloaded
  have hmem : (c.world.documentOf id).edit ⟨title, content⟩ ∈ c'.world.documents.rows := by
    rw [hw, World.documents_write (hedit ▸ (Document.coherent_edit _ _).ne_zero), hedit, hid]
    exact Keyed.Table.mem_put.2 (.inr (Document.with_ownerID
      (d := (c.world.documentOf id).edit _) howner).symm)
  have hdocumentOf := documentOf_eq h' hmem
  rwa [Document.ownerID_edit, howner] at hdocumentOf

/-- The commit of another article writes no document, or another one. -/
theorem documentOf_write_of_ne (hrun : Run ok c)
    (hdoc : ∃ d ∈ c.world.documents.rows, d.ownerID = id) {i : ℕ} {t : server.Thread}
    (ht : c.threads[i]? = some t) {b : Article} {k : calls.Ans (.commit b) → Prog Reply}
    (hk : t.rest = .ask (.commit b) k) (h' : Run ok c') {r : Bool}
    (hw : c'.world = c.world.write b r) (hb : b.id ≠ id) :
    c'.world.documentOf id = c.world.documentOf id := by
  have hc := consistent hrun
  obtain ⟨hmem, howner⟩ := World.documentOf_mem hdoc
  refine documentOf_of_mem hdoc h' ?_
  rw [hw]
  by_cases hzero : b.document = .zero
  · rwa [World.documents_write_of_zero hzero]
  · obtain ⟨⟨-, a, ha, haid, had⟩, howner'⟩ :=
      (committed_of_rest hrun hc ht hk).2.resolve_left hzero
    rw [World.documents_write hzero]
    refine Keyed.Table.mem_put.2 (.inl ⟨hmem, fun heq => hb ?_⟩)
    obtain ⟨-, a', ha', haid', had'⟩ := hc.documents _ hmem
    have haa : a = a' := ha.unique hrun ha' (.inr (by rw [had, had', heq]))
    rw [← howner', ← haid, haa, haid', howner]

/-- What a call does to the document of an article: the fields are changed that an
    update commits. -/
theorem documentOf_answered (hrun : Run ok c) (hid : ∃ a, Created c a ∧ a.id = id) {i : ℕ}
    {t : server.Thread} (ht : c.threads[i]? = some t) {o : Op} {k : calls.Ans o → Prog Reply}
    (hk : t.rest = .ask o k) {ch : Choice} {v : o.Val} {w' : World}
    (he : c.world.exec o ch = some (.ok v, w')) (hok : ok c (.step i ch))
    (hfields : keepsFields c (.step i ch) = true) :
    w'.documentOf id = (((committer id (.asked i (answered o v))).bind (editOf c id)).map
      (c.world.documentOf id).edit).getD (c.world.documentOf id) := by
  obtain ⟨a, ha, haid⟩ := hid
  have hc := consistent hrun
  have hrun' := hrun.step hok ht hk he
  have hdoc : ∃ d ∈ c.world.documents.rows, d.ownerID = id := haid ▸ hc.document_of a ha
  obtain ⟨hmem, howner⟩ := World.documentOf_mem hdoc
  have heff : World.Effect c.world o v w' := by
    rcases World.exec_cases he with ⟨e, h, -⟩ | ⟨v', h, heff⟩
    · cases h
    · cases h
      exact heff
  cases o with
  | create b =>
    -- The new document has another id than the one of the article.
    obtain ⟨-, rfl⟩ := heff
    obtain ⟨-, a', ha', -, had'⟩ := hc.documents _ hmem
    have hne := (not_created_of_rest hrun ht hk ha').2
    exact documentOf_of_mem hdoc hrun' (Keyed.Table.mem_put.2 (.inl ⟨hmem, by rwa [← had']⟩))
  | commit b =>
    obtain ⟨r, rfl⟩ := heff
    by_cases hb : b.id = id
    · have hcommitter : committer id (.asked i (answered (.commit b) v)) = some i := if_pos hb
      rw [hcommitter, Option.bind_some, editOf, ht, Option.bind_some]
      rcases (asks_of_rest hrun ht hk).2 with ⟨_, id', title, content, target, hreq, hf, rfl⟩ |
        ⟨id', _, _, target, _, _, hreq, hf, rfl, -⟩
      · obtain ⟨r', rfl⟩ := World.choice_of_commit he
        simp only [keepsFields, Config.asking_of_rest ht hk, hreq] at hfields
        obtain rfl : id'.1 = id := (editArticle_document hrun ht hf hfields).2.symm.trans hb
        rw [hreq]
        simp only [Request.edit, if_true, Option.map_some, Option.getD_some]
        exact documentOf_write_editArticle hrun ht hf howner hfields hrun' rfl
      · -- The commit of `CreateForArticle` leaves the document out.
        have hzero : target.setIsTokenized.document = .zero :=
          (hc.loaded i _ _ _ ((hrun.mem_log ht).1 hf)).zero rfl
        rw [hreq]
        show (c.world.write target.setIsTokenized r).documentOf id = c.world.documentOf id
        rw [World.documentOf, World.documents_write_of_zero hzero, World.documentOf]
    · have hcommitter : committer id (.asked i (answered (.commit b) v)) = none := if_neg hb
      rw [hcommitter]
      exact documentOf_write_of_ne hrun hdoc ht hk hrun' rfl hb
  | _ =>
    have hdocuments := heff.changes.documents rfl
    show w'.documentOf id = c.world.documentOf id
    rw [World.documentOf, World.documentOf, hdocuments]

/-- What is stored of an article is what was stored before, and the updates of the
    run, in the order of their commits. -/
theorem documentOf_eq_applyUpdates (h₀ : Run Any c₀) (hid : ∃ a, Created c₀ a ∧ a.id = id)
    (h : Reaches (keepsFields · ·) c₀ c) : ∃ l, c.history = c₀.history ++ l ∧
      c.world.documentOf id = applyUpdates c id l (c₀.world.documentOf id) := by
  -- Every event of the run adds its update, if it commits one, to what is stored.
  refine h.induction (fun c : server.Config => ∃ l, c.history = c₀.history ++ l ∧
    c.world.documentOf id = applyUpdates c id l (c₀.world.documentOf id))
    ⟨[], by simp, rfl⟩ ?_ ?_ ?_
  · rintro c r hr ⟨l, hl, hc⟩ _
    refine ⟨l ++ [.arrived c.threads.length r], by rw [Config.arrive, hl, List.append_assoc], ?_⟩
    rw [applyUpdates_concat, applyUpdates_arrive (h₀.trans hr.any) (by simp [hl])]
    exact hc
  · rintro c i ch t o k ans w' hr ⟨l, hl, hc⟩ hok ht hk he
    refine ⟨l ++ [.asked i ⟨o, ans⟩], by rw [Config.step, hl, List.append_assoc], ?_⟩
    have hsame : ∀ l', applyUpdates (c.step i t ⟨o, ans⟩ (k ans) w') id l' =
        applyUpdates c id l' := fun l' => by
      unfold applyUpdates
      simp only [editOf_step ht]
    rw [applyUpdates_concat, hsame]
    simp only [editOf_step ht]
    rcases World.exec_cases he with ⟨e, rfl, rfl⟩ | ⟨v, rfl, -⟩
    · have hnone : committer id (.asked i ⟨o, .error e⟩) = none := by cases o <;> rfl
      rw [hnone]
      exact hc
    · obtain ⟨a, ha, haid⟩ := hid
      have hcreated : Created c a := ha.mono (by rw [hl]; exact List.subset_append_left _ _)
      rw [← hc]
      exact documentOf_answered (h₀.trans hr.any) ⟨a, hcreated, haid⟩ ht hk he trivial hok
  · rintro c x w' hr ⟨l, hl, hc⟩ _ hx
    refine ⟨l ++ [.acted x], by rw [Config.act, hl, List.append_assoc], ?_⟩
    rw [applyUpdates_concat]
    have hdocuments : w'.documents = c.world.documents := World.documents_of_act hx
    calc w'.documentOf id = c.world.documentOf id := by
          rw [World.documentOf, World.documentOf, hdocuments]
      _ = applyUpdates c id l (c₀.world.documentOf id) := hc

/-! ## All updates of a run -/

/-- An update that succeeds has committed its article. -/
theorem committed_of_success (h : Run ok c) {i : ℕ} {t : server.Thread}
    (ht : c.threads[i]? = some t) (hedit : (t.request.edit id).isSome = true) {reply : Reply}
    (hrest : t.rest = .ret reply) :
    ∃ a, .asked i (answered (.commit a) ()) ∈ c.history ∧ a.id = id := by
  have hends := h.rest_wp serve_asks ht
  rw [hrest] at hends
  have hends := Program.wp_ret.1 hends
  -- The handler has asked for the commit by its end, and the log is part of the history.
  cases hreq : t.request with
  | update userID id' title content =>
    rw [hreq] at hends hedit
    obtain ⟨a, ha⟩ := hends reply rfl
    have ha := (h.mem_log ht).1 ha
    refine ⟨a, ha, ?_⟩
    obtain ⟨u, l₁, l₂, hu, hl, -, hperm⟩ := asks_of_asked h ha
    cases ht.symm.trans hu
    have hid : id'.1 = id := by
      by_contra hne
      simp [Request.edit, hne] at hedit
    rcases hperm with ⟨_, _, _, _, target, hreq', hf, rfl⟩ | ⟨_, _, _, _, _, _, hreq', -⟩
    · cases hreq.symm.trans hreq'
      have hf := (h.mem_log ht).1 (hl ▸ List.mem_append_left _ hf)
      exact ((consistent h).loaded i _ _ _ hf).id_eq.trans hid
    · cases hreq.symm.trans hreq'
  | _ =>
    rw [hreq] at hedit
    cases hedit

/-- The updates of the article that arrive between `c₀` and `c` all succeed, and none
    was in progress in `c₀`. -/
def Succeed (c₀ c : server.Config) (id : String) : Prop :=
  (∀ t ∈ c₀.threads, (t.request.edit id).isSome = true → t.rest.Done) ∧
    ∀ t ∈ c.threads.drop c₀.threads.length, (t.request.edit id).isSome = true →
      ∃ reply, t.rest = .ret reply

/-- Whether a request has ended successfully. -/
def isRet (p : Prog Reply) : Bool :=
  match p with
  | .ret _ => true
  | _ => false

omit [Environment] in
/-- That a program has returned can be evaluated. -/
theorem isRet_iff {p : Prog Reply} : isRet p = true ↔ ∃ reply, p = .ret reply := by
  cases p <;> simp [isRet]

instance (c₀ c : server.Config) (id : String) : Decidable (Succeed c₀ c id) :=
  decidable_of_iff ((∀ t ∈ c₀.threads, (t.request.edit id).isSome = true → t.rest.Done) ∧
    ∀ t ∈ c.threads.drop c₀.threads.length, (t.request.edit id).isSome = true →
      isRet t.rest = true) (by simp only [isRet_iff]; rfl)

/-- A run in which all updates of an article succeed, and none was in progress at its
    beginning: the document in the end is the one at the beginning after all of
    them, one after the other, as long as no update commits a field that was
    changed since it loaded it. -/
theorem documentOf_updates (h₀ : Run Any c₀) (h : Reaches (keepsFields · ·) c₀ c) {r : ArticleRow}
    (hr : r ∈ c₀.world.articles.rows) (hsucceed : Succeed c₀ c r.id) :
    ∃ order : List Edit,
      order.Perm ((c.threads.drop c₀.threads.length).filterMap (·.request.edit r.id)) ∧
      c.world.documentOf r.id = order.foldl Document.edit (c₀.world.documentOf r.id) := by
  have hrun : Run Any c := h₀.trans h.any
  obtain ⟨a, ha, haid, -⟩ := (consistent h₀).rows r hr
  obtain ⟨l, hl, hdoc⟩ := documentOf_eq_applyUpdates h₀ ⟨a, ha, haid⟩ h
  refine ⟨(commitOrder r.id l).filterMap (editOf c r.id), ?_, hdoc⟩
  rw [Lists.filterMap_drop]
  have hnodup : (commitOrder r.id l).Nodup := by
    have : (commitOrder r.id c.history).Nodup := nodup_commitOrder hrun
    rw [hl, commitOrder_append] at this
    exact (List.nodup_append.1 this).2.1
  refine Lists.filterMap_perm hnodup List.nodup_range' fun i hi => ?_
  have hedit : ∀ t, c.threads[i]? = some t → (t.request.edit r.id).isSome = true := fun t ht => by
    rwa [editOf, ht, Option.bind_some] at hi
  rw [mem_commitOrder, List.mem_range'_1]
  constructor
  · rintro ⟨b, hb, -⟩
    obtain ⟨t, ht, hlog⟩ :=
      hrun.exists_thread (i := i) (by rw [hl]; exact List.mem_append_right _ hb)
    have hlt : i < c.threads.length := (List.getElem?_eq_some_iff.1 ht).1
    refine ⟨?_, by omega⟩
    by_contra hlt₀
    -- The request had ended before the run, and has not committed since.
    obtain ⟨t₀, ht₀⟩ : ∃ t₀, c₀.threads[i]? = some t₀ := ⟨_, List.getElem?_eq_getElem (by omega)⟩
    obtain ⟨t', ht', hreq, hdone⟩ := h.thread_mono ht₀
    cases ht.symm.trans ht'
    obtain rfl := hdone (hsucceed.1 t₀ (List.mem_of_getElem? ht₀) (hreq ▸ hedit t ht))
    have hlog₀ := hrun.log_eq.1 i _ ht
    rw [hl, Reaches.logOf_append, ← h₀.log_eq.1 i _ ht₀, List.self_eq_append_right] at hlog₀
    exact absurd (Reaches.mem_logOf.2 hb) (by rw [hlog₀]; exact List.not_mem_nil)
  · rintro ⟨hge, hlt⟩
    have hlt : i < c.threads.length := by omega
    have ht : c.threads[i]? = some c.threads[i] := List.getElem?_eq_getElem hlt
    have hmem : c.threads[i] ∈ c.threads.drop c₀.threads.length := by
      refine List.mem_of_getElem? (i := i - c₀.threads.length) ?_
      rw [List.getElem?_drop, Nat.add_sub_cancel' hge, ht]
    obtain ⟨reply, hret⟩ := hsucceed.2 _ hmem (hedit _ ht)
    obtain ⟨b, hb, hbid⟩ := committed_of_success hrun ht (hedit _ ht) hret
    refine ⟨b, ?_, hbid⟩
    -- A request that has arrived since has committed since.
    rw [hl, List.mem_append] at hb
    refine hb.resolve_left fun hb => ?_
    have := Reaches.mem_logOf.2 hb
    rw [h₀.log_eq.2 i hge] at this
    cases this

end

/-! Two updates that have both loaded the article before one of them commits it: of
one field, and of different fields. -/

section

attribute [local instance] Hardhat.environment

open Hardhat

/-- Two updates by the author, the calls of which take turns. -/
def interleaved (e e' : Edit) : List server.Move :=
  .arrive (.update "author" articleID e.title e.content) ::
    .arrive (.update "author" articleID e'.title e'.content) ::
    ([.ok, .ok, .ok, .recreate false] : List Choice).flatMap fun ch => [.step 1 ch, .step 2 ch]

/-- Two updates of the same field take turns, and the one that commits last stays. -/
theorem documentOf_interleaved : ∃ c₀ c, Run Any c₀ ∧ Reaches (keepsFields · ·) c₀ c ∧
    ∃ order : List Edit, order.Perm [⟨some "title 2", none⟩, ⟨some "title 3", none⟩] ∧
      c.world.documentOf articleID = order.foldl Document.edit (c₀.world.documentOf articleID) := by
  obtain ⟨c₀, h₀, hp⟩ := exists_reaches_of_run (fun _ _ => true) (createArticle 0)
    (.initial World.initial)
    (fun c₀ => (∃ r ∈ c₀.world.articles.rows, r.id = articleID) ∧
      (c₀.run keepsFields (interleaved ⟨some "title 2", none⟩ ⟨some "title 3", none⟩)).any fun c =>
        Succeed c₀ c articleID ∧ (c.threads.drop c₀.threads.length).filterMap
          (·.request.edit articleID) = [⟨some "title 2", none⟩, ⟨some "title 3", none⟩])
    (by decide +kernel)
  obtain ⟨⟨r, hr, hid⟩, hrun⟩ := of_decide_eq_true hp
  obtain ⟨c, h, hp⟩ := exists_reaches_of_run keepsFields _ c₀ _ hrun
  obtain ⟨hsucceed, hedits⟩ := of_decide_eq_true hp
  have := documentOf_updates h₀.any h hr (hid ▸ hsucceed)
  rw [hid, hedits] at this
  exact ⟨c₀, c, h₀.any, h, this⟩

/-- Two updates of different fields take turns, and the one that commits first is lost. -/
theorem documentOf_lostUpdate : ∃ c₀ c, Run Any c₀ ∧ Reaches Any c₀ c ∧
    ∃ r ∈ c₀.world.articles.rows, Succeed c₀ c r.id ∧
      ¬ ∃ order : List Edit,
        order.Perm ((c.threads.drop c₀.threads.length).filterMap (·.request.edit r.id)) ∧
        c.world.documentOf r.id = order.foldl Document.edit (c₀.world.documentOf r.id) := by
  obtain ⟨c₀, h₀, hp⟩ := exists_reaches_of_run (fun _ _ => true) (createArticle 0)
    (.initial World.initial)
    (fun c₀ => (c₀.run (fun _ _ => true)
      (interleaved ⟨some "title 2", none⟩ ⟨none, some "content 2"⟩)).any fun c =>
        decide (∃ r ∈ c₀.world.articles.rows, Succeed c₀ c r.id ∧
          ∀ order ∈ ((c.threads.drop c₀.threads.length).filterMap
            fun t : server.Thread => t.request.edit r.id).permutations',
            c.world.documentOf r.id ≠ order.foldl Document.edit (c₀.world.documentOf r.id)))
    (by decide +kernel)
  obtain ⟨c, h, hp⟩ := exists_reaches_of_run _ _ c₀ _ hp
  obtain ⟨r, hr, hsucceed, hne⟩ := of_decide_eq_true hp
  exact ⟨c₀, c, h₀.any, h.any, r, hr, hsucceed,
    fun ⟨order, hperm, heq⟩ => hne order (List.mem_permutations'.2 hperm) heq⟩

end

end Knowtfolio
