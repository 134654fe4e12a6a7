import Knowtfolio.Server.World

/-!
# What a step does

A call that is answered by an error has changed nothing; one that is answered by
a value has had its effect (`World.Effect`, `World.exec_cases`). From this, for
every part of the world, the calls that change it (`World.Changes`), and how
(`World.mem_articles` and its like). An action changes nothing but the contract and
the mints that wait (`World.act_eq`). The invariants of the server are proved from
these lemmas.
-/

namespace Knowtfolio

open Interaction

namespace World

section

variable [MySQL] {w w' : World} {o : Op} {ch : Choice} {r : Except Err o.Val}

/-- `w'` is the world after the call, answered by a value, on `w`. -/
def Effect (w : World) : (o : Op) → o.Val → World → Prop
  | .generateNonce, n, w' => n ∉ w.nonces ∧ w' = { w with nonces := n :: w.nonces }
  | .generateString _, s, w' =>
    s ∉ w.ids ∧ IsArticleID s ∧ w' = { w with ids := s :: w.ids }
  | .putItem item, old, w' =>
    old = (w.items.get item.primaryKey).map (·.value) ∧ w' = { w with items := w.items.put item }
  | .transactWriteItems items, _, w' =>
    (∀ i ∈ items, i.reason w.items = .none) ∧
      w' = { w with items := items.foldl TransactWriteItem.apply w.items }
  | .mintNFT _ recipient articleId, _, w' =>
    w' = { w with mempool := w.mempool ++ [⟨recipient, articleId⟩] }
  | .create a, _, w' =>
    w.articles.get a.id = none ∧
      w' = { w with articles := w.articles.put a.row, documents := w.documents.put a.document }
  | .commit a, _, w' => ∃ b, w' = w.write a b
  | .delete id, _, w' => w' = { w with articles := w.articles.erase id }
  | .suggestGasPrice, _, w' | .marshal _, _, w' | .upload _ _, _, w' | .begin, _, w'
  | .save _, _, w' => w' = w
  | .getItem t k, v, w' => w' = w ∧ w.view (.getItem t k) = .ok v
  | .getOwnerOfArticle a, v, w' => w' = w ∧ w.view (.getOwnerOfArticle a) = .ok v
  | .getArticleIdsOwnedBy u, v, w' => w' = w ∧ w.view (.getArticleIdsOwnedBy u) = .ok v
  | .first id p, v, w' => w' = w ∧ w.view (.first id p) = .ok v
  | .preload id, v, w' => w' = w ∧ v = w.documentOf id
  | .find q offset limit _, v, w' =>
    w' = w ∧ ∃ l : List Article, l.Perm (w.matching q) ∧ v = page offset limit l
  | .count q, v, w' => w' = w ∧ w.view (.count q) = .ok v

/-- A call fails and changes nothing, or it is answered by a value. -/
theorem exec_cases (h : w.exec o ch = some (r, w')) :
    (∃ e, r = .error e ∧ w' = w) ∨ ∃ v, r = .ok v ∧ Effect w o v w' := by
  -- A choice goes with the calls that leave it open; the others cannot be answered so.
  cases ch with
  | fail message =>
    cases o <;> simp only [exec, Option.some.injEq, Prod.mk.injEq, reduceCtorEq] at h <;>
      exact .inl ⟨_, h.1.symm, h.2.symm⟩
  | ok =>
    cases o with
    | getItem | getOwnerOfArticle | getArticleIdsOwnedBy | first | count =>
      simp only [exec, Op.isRead, if_true, Option.some.injEq, Prod.mk.injEq] at h
      cases r with
      | error e => exact .inl ⟨e, rfl, h.2.symm⟩
      | ok v => exact .inr ⟨v, rfl, h.2.symm, h.1⟩
    | putItem item =>
      cases h; exact .inr ⟨_, rfl, rfl, rfl⟩
    | transactWriteItems items =>
      simp only [exec, transact] at h
      split_ifs at h with hall
      · cases h
        exact .inr ⟨(), rfl, by simpa using hall, rfl⟩
      · cases h
        exact .inl ⟨_, rfl, rfl⟩
    | create a =>
      simp only [exec, insert] at h
      cases hg : w.articles.get a.id with
      | some row =>
        simp only [hg] at h
        cases h
        exact .inl ⟨_, rfl, rfl⟩
      | none =>
        simp only [hg] at h
        cases h
        exact .inr ⟨(), rfl, hg, rfl⟩
    | preload id => cases h; exact .inr ⟨_, rfl, rfl, rfl⟩
    | upload | begin | save | delete => cases h; exact .inr ⟨(), rfl, rfl⟩
    | _ => simp [exec, Op.isRead] at h
  | nonce n =>
    cases o with
    | generateNonce =>
      simp only [exec] at h
      split_ifs at h with hn
      cases h
      exact .inr ⟨n, rfl, hn, rfl⟩
    | _ => simp [exec] at h
  | id s =>
    cases o with
    | generateString =>
      simp only [exec] at h
      split_ifs at h with hs
      cases h
      exact .inr ⟨s, rfl, hs.1, hs.2, rfl⟩
    | _ => simp [exec] at h
  | gasPrice n =>
    cases o with
    | suggestGasPrice => cases h; exact .inr ⟨n, rfl, rfl⟩
    | _ => simp [exec] at h
  | tx t =>
    cases o with
    | mintNFT => cases h; exact .inr ⟨t, rfl, rfl⟩
    | _ => simp [exec] at h
  | json s =>
    cases o with
    | marshal => cases h; exact .inr ⟨s, rfl, rfl⟩
    | _ => simp [exec] at h
  | rows l =>
    cases o with
    | find =>
      simp only [exec] at h
      split_ifs at h with hl
      cases h
      exact .inr ⟨_, rfl, rfl, l, hl, rfl⟩
    | _ => simp [exec] at h
  | recreate b =>
    cases o with
    | commit => cases h; exact .inr ⟨(), rfl, b, rfl⟩
    | _ => simp [exec] at h

/-- A nonce that was not drawn yet can be drawn. -/
theorem exec_generateNonce {n : Hash} (h : n ∉ w.nonces) :
    w.exec .generateNonce (.nonce n) = some (.ok n, { w with nonces := n :: w.nonces }) :=
  if_pos h

/-- A transaction whose conditions hold is not cancelled. -/
theorem exec_transactWriteItems {items : List TransactWriteItem}
    (h : ∀ i ∈ items, i.reason w.items = .none) :
    w.exec (.transactWriteItems items) .ok =
      some (.ok (), { w with items := items.foldl TransactWriteItem.apply w.items }) :=
  congrArg some (if_pos (by simpa using h))

/-- A commit that succeeds has chosen what becomes of a row that was deleted. -/
theorem choice_of_commit {a : Article} {v : Unit}
    (h : w.exec (.commit a) ch = some (.ok v, w')) : ∃ b, ch = .recreate b := by
  cases ch with
  | recreate b => exact ⟨b, rfl⟩
  | _ => cases h

end

end World

/-! ## Every part of the world -/

/-- The id that a call has generated. -/
def Op.drawnID : (o : Op) → o.Val → Option String
  | generateString _, s => some s
  | _, _ => none

/-- The nonce that a call has generated. -/
def Op.drawnNonce : (o : Op) → o.Val → Option Hash
  | generateNonce, n => some n
  | _, _ => none

/-- The mint that a call submits. -/
def Op.submitted : Op → List Mint
  | mintNFT _ recipient articleId => [⟨recipient, articleId⟩]
  | _ => []

/-- The calls that write items. -/
def Op.writesItems : Op → Bool
  | putItem _ | transactWriteItems _ => true
  | _ => false

/-- The calls that write articles. -/
def Op.writesArticles : Op → Bool
  | create _ | commit _ | delete _ => true
  | _ => false

/-- The calls that write documents. -/
def Op.writesDocuments : Op → Bool
  | create _ | commit _ => true
  | _ => false

namespace World

variable [MySQL] {w w' : World} {o : Op} {v : o.Val}

/-- What a call leaves as it was, and the values it has handed out. -/
structure Changes (w : World) (o : Op) (v : o.Val) (w' : World) : Prop where
  contract : w'.contract = w.contract
  mempool : w'.mempool = w.mempool ++ o.submitted
  ids : w'.ids = (o.drawnID v).toList ++ w.ids
  ids_fresh : ∀ s, o.drawnID v = some s → s ∉ w.ids
  nonces : w'.nonces = (o.drawnNonce v).toList ++ w.nonces
  nonces_fresh : ∀ n, o.drawnNonce v = some n → n ∉ w.nonces
  items : o.writesItems = false → w'.items = w.items
  articles : o.writesArticles = false → w'.articles = w.articles
  documents : o.writesDocuments = false → w'.documents = w.documents

/-- The effect of a call, but for what it only says of its answer. -/
theorem Effect.changes (h : Effect w o v w') : Changes w o v w' := by
  cases o with
  | generateNonce =>
    obtain ⟨hn, rfl⟩ := h
    refine ⟨rfl, (List.append_nil _).symm, rfl, nofun, rfl, ?_, fun _ => rfl, fun _ => rfl,
      fun _ => rfl⟩
    rintro n ⟨⟩
    exact hn
  | generateString =>
    obtain ⟨hs, _, rfl⟩ := h
    refine ⟨rfl, (List.append_nil _).symm, rfl, ?_, rfl, nofun, fun _ => rfl, fun _ => rfl,
      fun _ => rfl⟩
    rintro s ⟨⟩
    exact hs
  | putItem | transactWriteItems =>
    obtain ⟨_, rfl⟩ := h
    exact ⟨rfl, (List.append_nil _).symm, rfl, nofun, rfl, nofun, nofun, fun _ => rfl, fun _ => rfl⟩
  | create =>
    obtain ⟨_, rfl⟩ := h
    exact ⟨rfl, (List.append_nil _).symm, rfl, nofun, rfl, nofun, fun _ => rfl, nofun, nofun⟩
  | commit =>
    obtain ⟨_, rfl⟩ := h
    exact ⟨rfl, (List.append_nil _).symm, rfl, nofun, rfl, nofun, fun _ => rfl, nofun, nofun⟩
  | delete =>
    cases h
    exact ⟨rfl, (List.append_nil _).symm, rfl, nofun, rfl, nofun, fun _ => rfl, nofun, fun _ => rfl⟩
  | mintNFT =>
    cases h
    exact ⟨rfl, rfl, rfl, nofun, rfl, nofun, fun _ => rfl, fun _ => rfl, fun _ => rfl⟩
  | getItem | getOwnerOfArticle | getArticleIdsOwnedBy | first | preload | find | count =>
    obtain ⟨rfl, _⟩ := h
    exact ⟨rfl, (List.append_nil _).symm, rfl, nofun, rfl, nofun, fun _ => rfl, fun _ => rfl,
      fun _ => rfl⟩
  | suggestGasPrice | marshal | upload | begin | save =>
    cases h
    exact ⟨rfl, (List.append_nil _).symm, rfl, nofun, rfl, nofun, fun _ => rfl, fun _ => rfl,
      fun _ => rfl⟩

end World

/-- No call changes the contract. -/
theorem World.contract_of_exec [MySQL] {w w' : World} {o : Op} {ch : Choice}
    {r : Except Err o.Val} (h : w.exec o ch = some (r, w')) : w'.contract = w.contract := by
  rcases World.exec_cases h with ⟨e, rfl, rfl⟩ | ⟨v, rfl, heff⟩
  · rfl
  · exact heff.changes.contract

/-- What `First` answers is a row, with its document or without it. -/
theorem World.view_first [MySQL] {w : World} {id : String} {p : Bool} {a : Article}
    (h : w.view (.first id p) = .ok a) :
    ∃ r ∈ w.articles.rows, r.id = id ∧ a = r.article (if p then w.documentOf id else .zero) := by
  simp only [view] at h
  cases hr : w.articles.get id with
  | none => simp [hr] at h
  | some r =>
    simp only [hr] at h
    cases h
    obtain ⟨hmem, hid⟩ := Keyed.Table.get_eq_some.1 hr
    exact ⟨r, hmem, hid, rfl⟩

/-- The rows after a call: rows from before, of which a commit leaves none of its
    id, and the row that was written. -/
theorem World.mem_articles [MySQL] {w w' : World} {o : Op} {v : o.Val} (h : Effect w o v w')
    {r : ArticleRow} (hr : r ∈ w'.articles.rows) :
    (r ∈ w.articles.rows ∧ ∀ a, o = .commit a → r.id ≠ a.id) ∨
      (∃ a, o = .create a ∧ r = a.row) ∨ ∃ a, o = .commit a ∧ r = a.row := by
  by_cases hwrites : o.writesArticles = true
  · cases o with
    | create a =>
      obtain ⟨-, rfl⟩ := h
      rcases Keyed.Table.mem_put.1 hr with ⟨hr, -⟩ | rfl
      · exact .inl ⟨hr, fun _ ho => by cases ho⟩
      · exact .inr (.inl ⟨a, rfl, rfl⟩)
    | commit a =>
      obtain ⟨b, rfl⟩ := h
      simp only [write] at hr
      split_ifs at hr with hb
      · rcases Keyed.Table.mem_put.1 hr with ⟨hr, hne⟩ | rfl
        · exact .inl ⟨hr, by rintro _ ⟨⟩; exact hne⟩
        · exact .inr (.inr ⟨a, rfl, rfl⟩)
      · have hnone : w.articles.get a.id = none := by
          cases hg : w.articles.get a.id with
          | none => rfl
          | some r => simp [hg] at hb
        exact .inl ⟨hr, by rintro _ ⟨⟩; exact Keyed.Table.get_eq_none.1 hnone r hr⟩
    | delete id =>
      cases h
      exact .inl ⟨(Keyed.Table.mem_erase.1 hr).1, fun _ ho => by cases ho⟩
    | _ => cases hwrites
  · rw [h.changes.articles (by simpa using hwrites)] at hr
    exact .inl ⟨hr, by rintro _ rfl; exact absurd rfl hwrites⟩

/-- The items after a transaction of puts: it has put items of new keys. -/
theorem World.mem_items_of_transact [MySQL] {w w' : World} {items : List Item}
    (hitems : (items.map Item.primaryKey).Nodup)
    (h : Effect w (.transactWriteItems (items.map .put)) () w') :
    (∀ i ∈ items, w.items.get i.primaryKey = none) ∧
      ∀ i, i ∈ w'.items.rows ↔ i ∈ w.items.rows ∨ i ∈ items := by
  obtain ⟨hreason, rfl⟩ := h
  have hnone : ∀ i ∈ items, w.items.get i.primaryKey = none := fun i hi => by
    have := hreason _ (List.mem_map_of_mem hi)
    simp only [TransactWriteItem.reason] at this
    split at this
    · cases this
    · assumption
  refine ⟨hnone, fun i => ?_⟩
  rw [List.foldl_map]
  exact Keyed.Table.mem_foldl_put hitems hnone

/-- The item of a key, by its value. -/
theorem Item.value_eq_some {t : Keyed.Table Item.primaryKey} {type : KeyValueType}
    {key value : String} :
    (t.get (type, key)).map (·.value) = some value ↔ ⟨type, key, value⟩ ∈ t.rows := by
  rw [Option.map_eq_some_iff]
  constructor
  · rintro ⟨⟨type', key', value'⟩, hget, rfl⟩
    obtain ⟨hmem, hkey⟩ := Keyed.Table.get_eq_some.1 hget
    cases hkey
    exact hmem
  · intro hmem
    exact ⟨_, Keyed.Table.get_key_of_mem hmem, rfl⟩

/-- A value that is looked up is in the table. -/
theorem World.mem_items_of_view [MySQL] {w : World} {type : KeyValueType} {key value : String}
    (h : w.view (.getItem type key) = .ok (some (some value))) :
    ⟨type, key, value⟩ ∈ w.items.rows := by
  refine Item.value_eq_some.1 ?_
  simp only [World.view] at h
  cases hr : w.items.get (type, key) with
  | none =>
    rw [hr] at h
    cases h
  | some i =>
    rw [hr] at h
    cases h
    rfl

/-! ## Actions -/

/-- What an action does: a mint is mined or dropped, or the contract gets a
    message of another account. -/
theorem World.act_cases [Environment] {w w' : World} {x : Action} (h : w.act x = some w') :
    (∃ k inner accepts p, x = .mine k inner accepts ∧ w.mempool[k]? = some p ∧
      w' = { w with
        contract := (p.message inner accepts).apply w.contract
        mempool := w.mempool.eraseIdx k }) ∨
    (∃ k p, x = .drop k ∧ w.mempool[k]? = some p ∧
      w' = { w with mempool := w.mempool.eraseIdx k }) ∨
    ∃ m, x = .message m ∧ m.sender ≠ Environment.admin ∧
      w' = { w with contract := m.apply w.contract } := by
  cases x with
  | mine k inner accepts =>
    obtain ⟨p, hp, rfl⟩ := Option.map_eq_some_iff.1 h
    exact .inl ⟨k, inner, accepts, p, rfl, hp, rfl⟩
  | drop k =>
    obtain ⟨p, hp, rfl⟩ := Option.map_eq_some_iff.1 h
    exact .inr (.inl ⟨k, p, rfl, hp, rfl⟩)
  | message m =>
    simp only [act] at h
    split_ifs at h with hm
    cases h
    exact .inr (.inr ⟨m, rfl, hm, rfl⟩)

/-- An action changes nothing but the contract and the mints that wait. -/
theorem World.act_eq [Environment] {w w' : World} {x : Action} (h : w.act x = some w') :
    w' = { w with contract := w'.contract, mempool := w'.mempool } := by
  rcases World.act_cases h with ⟨_, _, _, _, _, _, rfl⟩ | ⟨_, _, _, _, rfl⟩ | ⟨_, _, _, rfl⟩ <;> rfl

section

variable [Environment] {w w' : World} {x : Action}

/-- An action leaves the address table as it is. -/
theorem World.items_of_act (h : w.act x = some w') : w'.items = w.items := by
  rw [World.act_eq h]

/-- An action leaves the rows of the articles as they are. -/
theorem World.articles_of_act (h : w.act x = some w') : w'.articles = w.articles := by
  rw [World.act_eq h]

/-- An action leaves the documents as they are. -/
theorem World.documents_of_act (h : w.act x = some w') : w'.documents = w.documents := by
  rw [World.act_eq h]

end

end Knowtfolio
