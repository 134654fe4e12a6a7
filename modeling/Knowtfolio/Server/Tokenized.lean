import Knowtfolio.Server.Hardhat
import Knowtfolio.Server.Storage

/-!
# Tokenization is not undone

An update writes back the whole article that it has loaded. If the article was
tokenized meanwhile, the update undoes that. It does so in no other way: as long
as no update commits an article that it has loaded before it was tokenized
(`keepsTokenized`), an article that was committed as tokenized stays so, in all
that is stored of it later (`tokenized_of_committed`).

What is remembered of a request that has loaded an article as not tokenized is whether the article
was tokenized since (`tokenizedSince`), which is decided by the history alone. The invariant says
that a request to which this has not happened holds the article as it is (`KeptTokenized`).
-/

namespace Knowtfolio

open Interaction Machine

section

variable [Environment] {ok : server.Config → server.Move → Prop} {c c' : server.Config}

/-- What an event does to whether the article `id` was committed as tokenized
    since the request `i` loaded its article. -/
def overlap (i : ℕ) (id : String) (b : Bool) : server.Event → Bool
  | .asked j ⟨.first _ _, .ok _⟩ => b && i ≠ j
  | .asked _ ⟨.commit a, .ok _⟩ => b || (a.isTokenized && a.id = id)
  | _ => b

/-- Whether the article `id` was committed as tokenized since the request `i`
    loaded its article. -/
def tokenizedSince (i : ℕ) (id : String) (h : List server.Event) : Bool :=
  h.foldl (overlap i id) false

/-- Whether the article was tokenized since it was loaded is decided by the events one after the
    other. -/
@[simp] theorem tokenizedSince_append (i : ℕ) (id : String) (h : List server.Event)
    (x : server.Event) :
    tokenizedSince i id (h ++ [x]) = overlap i id (tokenizedSince i id h) x := by
  simp [tokenizedSince]

/-- The article `id` was committed as tokenized. -/
def CommittedTokenized (c : server.Config) (id : String) : Prop :=
  ∃ i a, .asked i (answered (.commit a) ()) ∈ c.history ∧ a.isTokenized = true ∧ a.id = id

/-- No request commits an article that is not tokenized if it was committed as
    tokenized since the request loaded it. -/
def keepsTokenized (c : server.Config) : server.Move → Bool
  | .step i (.recreate _) =>
    match c.asking i with
    | some (_, _, .commit a) => a.isTokenized || !tokenizedSince i a.id c.history
    | _ => true
  | _ => true

/-- What a request may commit is an article that it has loaded, which was not
    tokenized if the commit is not. -/
theorem loaded_of_permitted (h : Run ok c) {i : ℕ} {t : server.Thread}
    (ht : c.threads[i]? = some t) {l : Log} (hl : l ⊆ t.log) {a : Article}
    (hperm : Permitted t.request l (.commit a)) :
    ∃ id p target, .asked i (answered (.first id p) target) ∈ c.history ∧ a.id = target.id ∧
      (a.isTokenized = false → target.isTokenized = false) := by
  rcases hperm with ⟨_, id, _, _, target, -, hf, rfl⟩ | ⟨id, _, _, target, _, _, -, hf, rfl, -⟩
  · exact ⟨id, true, target, (h.mem_log ht).1 (hl hf), rfl, fun h => h⟩
  · exact ⟨id, false, target, (h.mem_log ht).1 (hl hf), rfl, nofun⟩

/-- What is committed is an article that was created. -/
theorem articleOf_of_committed (h : Run ok c) {i : ℕ} {a : Article}
    (ha : .asked i (answered (.commit a) ()) ∈ c.history) : ∃ author, ArticleOf c a.id author := by
  obtain ⟨t, l₁, l₂, ht, hl, -, hperm⟩ := asks_of_asked h ha
  have hsub : l₁ ⊆ t.log := by rw [hl]; exact List.subset_append_left _ _
  obtain ⟨id, p, target, hf, hid, -⟩ := loaded_of_permitted h ht hsub hperm
  exact ⟨_, hid ▸ ((consistent h).loaded i id p target hf).article⟩

/-- No two articles are loaded for one request. -/
theorem first_of_rest (h : Run ok c) {i : ℕ} {t : server.Thread} (ht : c.threads[i]? = some t)
    {id : String} {p : Bool} {k : calls.Ans (.first id p) → Prog Reply}
    (hk : t.rest = .ask (.first id p) k) {id' : String} {p' : Bool} {a : Article} :
    .asked i (answered (.first id' p') a) ∉ c.history := fun ha => by
  have := (asks_of_rest h ht hk).1 _ ((h.mem_log ht).2 ha)
  cases this

/-- What was committed as tokenized is so in the table, and whoever has loaded it
    before has been overlapped. -/
structure KeptTokenized (c : server.Config) : Prop where
  rows : ∀ r ∈ c.world.articles.rows, CommittedTokenized c r.id → r.isTokenized = true
  since : ∀ i id p a, .asked i (answered (.first id p) a) ∈ c.history → a.isTokenized = false →
    CommittedTokenized c a.id → tokenizedSince i a.id c.history = true

/-- Moves that neither load nor commit an article: a row is not new, or it was not
    committed before. -/
theorem KeptTokenized.of_unchanged (hc : KeptTokenized c)
    (harticles : ∀ r ∈ c'.world.articles.rows,
      r ∈ c.world.articles.rows ∨ ¬ CommittedTokenized c r.id)
    {x : server.Event} (hx : c'.history = c.history ++ [x])
    (hfirst : ∀ i id p a, x ≠ .asked i (answered (.first id p) a))
    (hcommit : ∀ i a, x ≠ .asked i (answered (.commit a) ())) : KeptTokenized c' := by
  have hold : ∀ id, CommittedTokenized c' id → CommittedTokenized c id := by
    rintro id ⟨i, a, ha, ha', rfl⟩
    rw [hx, List.mem_append, List.mem_singleton] at ha
    rcases ha with ha | ha
    · exact ⟨i, a, ha, ha', rfl⟩
    · exact absurd ha.symm (hcommit i a)
  -- Whether an article was tokenized since a load is changed by loads and commits only.
  have hoverlap : ∀ i id b, overlap i id b x = b := by
    intro i id b
    unfold overlap
    split
    · exact absurd rfl (hfirst _ _ _ _)
    · exact absurd rfl (hcommit _ _)
    · rfl
  refine ⟨fun r hr hid => ?_, fun i id p a ha hflag hid => ?_⟩
  · rcases harticles r hr with hr | hr
    · exact hc.rows r hr (hold _ hid)
    · exact absurd (hold _ hid) hr
  rw [hx, List.mem_append, List.mem_singleton] at ha
  rcases ha with ha | ha
  · rw [hx, tokenizedSince_append, hoverlap]
    exact hc.since i id p a ha hflag (hold _ hid)
  · exact absurd ha.symm (hfirst i id p a)

section

variable (hrun : Run ok c) (hc : KeptTokenized c) {i : ℕ} {t : server.Thread}
  (ht : c.threads[i]? = some t)

include hrun hc ht

/-- An article that is loaded as not tokenized was not tokenized when it was loaded. -/
theorem KeptTokenized.first {id : String} {p : Bool} {k : calls.Ans (.first id p) → Prog Reply}
    (hk : t.rest = .ask (.first id p) k) {a : Article} {q : Prog Reply}
    (hview : c.world.view (.first id p) = .ok a) :
    KeptTokenized (c.step i t (answered (.first id p) a) q c.world) := by
  -- A load commits nothing.
  have hold : ∀ id', CommittedTokenized (c.step i t (answered (.first id p) a) q c.world) id' →
      CommittedTokenized c id' := by
    rintro id' ⟨j, b, hb, hb', rfl⟩
    rcases Config.mem_history_step.1 hb with hb | hb
    · exact ⟨j, b, hb, hb', rfl⟩
    · cases hb
  refine ⟨fun r hr hid => hc.rows r hr (hold _ hid), fun j id' p' b hb hflag hid => ?_⟩
  rcases Config.mem_history_step.1 hb with hb | hb
  · have hji : j ≠ i := fun hji => first_of_rest hrun ht hk (hji ▸ hb)
    rw [show (c.step i t _ q c.world).history = c.history ++ [.asked i (answered (.first id p) a)]
      from rfl, tokenizedSince_append, hc.since j id' p' b hb hflag (hold _ hid)]
    simp [overlap, hji]
  · -- The article has just been loaded as not tokenized, and is so in the table.
    cases hb
    obtain ⟨r, hr, rfl, rfl⟩ := World.view_first hview
    have := hc.rows r hr (hold _ hid)
    rw [show r.isTokenized = false from hflag] at this
    cases this

/-- A commit that is allowed does not undo a tokenization. -/
theorem KeptTokenized.commit {a : Article} {k : calls.Ans (.commit a) → Prog Reply}
    (hk : t.rest = .ask (.commit a) k)
    (hok : a.isTokenized = false → tokenizedSince i a.id c.history = false) {w' : World}
    {q : Prog Reply} (heff : World.Effect c.world (.commit a) () w') :
    KeptTokenized (c.step i t (answered (.commit a) ()) q w') := by
  -- What counts as tokenized afterwards: what did before, and the article, if the commit says so.
  have hnew : ∀ id, CommittedTokenized (c.step i t (answered (.commit a) ()) q w') id →
      CommittedTokenized c id ∨ (a.isTokenized = true ∧ a.id = id) := by
    rintro id ⟨j, b, hb, hb', rfl⟩
    rcases Config.mem_history_step.1 hb with hb | hb
    · exact .inl ⟨j, b, hb, hb', rfl⟩
    · cases hb
      exact .inr ⟨hb', rfl⟩
  refine ⟨fun r hr hid => ?_, fun j id' p' b hb hflag hid => ?_⟩
  · rcases World.mem_articles heff hr with ⟨hr, hne⟩ | ⟨_, ⟨⟩, -⟩ | ⟨a', ha', rfl⟩
    · rcases hnew _ hid with hid | ⟨-, hid⟩
      · exact hc.rows r hr hid
      · exact absurd hid.symm (hne a rfl)
    · cases ha'
      rcases hnew _ hid with hid | ⟨hflag, -⟩
      · -- Had it been loaded as not tokenized, it would have been tokenized since.
        by_contra hflag
        have hflag : a.isTokenized = false := Bool.eq_false_iff.2 hflag
        obtain ⟨id, p, target, hf, hta, htarget⟩ :=
          loaded_of_permitted hrun ht (List.Subset.refl _) (asks_of_rest hrun ht hk).2
        have := hc.since i id p target hf (htarget hflag) (hta ▸ hid)
        rw [← hta, hok hflag] at this
        cases this
      · exact hflag
  · rcases Config.mem_history_step.1 hb with hb | hb
    · rw [show (c.step i t _ q w').history = c.history ++ [.asked i (answered (.commit a) ())]
        from rfl, tokenizedSince_append]
      rcases hnew _ hid with hid | ⟨hflag', hid⟩
      · simp [overlap, hc.since j id' p' b hb hflag hid]
      · simp [overlap, hflag', hid]
    · cases hb

end

/-- In every run that keeps tokenizations, what was tokenized still is. -/
theorem keptTokenized (h : Run (keepsTokenized · ·) c) : KeptTokenized c := by
  refine h.induction KeptTokenized ⟨?_, ?_⟩ ?_ ?_ ?_
  · exact fun r hr => absurd hr Keyed.Table.not_mem_empty
  · exact fun i id p a ha => absurd ha List.not_mem_nil
  · intro c r _ hc _
    exact hc.of_unchanged (fun _ hr => .inl hr) rfl nofun nofun
  · intro c i ch t o k ans w' hrun hc hok ht hk he
    rcases World.exec_cases he with ⟨e, rfl, rfl⟩ | ⟨v, rfl, heff⟩
    · exact hc.of_unchanged (fun _ hr => .inl hr) rfl (fun _ _ _ _ h => by cases h)
        fun _ _ h => by cases h
    cases o with
    | first id p =>
      obtain ⟨rfl, hview⟩ := heff
      exact hc.first hrun ht hk hview
    | commit a =>
      obtain ⟨b, rfl⟩ := World.choice_of_commit he
      refine hc.commit hrun ht hk (fun hflag => ?_) heff
      simpa [keepsTokenized, Config.asking_of_rest ht hk, hflag] using hok
    | create a =>
      -- An article just created was not committed before.
      refine hc.of_unchanged (fun r hr => ?_) rfl (fun _ _ _ _ h => by cases h)
        fun _ _ h => by cases h
      rcases World.mem_articles heff hr with ⟨hr, -⟩ | ⟨_, ⟨⟩, rfl⟩ | ⟨_, ⟨⟩, -⟩
      · exact .inl hr
      · refine .inr ?_
        rintro ⟨j, b, hb, -, hid⟩
        obtain ⟨author, a', ha', hid', -⟩ := articleOf_of_committed hrun hb
        exact (not_created_of_rest hrun ht hk ha').1 (hid'.trans hid)
    | _ =>
      refine hc.of_unchanged (fun r hr => ?_) rfl (fun _ _ _ _ h => by cases h)
        fun _ _ h => by cases h
      rcases World.mem_articles heff hr with ⟨hr, -⟩ | ⟨a, ⟨⟩, -⟩ | ⟨a, ⟨⟩, -⟩
      exact .inl hr
  · intro c x w' _ hc _ hx
    have harticles : w'.articles = c.world.articles := World.articles_of_act hx
    exact hc.of_unchanged (fun r hr => .inl (harticles ▸ hr)) rfl nofun nofun

/-- A request to tokenize the article `id` has been committed. -/
def TokenCommitted (c : server.Config) (id : String) : Prop :=
  ∃ t ∈ c.threads, t.request.isCreateForArticle = true ∧
    ∃ e ∈ t.log, ∃ a, e = answered (.commit a) () ∧ a.isTokenized = true ∧ a.id = id

/-- An article whose token was committed is tokenized wherever it is stored, as
    long as no update commits what it had loaded before. -/
theorem tokenized_of_committed (h : Run (keepsTokenized · ·) c) {id : String}
    (hid : TokenCommitted c id) : ∀ r ∈ c.world.articles.rows, r.id = id → r.isTokenized = true := by
  rintro r hr rfl
  obtain ⟨t, ht, -, e, he, a, rfl, hflag, hid⟩ := hid
  obtain ⟨i, hi⟩ := List.getElem?_of_mem ht
  exact (keptTokenized h).rows r hr ⟨i, a, (h.mem_log hi).1 he, hflag, hid⟩

/-- Whether a call is the commit of the article `id` as tokenized. -/
def commitsTokenized (id : String) : calls.Entry → Bool
  | ⟨.commit a, .ok _⟩ => a.isTokenized && a.id = id
  | _ => false

omit [Environment] in
/-- The calls that commit the article as tokenized. -/
theorem commitsTokenized_iff {id : String} {e : calls.Entry} : commitsTokenized id e = true ↔
    ∃ a, e = answered (.commit a) () ∧ a.isTokenized = true ∧ a.id = id := by
  unfold commitsTokenized
  split
  next a v =>
    constructor
    · intro h
      exact ⟨a, rfl, by simpa using h⟩
    · rintro ⟨a', he, h⟩
      cases he
      simpa using h
  next h => exact ⟨nofun, fun ⟨a, he, _⟩ => absurd he (h a _)⟩

instance (c : server.Config) (id : String) : Decidable (TokenCommitted c id) :=
  decidable_of_iff (∃ t ∈ c.threads, t.request.isCreateForArticle = true ∧
    ∃ e ∈ t.log, commitsTokenized id e = true) (by simp only [commitsTokenized_iff]; rfl)

end

/-! An update loads the article before it is tokenized, and commits it afterwards. -/

section

attribute [local instance] Hardhat.environment

open Hardhat

/-- The run in which the update goes on when the token has been committed. -/
def lateUpdate : List server.Move :=
  [register 0, createArticle 1,
    .arrive (.update "author" articleID (some "title 2") none) :: steps 2 [.ok, .ok],
    .arrive tokenize :: mint 3, storeToken 3, steps 2 [.ok, .recreate false]].flatten

/-- The run in which the update is over when the token is committed. -/
def earlyUpdate : List server.Move :=
  [register 0, createArticle 1,
    .arrive (.update "author" articleID (some "title 2") none) ::
      steps 2 [.ok, .ok, .ok, .recreate false],
    .arrive tokenize :: mint 3, storeToken 3].flatten

/-- An update that ended before the article was tokenized is no harm. -/
theorem tokenized_earlyUpdate : ∃ c, Run (keepsTokenized · ·) c ∧ TokenCommitted c articleID ∧
    ∃ r ∈ c.world.articles.rows, r.id = articleID ∧ r.isTokenized = true := by
  obtain ⟨c, hc, hp⟩ := exists_reaches_of_run keepsTokenized earlyUpdate (.initial World.initial)
    (fun c => TokenCommitted c articleID ∧ ∃ r ∈ c.world.articles.rows, r.id = articleID)
    (by decide +kernel)
  obtain ⟨hid, r, hr, hrid⟩ := of_decide_eq_true hp
  exact ⟨c, hc, hid, r, hr, hrid, tokenized_of_committed hc hid r hr hrid⟩

/-- An update that has loaded the article before undoes its tokenization. -/
theorem tokenized_undone : ∃ c, Run Any c ∧ ∃ r ∈ c.world.articles.rows,
    TokenCommitted c r.id ∧ r.isTokenized = false := by
  obtain ⟨c, hc, hp⟩ := exists_reaches_of_run (fun _ _ => true) lateUpdate
    (.initial World.initial)
    (fun c => ∃ r ∈ c.world.articles.rows, TokenCommitted c r.id ∧ r.isTokenized = false)
    (by decide +kernel)
  exact ⟨c, hc.any, by simpa using hp⟩

end

end Knowtfolio
