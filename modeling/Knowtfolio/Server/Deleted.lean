import Knowtfolio.Server.Editors
import Knowtfolio.Server.Hardhat
import Knowtfolio.Server.Tokenized
import Knowtfolio.Server.Views

/-!
# Deleted articles

`Delete` removes the row of an article, and its document stays. The row may come back:
`Update` and `CreateForArticle` write the article that they have loaded, and gorm creates a
row where there is none to update. Both load the article before, though, and `First` finds no
article that is not there. So whether a deleted article may come back is known from the requests
that are being served: once none of those that write an article back has loaded it, it is gone for
good (`gone_stays`).

What a request has loaded is read off its log (`HasLoaded`); that it commits or deletes, and that
it succeeds, only after it has loaded its article is one statement about the programs, with the
error paths (`Loads`, `serve_loads`). As ids are not drawn twice, no other article gets the id.
-/

namespace Knowtfolio

open Interaction Machine

/-- The article has been loaded. -/
def HasLoaded (id : String) (l : Log) : Prop :=
  ∃ preload target, answered (.first id preload) target ∈ l

/-- What has been loaded stays loaded. -/
theorem HasLoaded.mono {id : String} {l l' : Log} (h : HasLoaded id l) (hsub : l ⊆ l') :
    HasLoaded id l' :=
  let ⟨preload, target, hmem⟩ := h; ⟨preload, target, hsub hmem⟩

/-- The requests that write an article back which they have loaded. -/
def Request.writesBack : Request → Bool
  | .update _ _ _ _ | .createForArticle _ _ _ => true
  | _ => false

/-- The article that a request is sent for. -/
def Request.target : Request → Option ArticleID
  | .read id | .update _ id _ _ | .delete _ id | .createForArticle id _ _ => some id
  | _ => none

/-! ## Replies -/

/-- The program does not succeed unless it has loaded the article. -/
abbrev Loads (id : String) (l : Log) {α : Type} (p : Prog α) : Prop :=
  Program.wp (fun _ _ => True) (fun l r => ∀ a, r = .ok a → HasLoaded id l) l p

section

variable {id : String} {l : Log} {α β : Type}

/-- The call that loads the article. -/
theorem loads_call (preload : Bool) : Loads id l (call (.first id preload)) :=
  wp_call.2 ⟨trivial, (fun _ _ h => by cases h), fun target _ _ =>
    ⟨preload, target, List.mem_append_right _ (List.mem_singleton.2 rfl)⟩⟩

/-- What has been loaded stays in the log, whatever comes next. -/
theorem Loads.bind {p : Prog α} {f : α → Prog β} (h : Loads id l p) : Loads id l (p >>= f) := by
  refine Program.wp_bind.2 (Program.wp_mono (fun _ _ h => h) ?_ h)
  rintro l' (e | a) hl'
  · rintro _ ⟨⟩
  have hrest : Program.wp (fun _ _ => True) (fun _ _ => True) l' (f a) :=
    Program.wp_trivial (fun _ _ => trivial) (f a)
  exact Program.wp_mono (fun _ _ h => h) (fun l r h _ _ => (hl' a rfl).mono h.1.subset)
    (Program.wp_prefix hrest)

/-- It may be loaded later. -/
theorem Loads.of_bind {p : Prog α} {f : α → Prog β} (h : ∀ l a, Loads id l (f a)) :
    Loads id l (p >>= f) := by
  refine Program.wp_bind.2 (Program.wp_trivial (fun l r => ?_) p)
  cases r with
  | error e => rintro _ ⟨⟩
  | ok a => exact h l a

/-- A program whose errors are replaced loads what it loads. -/
theorem Loads.mapErr {f : Err → Err} {p : Prog α} (h : Loads id l p) :
    Loads id l (mapErr f p) := by
  refine wp_mapErr.2 (Program.wp_mono (fun _ _ h => h) ?_ h)
  rintro l (e | a) hl
  · rintro _ ⟨⟩
  · exact fun _ _ => hl a rfl

variable [Environment]

/-- `Delete` goes on without the article after an error, but a user with a name is not the author of
    the zero article. -/
theorem loads_delete {userID : String} {id : ArticleID} (hne : userID ≠ "") :
    Loads id l (delete userID id) := by
  refine Program.wp_ask.2 ⟨trivial, fun r => ?_⟩
  rcases r with e | target
  · -- The zero article, which `Delete` goes on with then, is nobody's whose name is not empty.
    have hzero : ∀ l, Loads id l (do
        authorizeEdit userID ⟨id, .zero, "", false⟩ false
        call (.delete id.1)
        pure (articleToResult ⟨id, .zero, "", false⟩)) := fun l => by
      rw [authorizeEdit, isAuthorized]
      simp [hne]
    cases e with
    | recordNotFound => exact Program.wp_throw.2 fun _ hr => by cases hr
    | _ => exact hzero _
  · have hloaded : HasLoaded id (l ++ [answered (.first id false) target]) :=
      ⟨false, target, List.mem_append_right _ (List.mem_singleton.2 rfl)⟩
    have hret : Loads id (l ++ [answered (.first id false) target]) (pure target : Prog Article) :=
      Program.wp_ret.2 fun _ _ => hloaded
    exact hret.bind

/-- No request succeeds without having loaded the article that it is sent for. -/
theorem serve_loads (request : Request) : (serve request).wp (fun _ _ => True)
    (fun l r => ∀ id ∈ request.target, request.user ≠ some "" →
      ∀ reply, r = .ok reply → HasLoaded id l) [] := by
  have hserve : ∀ {id : ArticleID} {α : Type} {p : Prog α} {f : α → Reply}, Loads id [] p →
      Program.wp (fun _ _ => True) (fun l r => ∀ id' ∈ some id, request.user ≠ some "" →
        ∀ reply, r = .ok reply → HasLoaded id' l) [] (p >>= fun a => pure (f a)) := fun hp =>
    Program.wp_mono (fun _ _ h => h) (fun _ _ h _ hid _ => Option.some.inj hid ▸ h) hp.bind
  cases request with
  | read id => exact hserve (loads_call false).bind.mapErr.bind
  | update userID id title content =>
    exact hserve (Loads.of_bind fun _ _ => (loads_call true).bind).mapErr.bind
  | delete userID id =>
    by_cases hne : userID = ""
    · exact Program.wp_trivial (fun _ _ _ _ huser => absurd (congrArg some hne) huser) _
    · exact hserve (loads_delete hne)
  | createForArticle id address signature =>
    exact hserve (Loads.of_bind fun _ _ => Loads.of_bind fun _ _ => (loads_call false).mapErr.bind)
  | _ => exact Program.wp_trivial (fun _ _ _ hid => by cases hid) _

end

/-! ## Runs -/

section

variable [Environment] {c c' : server.Config}

/-- What is committed was loaded by a request that writes it back. -/
theorem hasLoaded_of_commit (h : Run Any c) {i : ℕ} {t : server.Thread}
    (ht : c.threads[i]? = some t) {a : Article} {k : calls.Ans (.commit a) → Prog Reply}
    (hk : t.rest = .ask (.commit a) k) :
    t.request.writesBack = true ∧ HasLoaded a.id t.log := by
  have hid : ∀ {id : String} {p : Bool} (target : Article),
      answered (.first id p) target ∈ t.log → HasLoaded target.id t.log := by
    intro id p target hmem
    have hloaded := (consistent h).loaded i id p target ((h.mem_log ht).1 hmem)
    exact ⟨p, target, hloaded.id_eq.symm ▸ hmem⟩
  rcases (asks_of_rest h ht hk).2 with ⟨_, _, _, _, target, hrequest, hf, rfl⟩ |
    ⟨_, _, _, target, _, _, hrequest, hf, rfl, -⟩
  · exact ⟨by rw [hrequest]; rfl, hid target hf⟩
  · exact ⟨by rw [hrequest]; rfl, hid target hf⟩

/-- The article is not there, and who has loaded it did so before `c`. -/
structure Gone (id : String) (c c' : server.Config) : Prop where
  rows : ∀ r ∈ c'.world.articles.rows, r.id ≠ id
  loaded : ∀ (i : ℕ) (t : server.Thread), c'.threads[i]? = some t → HasLoaded id t.log →
    ∃ t₀ : server.Thread, c.threads[i]? = some t₀ ∧ HasLoaded id t₀.log

/-- An article that was created and is gone does not come back when no request that writes it back
    has loaded it, whatever happens. -/
theorem gone_of_reaches (h : Run Any c) (h' : Reaches (M := server) Any c c') {id : String}
    (hcreated : ∃ a, Created c a ∧ a.id = id) (hgone : ∀ r ∈ c.world.articles.rows, r.id ≠ id)
    (hidle : ∀ t ∈ c.threads, t.request.writesBack = true → HasLoaded id t.log → t.rest.Done) :
    Gone id c c' := by
  -- No row comes back, and nothing has loaded the article but what had loaded it before.
  refine h'.induction (Gone id c) ⟨hgone, fun _ t ht hl => ⟨t, ht, hl⟩⟩ ?_ ?_
    (fun c₁ x w' _ hc _ hx => ?_)
  · intro c₁ r _ hc _
    refine ⟨hc.rows, fun i t ht hl => ?_⟩
    rcases Config.getElem?_arrive ht with ht | ⟨-, rfl⟩
    · exact hc.loaded i t ht hl
    · obtain ⟨_, _, hmem⟩ := hl
      cases hmem
  · intro c₁ i ch t o k x w' h₁ hc _ ht hk he
    have hrun : Run Any c₁ := h.trans h₁
    refine ⟨?_, fun j u hu hl => ?_⟩
    · rcases World.exec_cases he with ⟨e, rfl, rfl⟩ | ⟨v, rfl, heff⟩
      · exact hc.rows
      intro r hr hid
      rcases World.mem_articles heff hr with ⟨hr, -⟩ | ⟨a, rfl, rfl⟩ | ⟨a, rfl, rfl⟩
      · exact hc.rows r hr hid
      · -- The ids of what is created are new.
        obtain ⟨a', ha', haid⟩ := hcreated
        exact (not_created_of_rest hrun ht hk (ha'.mono h₁.history_prefix.subset)).1
          (haid.trans hid.symm)
      · -- The request had loaded the article before, so it has ended.
        obtain ⟨hwrites, hloaded⟩ := hasLoaded_of_commit hrun ht hk
        obtain ⟨t₀, ht₀, hloaded₀⟩ := hc.loaded i t ht (hid ▸ hloaded)
        obtain ⟨t', ht', hrequest, hdone⟩ := h₁.thread_mono ht₀
        obtain rfl : t = t' := Option.some.inj (ht.symm.trans ht')
        have hend := hidle t₀ (List.mem_of_getElem? ht₀) (hrequest ▸ hwrites) hloaded₀
        rw [← hdone hend, hk] at hend
        exact hend.elim
    · rcases Config.getElem?_step hu with ⟨rfl, rfl⟩ | ⟨-, hu⟩
      · obtain ⟨preload, target, hmem⟩ := hl
        rcases List.mem_append.1 hmem with hmem | hmem
        · exact hc.loaded j t ht ⟨preload, target, hmem⟩
        · -- `First` finds no article that is not there.
          cases List.mem_singleton.1 hmem
          rcases World.exec_cases he with ⟨e, ⟨⟩, -⟩ | ⟨v, hv, heff⟩
          obtain ⟨r, hr, hid, -⟩ := World.view_first heff.2
          exact absurd hid (hc.rows r hr)
      · exact hc.loaded j u hu hl
  · refine ⟨?_, hc.loaded⟩
    rw [Config.act, World.act_eq hx]
    exact hc.rows

/-- An article that was created and is gone stays so when no request that writes it back has loaded
    it: it is in no table any more, and no request for it that arrives from then on succeeds. -/
theorem gone_stays (h : Run Any c) (h' : Reaches (M := server) Any c c') {id : ArticleID}
    (hcreated : ∃ a, Created c a ∧ a.id = id) (hgone : ∀ r ∈ c.world.articles.rows, r.id ≠ id)
    (hidle : ∀ t ∈ c.threads, t.request.writesBack = true → HasLoaded id t.log → t.rest.Done) :
    (∀ r ∈ c'.world.articles.rows, r.id ≠ id) ∧
      (read id).eval c'.world.view = .error (.err (.notFound .recordNotFound)) ∧
      ∀ (i : ℕ) (t : server.Thread) (reply : Reply), c.threads.length ≤ i →
        c'.threads[i]? = some t → t.request.target = some id → t.request.user ≠ some "" →
        t.rest ≠ .ret reply := by
  have hc' := gone_of_reaches h h' hcreated hgone hidle
  refine ⟨hc'.rows, eval_read_of_not_mem hc'.rows, fun i t reply hle ht htarget huser hret => ?_⟩
  have hwp := (h.trans h').rest_wp (P := fun _ _ _ => True) serve_loads ht
  rw [hret] at hwp
  have hloaded : HasLoaded id t.log := Program.wp_ret.1 hwp id htarget huser reply rfl
  obtain ⟨t₀, ht₀, -⟩ := hc'.loaded i t ht hloaded
  exact absurd (List.getElem?_eq_some_iff.1 ht₀).1 hle.not_gt

end

/-! The author deletes an article, and then a reader asks for it. -/

section

attribute [local instance] Hardhat.environment

open Hardhat

/-- The author deletes the article as the request `i`. -/
def deleteArticle (i : ℕ) : List server.Move :=
  .arrive (.delete "author" articleID) :: steps i [.ok, .ok]

/-- The article is read as the request `i`: there is none. -/
def readDeleted (i : ℕ) : List server.Move := .arrive (.read articleID) :: steps i [.ok]

/-- The article is created and deleted; then it is asked for again, and not found. -/
theorem gone_stays_deleted : ∃ (c c' : server.Config) (t : server.Thread), Run Any c ∧
    Reaches (M := server) Any c c' ∧ (∃ a, Created c a ∧ a.id = articleID) ∧
    (∀ r ∈ c'.world.articles.rows, r.id ≠ articleID) ∧ c'.threads[2]? = some t ∧
    t.request.target = some articleID ∧ t.rest.Done ∧ ∀ reply, t.rest ≠ .ret reply := by
  obtain ⟨c₁, h₁, hp₁⟩ := exists_reaches_of_run (fun _ _ => true) (createArticle 0)
    (.initial World.initial)
    (fun c₁ => (∃ r ∈ c₁.world.articles.rows, r.id = articleID.1) ∧
      (c₁.run (fun _ _ => true) (deleteArticle 1)).any fun c =>
        (c.Quiet ∧ c.threads.length = 2 ∧ ∀ r ∈ c.world.articles.rows, r.id ≠ articleID.1) ∧
        (c.run (fun _ _ => true) (readDeleted 2)).any fun c' => (c'.threads[2]?).any fun t =>
          t.request.target = some articleID ∧ t.request.user = none ∧ t.rest.Done)
    (by decide +kernel)
  -- After each part of the run, what the theorem needs of the state is read off.
  obtain ⟨⟨r, hr, hid⟩, hp₁⟩ := of_decide_eq_true hp₁
  obtain ⟨c, h₂, hp⟩ := exists_reaches_of_run _ _ c₁ _ hp₁
  obtain ⟨⟨hquiet, hlength, hgone⟩, hp⟩ := of_decide_eq_true hp
  obtain ⟨c', h', hp'⟩ := exists_reaches_of_run _ _ c _ hp
  obtain ⟨t, ht, hp'⟩ := (Option.any_eq_true _ _).1 hp'
  obtain ⟨htarget, huser, hdone⟩ := of_decide_eq_true hp'
  obtain ⟨a, ha, haid, -⟩ := (consistent h₁.any).rows r hr
  have hcreated : ∃ a, Created c a ∧ a.id = articleID :=
    ⟨a, ha.mono h₂.history_prefix.subset, haid.trans hid⟩
  have hc : Run Any c := h₁.any.trans h₂.any
  obtain ⟨hrows, -, hreply⟩ :=
    gone_stays hc h'.any hcreated hgone fun t ht _ _ => hquiet t ht
  exact ⟨c, c', t, hc, h'.any, hcreated, hrows, ht, htarget, hdone,
    fun reply => hreply 2 t reply hlength.le ht htarget (by simp [huser])⟩

end

end Knowtfolio
