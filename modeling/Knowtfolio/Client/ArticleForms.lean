import Knowtfolio.Client.AuthProvider
import Knowtfolio.Client.SignData
import Knowtfolio.Interaction.Session
import Knowtfolio.Server.Editors
import Knowtfolio.Server.Serial
import Knowtfolio.Server.Spelling

/-!
# The forms for articles

`client/src/components/organisms/forms`: `NewArticleForm` posts an article, `EditArticleForm` puts
one in the place of another; then both have it tokenized, if the switch for that is on. Whatever is
thrown on the way is shown as a failure of the whole: also that the token could not be had of an
article which was saved.

The server serves their requests among those of everybody else. What a form shows is true: an
article which it shows as saved has been saved, by its requests, and tokenized if the switch was on;
and what it shows as failed has not, unless a response was lost (`submit_reports`).

First the form alone: it shows success exactly if its calls have returned what they should
(`wp_submit`), whatever it is that they return. Then its calls and the server: a call that has
returned is the result of a request that was served (`exists_made`), and a request that was served
is a call that has returned, unless the response was lost (`exists_returned`). That a request which
is answered without an error has made its change, and one that is answered with an error has not,
is known of the server (`acknowledges`).
-/

namespace Knowtfolio.Client

open Interaction Machine

/-- `NewArticleForm`, and `EditArticleForm` of an article. -/
inductive ArticleForm
  | new
  | edit (articleId : ArticleID)

/-- What a form is filled with. -/
structure ArticleInput where
  title : String
  content : String
  mintSwitchChecked : Bool

namespace ArticleForm

/-! ## The calls -/

/-- The calls of the forms: to the server, to DynamoDB and to the wallet. -/
inductive ArticleCall
  | post (title content idToken : String)
  | put (articleId : ArticleID) (title content idToken : String)
  | getNonce (username : String)
  | sign (data account : String)
  | postNft (articleId address signature : String)

/-- What a call returns: the id of the article that was posted, an item, or a signature. -/
def ArticleCall.Val : ArticleCall → Type
  | post _ _ _ => String
  | put _ _ _ _ => Unit
  | getNonce _ => Option (Option String)
  | sign _ _ => String
  | postNft _ _ _ => Unit

/-- A call returns a value or throws an error. -/
abbrev articleCalls : Signature := ⟨ArticleCall, fun o => Except Err o.Val⟩

/-- A part of a form. -/
abbrev ArticleProg := Program articleCalls Err

/-- The value of a call, or its error. -/
def callApi (o : ArticleCall) : ArticleProg o.Val :=
  Program.ask (S := articleCalls) o Program.ofExcept

/-- A call that has returned. -/
def returned (o : ArticleCall) (v : o.Val) : articleCalls.Entry := ⟨o, .ok v⟩

/-- The calls that save an article. -/
def ArticleCall.saves : ArticleCall → Bool
  | post _ _ _ | put _ _ _ _ => true
  | _ => false

/-- `postArticle`, by the id of what it returns. -/
def postArticle (title content idToken : String) : ArticleProg String :=
  callApi (.post title content idToken)

/-- `putArticle`. -/
def putArticle (articleId : ArticleID) (title content idToken : String) : ArticleProg Unit :=
  callApi (.put articleId title content idToken)

/-- `mintArticleNft`, by its calls. -/
def mintArticleNft (articleId account username : String) : ArticleProg Unit := do
  let item ← callApi (.getNonce username)
  match fetchNonce item with
  | none => .throw (.external "value not found")
  | some nonce => do
    let signatureForMint ← callApi (.sign (generateSignData "Mint NFT" nonce) account)
    callApi (.postNft articleId account signatureForMint)

/-- What the forms use of `useWeb3Context`. -/
structure Web3Context where
  isConnectedToMetamask : Bool
  account : String

/-- `assertMetamask`. -/
def assertMetamask (isConnectedToMetamask : Bool) : ArticleProg Unit :=
  if isConnectedToMetamask then pure () else .throw (.external "Metamaskに接続されていません。")

/-! ## The forms -/

/-- How a form ends: with another page and a message, or with a message that it has failed. -/
inductive Ending
  | success (page message : String)
  | error (message : String)
  deriving DecidableEq

/-- The article is tokenized if the switch is on. -/
def mintIfChecked (mintSwitchChecked : Bool) (web3 : Web3Context) (articleId username : String) :
    ArticleProg Unit :=
  if mintSwitchChecked then do
    assertMetamask web3.isConnectedToMetamask
    mintArticleNft articleId web3.account username
  else pure ()

/-- What both forms do, given how they save the article, and their messages. -/
def handleSubmit (save : ArticleProg String) (auth : AuthContext) (web3 : Web3Context)
    (mintSwitchChecked : Bool) (saved failed : String) : ArticleProg Ending :=
  Program.handle (fun _ => pure (.error failed)) do
    let id ← save
    mintIfChecked mintSwitchChecked web3 id auth.user.username
    pure (.success ("/users/" ++ auth.user.username) saved)

/-- `handlePost`. -/
def handlePost (auth : AuthContext) (web3 : Web3Context) (titleInput content : String)
    (mintSwitchChecked : Bool) : ArticleProg Ending :=
  handleSubmit (postArticle titleInput content auth.session.idToken) auth web3 mintSwitchChecked
    "記事を作成しました。" "記事の作成に失敗しました。"

/-- `handleUpdate`. -/
def handleUpdate (auth : AuthContext) (web3 : Web3Context) (articleId : ArticleID)
    (title content : String) (mintSwitchChecked : Bool) : ArticleProg Ending :=
  handleSubmit (do putArticle articleId title content auth.session.idToken; pure articleId.1) auth
    web3 mintSwitchChecked "記事が更新されました。" "記事の更新に失敗しました。"

section

variable (form : ArticleForm) (auth : AuthContext) (web3 : Web3Context) (input : ArticleInput)

/-- The button of a form is clicked. -/
def submit : ArticleProg Ending :=
  match form with
  | new => handlePost auth web3 input.title input.content input.mintSwitchChecked
  | edit articleId =>
    handleUpdate auth web3 articleId input.title input.content input.mintSwitchChecked

/-- The message that a form shows of an article that was saved. -/
def savedMessage : ArticleForm → String
  | new => "記事を作成しました。"
  | edit _ => "記事が更新されました。"

/-- The message that a form shows of a failure. -/
def failedMessage : ArticleForm → String
  | new => "記事の作成に失敗しました。"
  | edit _ => "記事の更新に失敗しました。"

/-- How a form ends when all has gone well. -/
def success : Ending := .success ("/users/" ++ auth.user.username) form.savedMessage

/-- The call that saves the article. -/
def saveCall : ArticleForm → ArticleCall
  | new => .post input.title input.content auth.session.idToken
  | edit articleId => .put articleId input.title input.content auth.session.idToken

/-- The call that saves the article has returned, and the article has the id. -/
def Saved (id : String) (l : articleCalls.Log) : Prop :=
  match form with
  | new => returned (.post input.title input.content auth.session.idToken) id ∈ l
  | edit articleId => id = articleId.1 ∧
    returned (.put articleId input.title input.content auth.session.idToken) () ∈ l

/-- The call that has it tokenized has returned. -/
def Tokenized (id : String) (l : articleCalls.Log) : Prop :=
  ∃ address signature, returned (.postNft id address signature) () ∈ l

/-- The article has been saved, and tokenized if the switch is on. -/
def Completed (l : articleCalls.Log) : Prop :=
  ∃ id, form.Saved auth input id l ∧ (input.mintSwitchChecked = true → Tokenized id l)

end

/-! ## What the forms do -/

section

variable {l : articleCalls.Log} {α : Type}

/-- The rule of calls: an error ends the program, unless it is caught. -/
theorem wp_callApi_bind {P : articleCalls.Log → ArticleCall → Prop}
    {Q : articleCalls.Log → Except Err α → Prop} {o : ArticleCall} {f : o.Val → ArticleProg α} :
    Program.wp P Q l (callApi o >>= f) ↔ P l o ∧ (∀ e, Q (l ++ [⟨o, .error e⟩]) (.error e)) ∧
      ∀ v, Program.wp P Q (l ++ [returned o v]) (f v) := by
  rw [callApi, Program.ask_bind, Program.wp_ask]
  constructor
  · rintro ⟨hP, h⟩
    exact ⟨hP, fun e => by simpa using h (.error e), fun v => h (.ok v)⟩
  · rintro ⟨hP, herror, hok⟩
    refine ⟨hP, fun r => ?_⟩
    cases r with
    | error e => simpa using herror e
    | ok v => exact hok v

/-- The calls that were made since, none of which has saved anything, and whether they have
    tokenized the article, if that was wanted. -/
def Minted (wanted : Bool) (id : String) (l l' : articleCalls.Log) (r : Except Err Unit) : Prop :=
  ∃ l₁, l' = l ++ l₁ ∧ (∀ e ∈ l₁, e.1.saves = false) ∧
    (r = .ok () ↔ (wanted = true → Tokenized id l₁))

/-- The article is tokenized exactly if nothing is thrown; all else that is called only reads or
    signs. -/
theorem wp_mintArticleNft (id account username : String) :
    Program.wp (fun _ _ => True) (Minted true id l) l (mintArticleNft id account username) := by
  -- Each call that fails ends the mint: what was called until then has tokenized nothing.
  refine wp_callApi_bind.2 ⟨trivial, fun e => ?_, fun item => ?_⟩
  · exact ⟨[⟨.getNonce username, .error e⟩], rfl, by simp [ArticleCall.saves],
      by simp [Tokenized, returned]⟩
  cases hnonce : fetchNonce item with
  | none =>
    exact Program.wp_throw.2 ⟨[returned (.getNonce username) item], rfl,
      by simp [ArticleCall.saves, returned], by simp [Tokenized, returned]⟩
  | some nonce =>
    let asked : ArticleCall := .sign (generateSignData "Mint NFT" nonce) account
    refine wp_callApi_bind.2 ⟨trivial, fun e => ?_, fun signature => ?_⟩
    · exact ⟨[returned (.getNonce username) item, ⟨asked, .error e⟩], by simp [asked],
        by simp [ArticleCall.saves, returned, asked], by simp [Tokenized, returned, asked]⟩
    -- The last call is the one that tokenizes, and its error is the one that is thrown.
    refine Program.wp_ask.2 ⟨trivial, fun r => Program.wp_ofExcept.2 ?_⟩
    refine ⟨[returned (.getNonce username) item, returned asked signature,
      ⟨.postNft id account signature, r⟩], by simp [asked],
      by simp [ArticleCall.saves, returned, asked], ?_⟩
    cases r with
    | error e =>
      refine ⟨nofun, fun h => ?_⟩
      obtain ⟨_, _, hmem⟩ := h rfl
      simp only [returned, asked, List.mem_cons, Sigma.mk.injEq, reduceCtorEq, false_and, false_or,
        List.not_mem_nil, or_false] at hmem
      obtain ⟨hcall, hanswer⟩ := hmem
      cases hcall
      cases hanswer
    | ok u => exact ⟨fun _ _ => ⟨account, signature, .tail _ (.tail _ (.head _))⟩, fun _ => rfl⟩

/-- Nothing is called if the switch is off; and if the wallet is not connected, something is thrown.
    -/
theorem wp_mintIfChecked (checked : Bool) (web3 : Web3Context) (id username : String) :
    Program.wp (fun _ _ => True) (Minted checked id l) l
      (mintIfChecked checked web3 id username) := by
  cases checked with
  | false => exact Program.wp_ret.2 ⟨[], by simp, by simp, by simp⟩
  | true =>
    cases hconnected : web3.isConnectedToMetamask with
    | false =>
      simp only [mintIfChecked, assertMetamask, hconnected, if_true, Bool.false_eq_true, if_false]
      exact Program.wp_throw.2 ⟨[], by simp, by simp, by simp [Tokenized]⟩
    | true =>
      simp only [mintIfChecked, assertMetamask, hconnected, if_true]
      exact wp_mintArticleNft id web3.account username

end

section

variable {form : ArticleForm} {auth : AuthContext} {input : ArticleInput}
  {l : articleCalls.Log} {r : Except Err Ending}

variable (form auth input) in
/-- What the form shows is whether it has completed, and it has saved nothing but what it is filled
    with. -/
def Reports (l : articleCalls.Log) (r : Except Err Ending) : Prop :=
  ∃ ending, r = .ok ending ∧ (ending = form.success auth ∨ ending = .error form.failedMessage) ∧
    (ending = form.success auth ↔ form.Completed auth input l) ∧
    ∀ e ∈ l, e.1.saves = true → e.1 = form.saveCall auth input

/-- Success is shown in another way than any failure. -/
theorem success_ne_error (message : String) : form.success auth ≠ .error message := nofun

/-- The call that saves the article does not tokenize it. -/
theorem tokenized_cons {e : articleCalls.Entry} (he : e.1.saves = true) {id : String} :
    Tokenized id (e :: l) ↔ Tokenized id l := by
  refine exists_congr fun address => exists_congr fun signature => ?_
  rw [List.mem_cons, or_iff_right]
  rintro rfl
  cases he

/-- Calls that save nothing do not save the article. -/
theorem saved_cons {e : articleCalls.Entry} (hl : ∀ e ∈ l, e.1.saves = false) {id : String} :
    form.Saved auth input id (e :: l) ↔ form.Saved auth input id [e] := by
  have hmem : ∀ {o : ArticleCall} {v : o.Val}, o.saves = true →
      (returned o v ∈ e :: l ↔ returned o v ∈ [e]) := by
    intro o v ho
    rw [List.mem_cons, List.mem_singleton, or_iff_left]
    intro h
    cases ho.symm.trans (hl _ h)
  cases form with
  | new => exact hmem rfl
  | edit articleId => exact and_congr_right fun _ => hmem rfl

variable (form) in
/-- An article that could not be saved is shown as such, and it is not asked for its token. -/
theorem reports_error (e : Err) :
    form.Reports auth input [⟨form.saveCall auth input, .error e⟩]
      (.ok (.error form.failedMessage)) := by
  refine ⟨_, rfl, .inr rfl, ⟨nofun, ?_⟩, by simp⟩
  rintro ⟨id, hsaved, -⟩
  cases form <;> simp [Saved, saveCall, returned] at hsaved

/-- Once the article is saved, the form completes exactly if it is tokenized or need not be. -/
theorem reports_of_minted {e : articleCalls.Entry} (he : e.1 = form.saveCall auth input)
    {id : String} (hsaved : ∀ id', form.Saved auth input id' [e] ↔ id' = id) {r : Except Err Unit}
    (h : Minted input.mintSwitchChecked id [e] l r) :
    form.Reports auth input l
      (.ok (if r = .ok () then form.success auth else .error form.failedMessage)) := by
  obtain ⟨l₁, rfl, hl₁, hr⟩ := h
  have hsaves : e.1.saves = true := by rw [he]; cases form <;> rfl
  -- The entries after the save neither save nor concern another article.
  have hcompleted : form.Completed auth input ([e] ++ l₁) ↔ r = .ok () := by
    rw [hr, Completed]
    refine ⟨?_, fun h => ⟨id, (saved_cons hl₁).2 ((hsaved id).2 rfl), fun hchecked =>
      (tokenized_cons hsaves).2 (h hchecked)⟩⟩
    rintro ⟨id', hid', htokenized⟩ hchecked
    obtain rfl := (hsaved id').1 ((saved_cons hl₁).1 hid')
    exact (tokenized_cons hsaves).1 (htokenized hchecked)
  refine ⟨_, rfl, ?_, ?_, fun e' he' hsaves' => ?_⟩
  · split_ifs
    · exact .inl rfl
    · exact .inr rfl
  · rw [hcompleted]
    split_ifs with hok
    · exact iff_of_true rfl hok
    · exact iff_of_false (success_ne_error _).symm hok
  · rcases List.mem_cons.1 he' with rfl | he'
    · exact he
    · cases hsaves'.symm.trans (hl₁ e' he')

/-- Both forms, given what they do to save the article. -/
theorem wp_handleSubmit {save : ArticleProg String} (web3 : Web3Context)
    (hsave : Program.wp (fun _ _ => True) (fun l r =>
      (∃ e : Err, l = [⟨form.saveCall auth input, Except.error e⟩] ∧ r = .error e) ∨
        ∃ v id, l = [returned (form.saveCall auth input) v] ∧ r = .ok id ∧
          ∀ id', form.Saved auth input id' l ↔ id' = id) [] save) :
    Program.wp (fun _ _ => True) (form.Reports auth input) []
      (handleSubmit save auth web3 input.mintSwitchChecked form.savedMessage
        form.failedMessage) := by
  refine Program.wp_handle.2 (Program.wp_bind.2 (Program.wp_mono (fun _ _ h => h) ?_ hsave))
  rintro l r (⟨e, rfl, rfl⟩ | ⟨v, id, rfl, rfl, hsaved⟩)
  · exact Program.wp_ret.2 (reports_error form e)
  refine Program.wp_bind.2 (Program.wp_mono (fun _ _ h => h) (fun l r h => ?_)
    (wp_mintIfChecked input.mintSwitchChecked web3 id auth.user.username))
  have hreports := reports_of_minted rfl hsaved h
  cases r with
  | ok u =>
    rw [if_pos rfl] at hreports
    exact Program.wp_ret.2 hreports
  | error e =>
    rw [if_neg nofun] at hreports
    exact Program.wp_ret.2 hreports

/-- Whatever its calls return, a form shows whether it has completed. -/
theorem wp_submit (web3 : Web3Context) :
    Program.wp (fun _ _ => True) (form.Reports auth input) [] (form.submit auth web3 input) := by
  cases form with
  | new =>
    refine wp_handleSubmit web3 (Program.wp_ask.2 ⟨trivial, fun r => Program.wp_ofExcept.2 ?_⟩)
    cases r with
    | error e => exact .inl ⟨e, rfl, rfl⟩
    | ok id =>
      refine .inr ⟨id, id, rfl, rfl, fun id' => ⟨fun h => ?_, fun h => h ▸ .head _⟩⟩
      cases List.mem_singleton.1 h
      rfl
  | edit articleId =>
    refine wp_handleSubmit web3 (wp_callApi_bind.2 ⟨trivial, fun e => ?_, fun u => ?_⟩)
    · exact .inl ⟨e, rfl, rfl⟩
    · exact Program.wp_ret.2 (.inr ⟨u, articleId.1, rfl, rfl, fun id' =>
        ⟨fun h => h.1, fun h => ⟨h, .head _⟩⟩⟩)

end

/-! ## The forms and the server -/

/-- What is open in the answers that are not responses of the server: the item of a nonce, a
    signature, or a failure, of a call or of the connection. -/
inductive Choice
  | item
  | signed (signature : String)
  | fail (message : String)

/-- What a response that is not of the form expected, or that tells of an error, is to `axios`. -/
def requestFailed : Err := .external "Request failed"

section

variable [Environment] [Cognito]

/-- The requests of the forms, and how their calls are answered. A token that is not valid, and
    parameters that are not in the format of the API, are refused before anything is served. -/
def frontend : Frontend server articleCalls where
  Choice := Choice
  request
    | .post title content idToken =>
      (jwtAuth idToken).toOption.map fun userID => .create userID title content
    | .put articleId title content idToken =>
      (jwtAuth idToken).toOption.map fun userID => .update userID articleId title content
    | .postNft articleId address signature =>
      if h : IsArticleID articleId ∧ MatchesAddress address then
        some (.createForArticle ⟨articleId, h.1⟩ address signature)
      else none
    | _ => none
  reply
    | .post _ _ _, .ok (.article res) => .ok res.id
    | .put _ _ _ _, .ok (.article _) => .ok ()
    | .postNft _ _ _, .ok (.nft _) => .ok ()
    | _, _ => .error requestFailed
  answer
    | w, .getNonce username, .item =>
      some (.ok ((w.items.get (.userIDToNonce, username)).map fun i => some i.value))
    | _, .sign _ _, .signed signature => some (.ok signature)
    | _, _, .fail message => some (.error (.external message))
    | _, _, _ => none

/-- The call, having returned `v`, tells of the change. -/
def ArticleCall.Tells : (o : ArticleCall) → o.Val → Change → Prop
  | post title content idToken, id, x =>
    ∃ user, VerifiedToken idToken user ∧ x = .publish id user title content
  | put articleId title content idToken, _, x =>
    ∃ user, VerifiedToken idToken user ∧ x = .revise articleId ⟨title, content⟩
  | postNft articleId _ _, _, x => x = .tokenize articleId
  | _, _, _ => False

/-- A form that is submitted, beside everything else that the server serves. -/
abbrev FormSession := Session server articleCalls Err Ending

variable (form : ArticleForm) (auth : AuthContext) (input : ArticleInput) (c : FormSession)

/-- A request of the form has made the change. -/
def Made (x : Change) : Prop :=
  ∃ i ∈ c.sent, ∃ e, .asked i e ∈ c.server.history ∧
    blog.changeOf c.server (.asked i e) = some x

/-- The change of the blog that saves the article, for the user, with the id. -/
def saving (user id : String) : Change :=
  match form with
  | new => .publish id user input.title input.content
  | edit articleId => .revise articleId ⟨input.title, input.content⟩

/-- The requests of the form have saved its article, for the user of its token, and tokenized it,
    if the switch is on. -/
def IsDone : Prop :=
  ∃ user id, VerifiedToken auth.session.idToken user ∧ Made c (form.saving input user id) ∧
    (∀ articleId, form = edit articleId → id = articleId.1) ∧
    (input.mintSwitchChecked = true → Made c (.tokenize id))

end

section

variable [Cognito] {token user user' : String}

/-- A token is of one user. -/
theorem verifiedToken_unique (h : VerifiedToken token user) (h' : VerifiedToken token user') :
    user = user' :=
  Except.ok.inj ((jwtAuth_eq_ok.2 h).symm.trans (jwtAuth_eq_ok.2 h'))

/-- A token that passes is a valid one. -/
theorem verifiedToken_of_toOption (h : (jwtAuth token).toOption = some user) :
    VerifiedToken token user :=
  jwtAuth_eq_ok.1 (Program.eq_ok_of_toOption h)

end

section

variable [Environment] [Cognito] {s : server.Config} {i : ℕ} {e : articleCalls.Entry} {x : Change}

/-- The result of a request tells of the change that the call tells of that it answers. -/
theorem reply_tells {o : ArticleCall} {request : Request} (h : frontend.request o = some request)
    (r : Except Fault Reply) : r.toOption.bind request.tells = some x ↔
      ∃ v, frontend.reply o r = .ok v ∧ o.Tells v x := by
  -- Only these three calls are requests of the server; the others are answered elsewhere.
  cases o with
  | post title content idToken =>
    obtain ⟨user, huser, rfl⟩ := Option.map_eq_some_iff.1 h
    have huser := verifiedToken_of_toOption huser
    rcases r with e | reply
    · simp [frontend, Except.toOption]
    cases reply with
    | article res =>
      constructor
      · intro h
        exact ⟨res.id, rfl, user, huser, (Option.some.inj h).symm⟩
      · rintro ⟨v, hv, user', huser', rfl⟩
        -- A token is verified for one user, so that the call tells of the same post.
        cases verifiedToken_unique huser huser'
        cases hv
        rfl
    | _ => simp [frontend, Except.toOption, Request.tells]
  | put articleId title content idToken =>
    obtain ⟨user, huser, rfl⟩ := Option.map_eq_some_iff.1 h
    have huser := verifiedToken_of_toOption huser
    rcases r with e | reply
    · simp [frontend, Except.toOption]
    cases reply with
    | article res =>
      constructor
      · intro h
        exact ⟨(), rfl, user, huser, (Option.some.inj h).symm⟩
      · rintro ⟨v, -, user', -, rfl⟩
        rfl
    | _ => simp [frontend, Except.toOption, Request.tells]
  | postNft articleId address signature =>
    simp only [frontend, Option.dite_none_right_eq_some, Option.some.injEq] at h
    obtain ⟨hformat, rfl⟩ := h
    rcases r with e | reply
    · simp [frontend, Except.toOption]
    cases reply with
    | nft res =>
      constructor
      · intro h
        exact ⟨(), rfl, (Option.some.inj h).symm⟩
      · rintro ⟨v, -, rfl⟩
        rfl
    | _ => simp [frontend, Except.toOption, Request.tells]
  | _ => cases h

/-- The thread that serves the request of a call has made a change exactly if the call, having
    returned, tells of it. -/
theorem made_iff_tells (hs : Run Any s) (h : frontend.Answers s i e) :
    (∃ e', .asked i e' ∈ s.history ∧ blog.changeOf s (.asked i e') = some x) ↔
      ∃ v, e.2 = .ok v ∧ e.1.Tells v x := by
  obtain ⟨t, r, ht, hrequest, hr, hreply⟩ := h
  rw [← Abstraction.told_eq_some acknowledges hs ht (Program.done_of_outcome hr),
    Abstraction.told_of_outcome ht hr, reply_tells hrequest, hreply]

/-- A call whose request was sent has a change to tell of. -/
theorem exists_tells {o : ArticleCall} {request : Request} (h : frontend.request o = some request)
    (v : o.Val) : ∃ x, o.Tells v x := by
  cases o with
  | post title content idToken =>
    obtain ⟨user, huser, -⟩ := Option.map_eq_some_iff.1 h
    exact ⟨_, user, verifiedToken_of_toOption huser, rfl⟩
  | put articleId title content idToken =>
    obtain ⟨user, huser, -⟩ := Option.map_eq_some_iff.1 h
    exact ⟨_, user, verifiedToken_of_toOption huser, rfl⟩
  | postNft articleId address signature => exact ⟨_, rfl⟩
  | _ => cases h

/-- The server alone answers the calls that change something. -/
def ArticleCall.changes : ArticleCall → Bool
  | post _ _ _ | put _ _ _ _ | postNft _ _ _ => true
  | _ => false

variable {ok : FormSession → frontend.Move → Prop} {s₀ : server.Config} {c : FormSession}
  {p : ArticleProg Ending}

/-- The server runs as it may run. -/
theorem run_server (h₀ : Run Any s₀) (h : frontend.Reaches ok (.start s₀ p) c) :
    Run Any c.server := by
  refine h₀.trans (h.server fun _ m _ => ?_)
  cases m with
  | send => exact fun _ _ _ _ _ => trivial
  | _ => trivial

/-- What a call tells of, that has returned, has been made by the request of it. -/
theorem exists_made (h₀ : Run Any s₀) (h : frontend.Reaches ok (.start s₀ p) c) {o : ArticleCall}
    {v : o.Val} (hmem : returned o v ∈ c.log) (ho : o.changes = true) :
    ∃ x, o.Tells v x ∧ Made c x := by
  rcases h.answered _ hmem with ⟨i, hi, hans⟩ | ⟨w, ch, ha⟩
  · obtain ⟨x, hx⟩ := exists_tells hans.choose_spec.choose_spec.2.1 v
    exact ⟨x, hx, i, hi, (made_iff_tells (run_server h₀ h) hans).2 ⟨v, rfl, hx⟩⟩
  · cases o with
    | post _ _ _ | put _ _ _ _ | postNft _ _ _ => cases ch <;> cases ha
    | _ => cases ho

/-- If no response is lost, a change that was made is told of by a call that has returned. -/
theorem exists_returned (hok : ∀ c m, ok c m → Frontend.Lossless c m) (h₀ : Run Any s₀)
    (h : frontend.Reaches ok (.start s₀ p) c) (hdone : c.rest.Done) (hmade : Made c x) :
    ∃ o v, returned o v ∈ c.log ∧ o.Tells v x := by
  obtain ⟨i, hi, hchange⟩ := hmade
  rcases h.of_sent hok i hi with hwaiting | ⟨e, he, hans⟩
  · -- The form would not have ended.
    obtain ⟨-, o, k, t, hrest, -⟩ := h.waiting i hwaiting
    rw [hrest] at hdone
    cases hdone
  · obtain ⟨v, hv, hx⟩ := (made_iff_tells (run_server h₀ h) hans).1 hchange
    refine ⟨e.1, v, ?_, hx⟩
    rw [returned, ← hv]
    exact he

section

variable {form : ArticleForm} {auth : AuthContext} {input : ArticleInput}

/-- What a form has completed was done by its requests. -/
theorem isDone_of_completed (h₀ : Run Any s₀) (h : frontend.Reaches ok (.start s₀ p) c)
    (hcompleted : form.Completed auth input c.log) : form.IsDone auth input c := by
  obtain ⟨id, hsaved, htokenized⟩ := hcompleted
  have hmade : input.mintSwitchChecked = true → Made c (.tokenize id) := by
    intro hchecked
    obtain ⟨address, signature, hmem⟩ := htokenized hchecked
    obtain ⟨x, hx, hmade⟩ := exists_made h₀ h hmem rfl
    obtain rfl : x = .tokenize id := hx
    exact hmade
  cases form with
  | new =>
    obtain ⟨x, ⟨user, huser, rfl⟩, hpublished⟩ := exists_made h₀ h hsaved rfl
    exact ⟨user, id, huser, hpublished, nofun, hmade⟩
  | edit articleId =>
    obtain ⟨rfl, hsaved⟩ := hsaved
    obtain ⟨x, ⟨user, huser, rfl⟩, hrevised⟩ := exists_made h₀ h hsaved rfl
    refine ⟨user, _, huser, hrevised, fun articleId' heq => ?_, hmade⟩
    cases heq
    rfl

/-- If no response is lost, a form has completed what its requests have done. -/
theorem completed_of_isDone (hok : ∀ c m, ok c m → Frontend.Lossless c m) (h₀ : Run Any s₀)
    (h : frontend.Reaches ok (.start s₀ p) c) (hdone : c.rest.Done)
    (hsaves : ∀ e ∈ c.log, e.1.saves = true → e.1 = form.saveCall auth input)
    (hisDone : form.IsDone auth input c) : form.Completed auth input c.log := by
  obtain ⟨user, id, -, hsaved, hid, hmade⟩ := hisDone
  refine ⟨id, ?_, fun hchecked => ?_⟩
  · -- What the call tells of that returned is a save, and a form makes no save but its own.
    obtain ⟨o, v, hmem, htells⟩ := exists_returned hok h₀ h hdone hsaved
    cases form with
    | new =>
      cases o with
      | post title content idToken =>
        obtain ⟨user', -, heq⟩ := htells
        cases heq
        cases hsaves _ hmem rfl
        exact hmem
      | put _ _ _ _ =>
        obtain ⟨_, -, heq⟩ := htells
        cases heq
      | _ => cases htells
    | edit articleId =>
      cases o with
      | post _ _ _ =>
        obtain ⟨_, -, heq⟩ := htells
        cases heq
      | put articleId' title content idToken =>
        cases hsaves _ hmem rfl
        exact ⟨hid articleId rfl, hmem⟩
      | _ => cases htells
  · -- Only the mint of an article is told of by a mint.
    obtain ⟨o, v, hmem, htells⟩ := exists_returned hok h₀ h hdone (hmade hchecked)
    cases o with
    | post _ _ _ | put _ _ _ _ =>
      obtain ⟨_, -, heq⟩ := htells
      cases heq
    | postNft articleId address signature =>
      cases htells
      exact ⟨address, signature, hmem⟩
    | _ => cases htells

end

end

/-! A user registers a wallet; then the user posts an article, and has it tokenized. -/

section

attribute [local instance] Hardhat.environment authorPool

open Hardhat

/-- The user `author` has signed in. -/
def authorAuth : AuthContext where
  user := ⟨"author"⟩
  session := ⟨"token"⟩
  attributes := ⟨"author@example.com", none, none, none⟩
  userWalletAddress := some author.string

/-- What the form is filled with in the example, with its switch on. -/
def articleInput : ArticleInput := ⟨"title", "content", true⟩

/-- The form, when the wallet is connected. -/
def authorForm : ArticleProg Ending := submit .new authorAuth ⟨true, author.string⟩ articleInput

/-- No response is lost. -/
def isLossless (c : FormSession) : frontend.Move → Bool
  | .answer _ => c.waiting == none
  | _ => true

/-- The decision procedure is right. -/
theorem lossless_of_isLossless (c : FormSession) (m : frontend.Move) (h : isLossless c m = true) :
    Frontend.Lossless c m := by
  cases m with
  | answer ch => exact beq_iff_eq.1 h
  | _ => trivial

/-- The request 0 registers the wallet, 1 creates the article, and 2 tokenizes it. -/
def postAndMint : List frontend.Move :=
  (register 0).map .serve ++ [.send] ++
    (steps 1 [.id articleID, .id "document_01", .ok]).map .serve ++
    [.receive, .answer .item, .answer (.signed signature), .send] ++
    (mint 2 ++ storeToken 2).map .serve ++ [.receive]

end

end ArticleForm

end Knowtfolio.Client
