import Knowtfolio.Interaction.Component

/-!
# The user who is signed in

`client/src/components/organisms/providers/AuthProvider`: who is signed in is known to the
user pool, as it is stored in the browser. The provider loads the session, the attributes
and the address of the current user when it starts, when the storage is changed, and after
navigations that ask for it. If there is no current user it shows so at once. A load that
succeeds shows its user, whoever is signed in by then, and one that fails leaves what was
shown.

So long as every load that ends while none of the current user is to come is one of the
current user, or fails while nobody else is shown, nobody else is shown once all loads have
ended (`showsCurrentUser`).
-/

namespace Knowtfolio.Client

open Interaction

/-! ## What is loaded -/

/-- `CognitoUser`. -/
structure CognitoUser where
  username : String
  deriving DecidableEq

/-- `CognitoUserSession`, with the text of its token. -/
structure CognitoUserSession where
  idToken : String
  deriving DecidableEq

/-- `CognitoUserAttribute`. -/
structure CognitoUserAttribute where
  name : String
  value : String
  deriving DecidableEq

/-- What a callback gets as an error. It may be an `Error`, or something else. -/
structure CallbackErr where
  isError : Bool
  message : String
  json : String

/-- `err.message || JSON.stringify(err)`. -/
def CallbackErr.reason (err : CallbackErr) : String :=
  if err.message ≠ "" then err.message else err.json

/-- `GetItemCommandInput`. -/
structure GetItemCommandInput where
  tableName : String
  type : String
  key : String

/-- The calls of a load. -/
inductive AuthCall
  | getSession (user : CognitoUser)
  | getUserAttributes (user : CognitoUser)
  | getItem (idToken : String) (params : GetItemCommandInput)

/-- The answers of the user pool are what it gives to callbacks, that of the database is the
    value of the item. -/
def AuthCall.Ans : AuthCall → Type
  | getSession _ => Option CallbackErr × Option CognitoUserSession
  | getUserAttributes _ => Option CallbackErr × Option (List CognitoUserAttribute)
  | getItem _ _ => Except String (Option String)

/-- What the provider asks Cognito and DynamoDB. -/
abbrev authCalls : Signature := ⟨AuthCall, AuthCall.Ans⟩

/-- A part of a load. What it throws is a text. -/
abbrev AuthProg := Program authCalls String

/-- `loadSession`. Only an `Error` is one; otherwise the session is taken, if there is one. -/
def loadSession (cognitoUser : CognitoUser) : AuthProg (Option CognitoUserSession) :=
  Program.ask (S := authCalls) (.getSession cognitoUser) fun answer =>
    match answer.1 with
    | some err => if err.isError then .throw err.reason else .ret answer.2
    | none => .ret answer.2

/-- `loadAttributes`. -/
def loadAttributes (cognitoUser : CognitoUser) : AuthProg (List CognitoUserAttribute) :=
  Program.ask (S := authCalls) (.getUserAttributes cognitoUser) fun answer =>
    match answer.1, answer.2 with
    | some err, _ => .throw err.reason
    | none, some attributes => .ret attributes
    | none, none => .throw "no attributes"

/-- `fetchWalletAddress`, by a client that has the token. -/
def fetchWalletAddress (idToken userId : String) : AuthProg (Option String) :=
  Program.ask (S := authCalls)
    (.getItem idToken ⟨"knowtfolio", "user_id_to_wallet_address", userId⟩) Program.ofExcept

/-- `UserAttributes`. -/
structure UserAttributes where
  email : String
  website : Option String
  description : Option String
  picture : Option String
  deriving DecidableEq

/-- `AuthContext`. -/
structure AuthContext where
  user : CognitoUser
  session : CognitoUserSession
  attributes : UserAttributes
  userWalletAddress : Option String
  deriving DecidableEq

/-- The value of the first attribute of the name. -/
def attributeValue (attributes : List CognitoUserAttribute) (name : String) : Option String :=
  (attributes.find? fun atr => atr.name = name).map CognitoUserAttribute.value

namespace AuthProvider

/-- `loadCurrentUser`, of the current user that the pool has when it is called: what is shown
    in the end. -/
def loadCurrentUser : Option CognitoUser → AuthProg (Option AuthContext)
  | none => .ret none
  | some cognitoUser => do
    let session ← loadSession cognitoUser
    let attributes ← loadAttributes cognitoUser
    match session with
    -- There is no token to be had of no session.
    | none => .throw "TypeError"
    | some session =>
      let userWalletAddress ← fetchWalletAddress session.idToken cognitoUser.username
      match (attributeValue attributes "email").filter fun email => email ≠ "" with
      | none => .throw "Email is not registered."
      | some email => pure (some {
          user := cognitoUser
          session := session
          attributes := {
            email := email
            website := attributeValue attributes "website"
            description := attributeValue attributes "custom:description"
            picture := attributeValue attributes "picture" }
          userWalletAddress := userWalletAddress })

/-! ## The component -/

/-- The state of the provider, with that of the user pool. -/
structure State where
  auth : Option AuthContext
  hasLoadedSession : Bool
  alerts : List String
  /-- `userPool.getCurrentUser()`. -/
  currentUser : Option CognitoUser
  /-- A load was started since the current user has changed. -/
  announced : Bool

/-- Somebody signs in or out, in this window or another; the storage is changed in another
    window; the location changes. -/
inductive Event
  | sign (user : Option CognitoUser)
  | storage
  | navigate (shouldLoadCurrentUser : Bool)

/-- What is open in the answers. -/
inductive Choice
  | session (err : Option CallbackErr) (session : Option CognitoUserSession)
  | attributes (err : Option CallbackErr) (result : Option (List CognitoUserAttribute))
  | item (result : Except String (Option String))

/-- The answer of a call. -/
def answer : (o : AuthCall) → Choice → Option o.Ans
  | .getSession _, .session err session => some (err, session)
  | .getUserAttributes _, .attributes err result => some (err, result)
  | .getItem _ _, .item result => some result
  | _, _ => none

namespace State

/-- A load of the current user is started. -/
def load (s : State) : State × Option (Option CognitoUser) :=
  ({ s with announced := true }, some s.currentUser)

/-- The state after an event, and the load that is started. -/
def handle (s : State) : Event → Option (State × Option (Option CognitoUser))
  | .sign user => some ({ s with currentUser := user, announced := false }, none)
  | .storage => some s.load
  | .navigate shouldLoadCurrentUser => if shouldLoadCurrentUser then some s.load else some (s, none)

/-- What the end of a load sets. -/
def finish (s : State) (_ : Option CognitoUser) : Except String (Option AuthContext) → State
  | .ok auth => { s with auth := auth, hasLoadedSession := true }
  | .error _ =>
    { s with alerts := s.alerts ++ ["正常にログインできませんでした。"], hasLoadedSession := true }

end State

/-- The component. -/
abbrev component : Component authCalls String where
  State := State
  Event := Event
  Call := Option CognitoUser
  Result := Option AuthContext
  Choice := Choice
  handle := State.handle
  program := loadCurrentUser
  finish := State.finish
  answer := answer

/-- The provider as it starts, with the current user of the pool. -/
def mounted (user : Option CognitoUser) : component.Config :=
  .mount ⟨none, false, [], user, true⟩ user

/-- Nobody is shown but the current user. -/
def Right (c : component.Config) : Prop :=
  ∀ auth ∈ c.state.auth, c.state.currentUser = some auth.user

/-- All loads have ended, and one was started since the current user has changed. -/
def Settled (c : component.Config) : Prop := c.Quiet ∧ c.state.announced = true

/-- What is to be so for nobody else to be shown after the end of a load: it succeeds, and is
    one of the current user, or it fails, and nobody else is shown already. -/
def EndsRight (c : component.Config) (e : component.End) : Prop :=
  match e.result with
  | .ok _ => ∀ cognitoUser ∈ e.call, c.state.currentUser = some cognitoUser
  | .error _ => Right c

/-- The end of a load is right, where no other load of the current user is to come. -/
def EndsWell (c : component.Config) (e : component.End) : Prop :=
  c.state.announced = true → ¬ c.OtherUnderWay e.number c.state.currentUser → EndsRight c e

/-- If a load ends by the move, it ends well. -/
def KeepsRight (c : component.Config) (m : component.Move) : Prop :=
  ∀ e ∈ c.ending m, EndsWell c e

instance (c : component.Config) : Decidable (Right c) :=
  inferInstanceAs (Decidable (∀ auth ∈ c.state.auth, c.state.currentUser = some auth.user))

instance (c : component.Config) : Decidable (Settled c) := inferInstanceAs (Decidable (_ ∧ _))

instance (c : component.Config) : DecidablePred (EndsRight c)
  | ⟨_, call, .ok _⟩ => inferInstanceAs (Decidable (∀ u ∈ call, c.state.currentUser = some u))
  | ⟨_, _, .error _⟩ => inferInstanceAs (Decidable (Right c))

instance (c : component.Config) : DecidablePred (EndsWell c) := fun e =>
  inferInstanceAs (Decidable (_ → ¬ c.OtherUnderWay e.number c.state.currentUser → EndsRight c e))

instance (c : component.Config) : DecidablePred (KeepsRight c) := fun m =>
  inferInstanceAs (Decidable (∀ e ∈ c.ending m, EndsWell c e))

/-! ## Loads -/

section

variable {ok : component.Config → component.Move → Prop} {u user : Option CognitoUser}
  {c : component.Config}

/-- A load that succeeds shows its own user. -/
theorem user_of_runs {cognitoUser : CognitoUser} {shown : Option AuthContext}
    (h : Program.Runs component.exec () (loadCurrentUser (some cognitoUser)) (.ok shown) ()) :
    ∃ auth, shown = some auth ∧ auth.user = cognitoUser := by
  rw [loadCurrentUser, Program.runs_bind] at h
  obtain ⟨session, _, -, h⟩ | ⟨e, -, h⟩ := h
  · rw [Program.runs_bind] at h
    obtain ⟨attributes, _, -, h⟩ | ⟨e, -, h⟩ := h
    · cases session with
      | none => simp at h
      | some session =>
        rw [Program.runs_bind] at h
        obtain ⟨userWalletAddress, _, -, h⟩ | ⟨e, -, h⟩ := h
        · split at h
          · simp at h
          · cases h
            exact ⟨_, rfl, rfl⟩
        · cases h
    · cases h
  · cases h

/-- What a load shows is the user that it is of. -/
theorem shown_of_runs {shown : Option AuthContext}
    (h : Program.Runs component.exec () (loadCurrentUser user) (.ok shown) ()) :
    shown.map AuthContext.user = user := by
  cases user with
  | none =>
    cases h
    rfl
  | some cognitoUser =>
    obtain ⟨auth, rfl, rfl⟩ := user_of_runs h
    rfl

/-- A load of a user asks for the session first. -/
theorem not_done_loadCurrentUser (cognitoUser : CognitoUser) :
    ¬ (loadCurrentUser (some cognitoUser)).Done := id

/-! ## Who is shown -/

section

variable {i : ℕ} {p : AuthProg (Option AuthContext)}

/-- The end of a call does not change whose session it is. -/
theorem currentUser_settle : (c.settle i user p).state.currentUser = c.state.currentUser :=
  Component.Config.view_settle (C := component) State.currentUser fun s user r => by cases r <;> rfl

/-- The end of a call announces no other user. -/
theorem announced_settle : (c.settle i user p).state.announced = c.state.announced :=
  Component.Config.view_settle (C := component) State.announced fun s user r => by cases r <;> rfl

/-- Who is shown after the end of a load. -/
theorem right_settle {r : Except String (Option AuthContext)} (hp : p.outcome = some r)
    (hr : Program.Runs component.exec () (loadCurrentUser user) r ()) :
    Right (c.settle i user p) ↔ EndsRight c ⟨i, user, r⟩ := by
  rw [Component.Config.settle_of_outcome hp]
  cases r with
  | ok shown =>
    have hshown := shown_of_runs hr
    subst hshown
    cases shown with
    | none => exact iff_of_true nofun nofun
    | some auth => simp [Right, EndsRight, State.finish]
  | error e => exact Iff.rfl

end

/-- Nobody is shown but the current user, or a load is to come, or has still to be started. -/
def Expected (c : component.Config) : Prop :=
  c.state.announced = true → Right c ∨ c.UnderWay c.state.currentUser

/-- While a load of the current user is to come, all is as expected. -/
theorem expected_start : Expected (c.start c.state.currentUser) := by
  intro _
  have hcurrent : (c.start c.state.currentUser).state.currentUser = c.state.currentUser :=
    currentUser_settle
  cases huser : c.state.currentUser with
  | none => exact .inl nofun
  | some cognitoUser =>
    rw [huser] at hcurrent
    rw [hcurrent]
    exact .inr (Component.Config.underWay_start.2
      (.inr ⟨rfl, not_done_loadCurrentUser cognitoUser⟩))

/-- Events keep the provider as expected: one that it sees starts a load of the current user, and
    one that it does not see is not announced. -/
theorem expected_handled (hc : Expected c) {e : Event} {s : State}
    {call : Option (Option CognitoUser)} (hs : c.state.handle e = some (s, call)) :
    Expected (c.handled s call) := by
  have hload : Expected (c.handled c.state.load.1 c.state.load.2) :=
    expected_start (c := ⟨c.state.load.1, c.tasks, c.ended⟩)
  cases e with
  | sign user =>
    cases hs
    exact nofun
  | storage =>
    cases hs
    exact hload
  | navigate shouldLoadCurrentUser =>
    cases shouldLoadCurrentUser with
    | true =>
      cases hs
      exact hload
    | false =>
      cases hs
      exact hc

section

variable {i : ℕ} {ch : Choice} {o : AuthCall} {k : o.Ans → AuthProg (Option AuthContext)}
  {a : o.Ans} {r : Except String (Option AuthContext)}

/-- The result of a load that ends is one of its program. -/
theorem runs_of_resume (h : Component.Reaches ok (mounted u) c)
    (ht : c.tasks[i]? = some ⟨user, .ask o k⟩) (ha : answer o ch = some a)
    (hp : (k a).outcome = some r) :
    Program.Runs component.exec () (loadCurrentUser user) r () := by
  have hexec : component.exec () o ch = some (a, ()) := by
    rw [Component.exec]
    exact congrArg _ ha
  exact h.runs_of_task _ (List.mem_of_getElem? ht) r (.ask hexec (Program.runs_of_outcome hp))

/-- What is shown after a load has ended is right exactly if that load ends right. -/
theorem right_resume (h : Component.Reaches ok (mounted u) c)
    (ht : c.tasks[i]? = some ⟨user, .ask o k⟩) (ha : answer o ch = some a)
    (hp : (k a).outcome = some r) :
    Right (c.resume i user (k a)) ↔ EndsRight c ⟨i, user, r⟩ :=
  right_settle (c := ⟨c.state, _, c.ended⟩) hp (runs_of_resume h ht ha hp)

/-- A load that ends right keeps the provider as expected. -/
theorem expected_resume (h : Component.Reaches ok (mounted u) c) (hc : Expected c)
    (hkeeps : KeepsRight c (.resume i ch)) (ht : c.tasks[i]? = some ⟨user, .ask o k⟩)
    (ha : answer o ch = some a) : Expected (c.resume i user (k a)) := by
  intro hannounced
  rw [Component.Config.resume, announced_settle] at hannounced
  have hcurrent : (c.resume i user (k a)).state.currentUser = c.state.currentUser :=
    currentUser_settle
  by_cases hother : c.OtherUnderWay i c.state.currentUser
  · refine .inr ?_
    rw [hcurrent]
    exact (Component.Config.underWay_resume ht).2 (.inr hother)
  cases hp : (k a).outcome with
  | some r =>
    refine .inl ((right_resume h ht ha hp).2 (hkeeps ⟨i, user, r⟩ ?_ hannounced hother))
    rw [Component.Config.ending_resume ht ha, hp]
    rfl
  | none =>
    -- The load goes on, and nothing is set.
    have hgoes : ¬ (k a).Done := Program.not_done_of_outcome hp
    rcases hc hannounced with hright | hunder
    · refine .inl ?_
      rw [Component.Config.resume, Component.Config.settle_of_none hp]
      exact hright
    · refine .inr ?_
      rw [hcurrent]
      rcases Component.Config.underWay_cases ht hunder with huser | hunder
      · exact (Component.Config.underWay_resume ht).2 (.inl ⟨huser, hgoes⟩)
      · exact absurd hunder hother

/-- A load for which there is no current user asks nothing. -/
theorem user_ne_none (h : Component.Reaches ok (mounted u) c)
    (ht : c.tasks[i]? = some ⟨user, .ask o k⟩) : user ≠ none := by
  intro huser
  have hdone : ∀ t ∈ c.tasks, t.call = none → t.rest.Done := by
    refine h.of_task (P := fun (user : Option CognitoUser) p => user = none → p.Done) ?_ ?_
    · intro user huser
      rw [huser]
      trivial
    · intro user o k ch a hask _ huser
      exact (hask huser).elim
  exact hdone _ (List.mem_of_getElem? ht) huser

/-- Somebody else is shown, and no load of the current user is to come. -/
structure Lost (c : component.Config) : Prop where
  announced : c.state.announced = true
  not_underWay : ¬ c.UnderWay c.state.currentUser
  not_right : ¬ Right c

/-- After a load that does not end right, the provider is lost: nothing is under way any more that
    would put it right. -/
theorem lost_of_not_keepsRight (h : Component.Reaches ok (mounted u) c)
    (hkeeps : ¬ KeepsRight c (.resume i ch)) (ht : c.tasks[i]? = some ⟨user, .ask o k⟩)
    (ha : answer o ch = some a) : Lost (c.resume i user (k a)) := by
  rw [KeepsRight, Component.Config.ending_resume ht ha] at hkeeps
  cases hp : (k a).outcome with
  | none =>
    rw [hp] at hkeeps
    exact absurd nofun hkeeps
  | some r =>
    rw [hp] at hkeeps
    simp only [Option.map_some, Option.mem_some_iff, forall_eq', EndsWell, not_forall] at hkeeps
    obtain ⟨hannounced, hother, hends⟩ := hkeeps
    refine ⟨announced_settle.trans hannounced, ?_, fun hright => ?_⟩
    · rw [Component.Config.resume, currentUser_settle]
      intro hunder
      rcases (Component.Config.underWay_resume ht).1 hunder with ⟨-, hgoes⟩ | hunder
      · exact hgoes (Program.done_of_outcome hp)
      · exact hother hunder
    · exact hends ((right_resume h ht ha hp).1 hright)

/-- What is lost stays so, whatever is answered. -/
theorem lost_resume (h : Component.Reaches ok (mounted u) c) (hc : Lost c)
    (ht : c.tasks[i]? = some ⟨user, .ask o k⟩) (ha : answer o ch = some a) :
    Lost (c.resume i user (k a)) := by
  have huser : user ≠ c.state.currentUser := fun huser =>
    hc.not_underWay ⟨_, List.mem_of_getElem? ht, huser, id⟩
  -- The answer is to a load of another user than the current one, of whom none is under way.
  refine ⟨announced_settle.trans hc.announced, ?_, fun hright => ?_⟩
  · rw [Component.Config.resume, currentUser_settle]
    intro hunder
    rcases (Component.Config.underWay_resume ht).1 hunder with ⟨heq, -⟩ | hunder
    · exact huser heq
    · exact hc.not_underWay (Component.Config.underWay_of_other hunder)
  · cases hp : (k a).outcome with
    | none =>
      rw [Component.Config.resume, Component.Config.settle_of_none hp] at hright
      exact hc.not_right hright
    | some r =>
      have hends := (right_resume h ht ha hp).1 hright
      cases r with
      | error e => exact hc.not_right hends
      | ok shown =>
        obtain ⟨cognitoUser, rfl⟩ := Option.ne_none_iff_exists'.1 (user_ne_none h ht)
        exact huser (hends cognitoUser rfl).symm

end

/-- In every run whose loads end right, the provider is as expected. -/
theorem expected (h : Component.Reaches KeepsRight (mounted u) c) : Expected c := by
  refine h.induction Expected (expected_start (c := ⟨⟨none, false, [], u, true⟩, [], []⟩)) ?_ ?_
  · intro c e s call _ hc _ hs
    exact expected_handled hc hs
  · intro c i ch user o k a h hc hkeeps ht ha
    exact expected_resume h hc hkeeps ht ha

/-- Once all loads have ended, nobody else is to come. -/
theorem Expected.right (hc : Expected c) (hsettled : Settled c) : Right c := by
  rcases hc hsettled.2 with hright | hunder
  · exact hright
  · exact absurd hunder (Component.Config.not_underWay_of_quiet hsettled.1)

/-- If a load does not end well, somebody else is shown, until something else happens than
    that loads are answered. -/
theorem lost {m : component.Move} {c' c'' : component.Config}
    (h : Component.Reaches ok (mounted u) c) (hkeeps : ¬ KeepsRight c m) (hn : c.next m = some c')
    (h' : Component.Reaches Component.OnlyAnswers c' c'') : Lost c'' := by
  refine h'.induction Lost ?_ (fun _ _ _ _ _ _ hno _ => absurd hno id) ?_
  · cases m with
    | event e => exact absurd nofun hkeeps
    | resume i ch =>
      obtain ⟨user, o, k, a, ht, ha, rfl⟩ := Component.Config.next_resume hn
      exact lost_of_not_keepsRight h hkeeps ht ha
  · intro c₁ i ch user o k a h₁ hc _ ht ha
    exact lost_resume ((h.any.move trivial hn).trans h₁.any) hc ht ha

/-- In a run in which loads end well, nobody is shown but the current user once all loads have
    ended. After a load that does not end well, somebody else is, unless something happens
    before. -/
theorem showsCurrentUser (u : Option CognitoUser) :
    (∀ c, Component.Reaches KeepsRight (mounted u) c → Settled c → Right c) ∧
      ∀ c m c' c'', Component.Reaches KeepsRight (mounted u) c → ¬ KeepsRight c m →
        c.next m = some c' → Component.Reaches Component.OnlyAnswers c' c'' → ¬ Right c'' :=
  ⟨fun _ h hsettled => (expected h).right hsettled,
    fun _ _ _ _ h hkeeps hn h' => (lost h hkeeps hn h').not_right⟩

end

/-! A user who signs out while the address of the wallet is loaded. -/

section

def alice : CognitoUser := ⟨"alice"⟩

/-- The load of a user, up to the answer of the database. -/
def loading : List component.Move :=
  [.resume 0 (.session none (some ⟨"token"⟩)),
    .resume 0 (.attributes none (some [⟨"email", "alice@example.com"⟩]))]

/-- The answer of the database. -/
def loaded : component.Move := .resume 0 (.item (.ok none))

/-- The user signs out, and this is announced. -/
def signingOut : List component.Move := [.event (.sign none), .event .storage]

/-- A load that has ended before the user signs out is superseded, and one that ends after it
    is not. -/
theorem showsCurrentUser_alice :
    (∃ c, Component.Reaches KeepsRight (mounted (some alice)) c ∧ c.state.alerts = [] ∧
      Settled c ∧ Right c) ∧
    ∃ c c', Component.Reaches KeepsRight (mounted (some alice)) c ∧ ¬ KeepsRight c loaded ∧
      c.next loaded = some c' ∧ ¬ Right c' := by
  constructor
  · obtain ⟨c, hc, hp⟩ := Trace.Reaches.exists_of_run Component.Config.next
      (fun c m => decide (KeepsRight c m)) (loading ++ [loaded] ++ signingOut)
      (mounted (some alice)) (fun c => c.state.alerts = [] ∧ Settled c) (by decide +kernel)
    have hreaches := hc.mono fun _ _ => of_decide_eq_true
    obtain ⟨halerts, hsettled⟩ := of_decide_eq_true hp
    exact ⟨c, hreaches, halerts, hsettled, (showsCurrentUser _).1 c hreaches hsettled⟩
  · obtain ⟨c, hc, hp⟩ := Trace.Reaches.exists_of_run Component.Config.next
      (fun c m => decide (KeepsRight c m)) (loading ++ signingOut) (mounted (some alice))
      (fun c => (¬ KeepsRight c loaded) ∧ (c.next loaded).isSome) (by decide +kernel)
    have hreaches := hc.mono fun _ _ => of_decide_eq_true
    obtain ⟨hkeeps, hnext⟩ := of_decide_eq_true hp
    obtain ⟨c', hn⟩ := Option.isSome_iff_exists.1 hnext
    exact ⟨c, c', hreaches, hkeeps, hn, (showsCurrentUser _).2 c _ c' c' hreaches hkeeps hn .refl⟩

/-- The user who has signed out is shown, once the load has ended. -/
theorem not_showsCurrentUser : ¬ ∀ u c, Component.Reaches Trace.Any (mounted u) c →
    Settled c → Right c := by
  intro h
  obtain ⟨c, hc, hp⟩ := Trace.Reaches.exists_of_run Component.Config.next (fun _ _ => true)
    (loading ++ signingOut ++ [loaded]) (mounted (some alice)) (fun c => Settled c ∧ ¬ Right c)
    (by decide +kernel)
  obtain ⟨hsettled, hright⟩ := of_decide_eq_true hp
  exact hright (h _ c hc.any hsettled)

end

end AuthProvider

end Knowtfolio.Client
