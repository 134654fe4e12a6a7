import Knowtfolio.Interaction.Trace
import Knowtfolio.Server.AddressBook
import Knowtfolio.Server.Hardhat
import Knowtfolio.Server.Runs

/-!
# Signing in with a wallet

The triggers of the user pool for its custom authentication, in
`infrastructure/function_scripts/cmd`: `define_auth_challenge` decides what comes next,
given the challenges that were answered so far; `create_auth_challenge` makes a text to
be signed, with a nonce; and `verify_auth_challenge_response` checks the signature. None
of them keeps anything: all they know of each other is what Cognito hands them, the
session and the private parameters of the latest challenge (`SignIn.Config`).

Whatever the order of the triggers and the answers of the client, and whatever happens
on the server meanwhile, tokens are issued only for a signature of the address that was
registered when it was verified, over the nonce of the same round
(`SignIn.issueTokens_only_signed`).

Assumed is of Cognito that it hands the private parameters of the latest challenge to
the verification, and adds the name of the challenge and the result to the session.
-/

namespace Knowtfolio

open Interaction

/-! ## The triggers -/

/-- `events.CognitoEventUserPoolsChallengeResult`. -/
structure ChallengeResult where
  challengeName : String
  challengeResult : Bool
  deriving DecidableEq

/-- The name of the challenges that the triggers make and verify. -/
def customChallenge : String := "CUSTOM_CHALLENGE"

/-- `events.CognitoEventUserPoolsDefineAuthChallengeResponse`. -/
structure DefineAuthChallengeResponse where
  challengeName : String
  issueTokens : Bool
  failAuthentication : Bool
  deriving DecidableEq

/-- `events.CognitoEventUserPoolsDefineAuthChallenge`. -/
structure DefineAuthChallenge where
  userName : String
  session : List ChallengeResult
  response : DefineAuthChallengeResponse
  deriving DecidableEq

/-- The event with another response. -/
def DefineAuthChallenge.respond (event : DefineAuthChallenge)
    (f : DefineAuthChallengeResponse → DefineAuthChallengeResponse) : DefineAuthChallenge :=
  { event with response := f event.response }

/-- The part of `defineAuthChallenge` before the first challenge. -/
def defineFirstChallenge (event : DefineAuthChallenge) : Prog DefineAuthChallenge :=
  Program.handle (fun
      | .err e =>
        -- The address is not registered.
        if e.isItemNotFound then pure (event.respond ({ · with failAuthentication := true }))
        else .throw (.err e)
      | .panic m => .throw (.panic m)) do
    let _ ← getAddressByID event.userName
    pure (event.respond ({ · with challengeName := customChallenge }))

/-- `handler` of `define_auth_challenge`. -/
def defineAuthChallenge (event : DefineAuthChallenge) : Prog DefineAuthChallenge :=
  match event.session.getLast? with
  | none => defineFirstChallenge event
  | some last =>
    if last.challengeName = customChallenge then
      if last.challengeResult then pure (event.respond ({ · with issueTokens := true }))
      else pure (event.respond ({ · with failAuthentication := true }))
    else defineFirstChallenge event

/-- A `map[string]string`. -/
abbrev Parameters := List (String × String)

/-- The value of a key, which is empty if there is none. -/
def Parameters.get (params : Parameters) (key : String) : String := (params.lookup key).getD ""

/-- What `create_auth_challenge` sets of its response. -/
structure CreateAuthChallengeResponse where
  publicChallengeParameters : Parameters
  privateChallengeParameters : Parameters
  deriving DecidableEq

/-- The message that is signed with a nonce. -/
def signInMessage : String := "Sign in to Knowtfolio."

/-- The response with a nonce. -/
def challengeOf (nonce : Hash) : CreateAuthChallengeResponse where
  publicChallengeParameters := [("sign_message", generateSignData signInMessage nonce)]
  privateChallengeParameters := [("message", signInMessage), ("nonce", nonce.hex)]

/-- `handler` of `create_auth_challenge`. -/
def createAuthChallenge : Prog CreateAuthChallengeResponse := do
  let nonce ← mapErr (fun _ => .text "could not generate nonce") (call .generateNonce)
  pure (challengeOf nonce)

/-- What a client sends for an answer. -/
inductive ChallengeAnswer
  | string (s : String)
  | other
  deriving DecidableEq

/-- `events.CognitoEventUserPoolsVerifyAuthChallenge`. -/
structure VerifyAuthChallenge where
  userName : String
  privateChallengeParameters : Parameters
  challengeAnswer : ChallengeAnswer
  answerCorrect : Bool
  deriving DecidableEq

section

variable [Crypto]

/-- `handler` of `verify_auth_challenge_response`. -/
def verifyAuthChallengeResponse (event : VerifyAuthChallenge) : Prog VerifyAuthChallenge := do
  let address ← getAddressByID event.userName
  match event.challengeAnswer with
  | .other => .throw (.panic "interface conversion: interface \x7b\x7d is not string")
  | .string sign =>
    let message := event.privateChallengeParameters.get "message"
    let nonce := hexToHash (event.privateChallengeParameters.get "nonce")
    match verifySignature address.string sign message (some nonce) with
    | .ok () => pure { event with answerCorrect := true }
    | .error (.err _) => pure event
    | .error (.panic m) => .throw (.panic m)

end

/-! ## The protocol -/

section

variable [Environment]

namespace SignIn

/-- The server, and what Cognito keeps of an authentication. -/
structure Config where
  system : server.Config
  session : List ChallengeResult
  /-- The private parameters of the latest challenge, if it was made. -/
  privateChallengeParameters : Option Parameters

/-- What happens next. A trigger makes one call at most, which is answered as the choice
    says. -/
inductive Move
  /-- A registration of an address, or anything else that happens on the server. -/
  | server (m : server.Move)
  | define (choice : Choice)
  | create (choice : Choice)
  | verify (challengeAnswer : ChallengeAnswer) (choice : Choice)
  /-- A challenge of Cognito itself is answered. -/
  | other (entry : ChallengeResult)

namespace Config

/-- No challenge has been made yet. -/
def start (s : server.Config) : Config := ⟨s, [], none⟩

/-- The address that is registered for a user. -/
def address (c : Config) (user : String) : Option Address :=
  (c.system.world.lookup .userIDToWalletAddress user).map hexToAddress

/-- The result of a trigger, and what it leaves of the server. -/
def invoke {α : Type} (c : Config) (p : Prog α) (choice : Choice) :
    Option (Except Fault α × server.Config) :=
  (Program.run World.exec c.system.world p [choice]).map fun rw =>
    (rw.1, { c.system with world := rw.2 })

/-- The event that Cognito invokes `define_auth_challenge` with. -/
def defineEvent (user : String) (c : Config) : DefineAuthChallenge :=
  ⟨user, c.session, "", false, false⟩

/-- The entry that Cognito adds for an answer that was verified. -/
def entryOf : Except Fault VerifyAuthChallenge → List ChallengeResult
  | .ok event => [⟨customChallenge, event.answerCorrect⟩]
  | .error _ => []

/-- The configuration after a move, if the move is possible. -/
def next (user : String) (c : Config) : Move → Option Config
  | .server m => (c.system.next m).map fun s => { c with system := s }
  | .define choice =>
    (c.invoke (defineAuthChallenge (c.defineEvent user)) choice).map fun rs =>
      { c with system := rs.2 }
  | .create choice =>
    (c.invoke createAuthChallenge choice).map fun rs =>
      { c with
        system := rs.2
        privateChallengeParameters := rs.1.toOption.map (·.privateChallengeParameters) }
  | .verify challengeAnswer choice =>
    c.privateChallengeParameters.bind fun params =>
      (c.invoke (verifyAuthChallengeResponse ⟨user, params, challengeAnswer, false⟩) choice).map
        fun rs => { c with system := rs.2, session := c.session ++ entryOf rs.1 }
  | .other entry =>
    if entry.challengeName = customChallenge then none
    else some { c with session := c.session ++ [entry] }

end Config

/-- A challenge of a trace, whose answer, a text, was verified and is the last one in the
    session. -/
structure Round (user : String) (c₀ : Config) (moves : List Move) (c : Config) where
  before : List Move
  nonce : Hash
  between : List Move
  sign : String
  choice : Choice
  after : List Move
  /-- The configuration in which the answer was verified. -/
  verified : Config
  moves_eq : moves = before ++ .create (.nonce nonce) :: between ++
    .verify (.string sign) choice :: after
  between_ne_create : ∀ choice, .create choice ∉ between
  run_eq : Trace.run (Config.next user) c₀ (before ++ .create (.nonce nonce) :: between) =
    some verified
  session_eq : c.session = verified.session ++ [⟨customChallenge, true⟩]

/-- The answer is a signature of the address that was registered then, over the text with
    the nonce. -/
def Round.Signed {user : String} {c₀ : Config} {moves : List Move} {c : Config}
    (round : Round user c₀ moves c) : Prop :=
  ∃ a, round.verified.address user = some a ∧
    recoverSigner round.sign (generateSignData signInMessage round.nonce) = some a

end SignIn

/-! ## What the triggers do -/

section

variable {w w' : World}

/-- The first challenge is to be made, or the authentication fails. -/
theorem runs_defineFirstChallenge {event : DefineAuthChallenge}
    {r : Except Fault DefineAuthChallenge}
    (h : Program.Runs World.exec w (defineFirstChallenge event) r w') :
    w' = w ∧ ∀ event', r = .ok event' →
      event' = event.respond ({ · with challengeName := customChallenge }) ∨
        event' = event.respond ({ · with failAuthentication := true }) := by
  -- The address is read, or it is not: the error decides whether the sign-in fails.
  rcases Program.runs_handle.1 h with ⟨a, hrun, rfl⟩ | ⟨e, w₁, hrun, herror⟩
  · rcases Program.runs_bind.1 hrun with ⟨_, w₁, haddress, hret⟩ | ⟨e, -, hret⟩
    · obtain ⟨rfl, -⟩ := runs_getAddressByID haddress
      obtain ⟨hret, rfl⟩ := Program.runs_ret.1 hret
      cases hret
      exact ⟨rfl, fun _ hevent => by cases hevent; exact .inl rfl⟩
    · cases hret
  · obtain rfl : w₁ = w := by
      rcases Program.runs_bind.1 hrun with ⟨_, w₂, -, hret⟩ | ⟨e', haddress, -⟩
      · cases (Program.runs_ret.1 hret).1
      · exact (runs_getAddressByID haddress).1
    cases e with
    | err e =>
      dsimp only at herror
      split_ifs at herror
      · obtain ⟨rfl, rfl⟩ := Program.runs_ret.1 herror
        exact ⟨rfl, fun _ hevent => by cases hevent; exact .inr rfl⟩
      · obtain ⟨rfl, rfl⟩ := Program.runs_throw.1 herror
        exact ⟨rfl, nofun⟩
    | panic m =>
      obtain ⟨rfl, rfl⟩ := Program.runs_throw.1 herror
      exact ⟨rfl, nofun⟩

/-- Tokens are issued if the last challenge is one of the triggers and was answered
    correctly, and only then; and then the authentication does not fail. -/
theorem runs_defineAuthChallenge {event : DefineAuthChallenge}
    {r : Except Fault DefineAuthChallenge}
    (h : Program.Runs World.exec w (defineAuthChallenge event) r w') :
    w' = w ∧ ∀ event', r = .ok event' →
      (event.session.getLast? = some ⟨customChallenge, true⟩ ∧
        event' = event.respond ({ · with issueTokens := true })) ∨
      event' = event.respond ({ · with challengeName := customChallenge }) ∨
        event' = event.respond ({ · with failAuthentication := true }) := by
  unfold defineAuthChallenge at h
  split at h
  next =>
    exact (runs_defineFirstChallenge h).imp_right fun hr event' hevent => .inr (hr event' hevent)
  next last hlast =>
    obtain ⟨challengeName, challengeResult⟩ := last
    dsimp only at h
    split_ifs at h with hname hresult
    · obtain ⟨rfl, rfl⟩ := Program.runs_ret.1 h
      exact ⟨rfl, fun _ hevent => by cases hevent; exact .inl ⟨by rw [hlast, hname, hresult], rfl⟩⟩
    · obtain ⟨rfl, rfl⟩ := Program.runs_ret.1 h
      exact ⟨rfl, fun _ hevent => by cases hevent; exact .inr (.inr rfl)⟩
    · exact (runs_defineFirstChallenge h).imp_right fun hr event' hevent => .inr (hr event' hevent)

/-- A nonce that is generated is the one of the challenge. -/
theorem run_createAuthChallenge {choice : Choice} {r : Except Fault CreateAuthChallengeResponse}
    (h : Program.run World.exec w createAuthChallenge [choice] = some (r, w')) :
    w'.items = w.items ∧ ∀ response, r = .ok response →
      ∃ n, choice = .nonce n ∧ response = challengeOf n := by
  cases choice with
  | nonce n =>
    obtain ⟨⟨a, w₁⟩, he, hret⟩ := Option.bind_eq_some_iff.1 h
    simp only [World.exec] at he
    split_ifs at he
    cases he
    cases hret
    exact ⟨rfl, fun _ hresponse => by cases hresponse; exact ⟨n, rfl, rfl⟩⟩
  | fail message =>
    cases h
    exact ⟨rfl, fun _ hresponse => by cases hresponse⟩
  | _ => cases h

/-- An answer is correct only if it is a signature of the address of the user. -/
theorem runs_verifyAuthChallengeResponse {event : VerifyAuthChallenge}
    {r : Except Fault VerifyAuthChallenge}
    (h : Program.Runs World.exec w (verifyAuthChallengeResponse event) r w') :
    w' = w ∧ ∀ event', r = .ok event' → event.answerCorrect = false →
      event'.answerCorrect = true → ∃ sign value, event.challengeAnswer = .string sign ∧
        w.lookup .userIDToWalletAddress event.userName = some value ∧
        recoverSigner sign (generateSignData (event.privateChallengeParameters.get "message")
          (hexToHash (event.privateChallengeParameters.get "nonce"))) =
            some (hexToAddress value) := by
  rcases Program.runs_bind.1 h with ⟨a, w₁, haddress, hverify⟩ | ⟨e, haddress, rfl⟩
  · obtain ⟨rfl, hvalue⟩ := runs_getAddressByID haddress
    obtain ⟨value, hmem, rfl⟩ := hvalue a rfl
    split at hverify
    next =>
      obtain ⟨rfl, rfl⟩ := Program.runs_throw.1 hverify
      exact ⟨rfl, nofun⟩
    next sign hsign =>
      dsimp only at hverify
      split at hverify
      -- The signature is one of the address that is registered, in its checksummed spelling.
      next hok =>
        obtain ⟨rfl, rfl⟩ := Program.runs_ret.1 hverify
        obtain ⟨a, hrecover, ha⟩ := verifySignature_eq_ok.1 hok
        rw [Address.string_inj] at ha
        exact ⟨rfl, fun _ _ _ _ => ⟨sign, value, hsign, World.lookup_eq_some.2 hmem, ha ▸ hrecover⟩⟩
      next =>
        obtain ⟨rfl, rfl⟩ := Program.runs_ret.1 hverify
        refine ⟨rfl, fun event' hevent hfalse htrue => ?_⟩
        cases hevent
        exact absurd htrue (by rw [hfalse]; nofun)
      next =>
        obtain ⟨rfl, rfl⟩ := Program.runs_throw.1 hverify
        exact ⟨rfl, nofun⟩
  · exact ⟨(runs_getAddressByID haddress).1, nofun⟩

/-- An address stays registered, whatever a request does. -/
theorem mem_items_of_asks {request : Request} {l : Log} {o : Op} {v : o.Val}
    (hasks : Asks request l o) (heff : World.Effect w o v w') {user value : String}
    (h : ⟨.userIDToWalletAddress, user, value⟩ ∈ w.items.rows) :
    ⟨.userIDToWalletAddress, user, value⟩ ∈ w'.items.rows := by
  cases o with
  | putItem item =>
    obtain ⟨_, _, _, userID, n, -, rfl, -⟩ := hasks.2
    obtain ⟨-, rfl⟩ := heff
    exact (Keyed.Table.mem_put_of_ne (by simp [Item.primaryKey])).2 h
  | transactWriteItems items =>
    obtain ⟨user', address, n, -, rfl, -⟩ := hasks.2
    exact ((World.mem_items_of_transact (by simp [userWalletItems, Item.primaryKey]) heff).2 _).2
      (.inl h)
  | _ => exact heff.changes.items rfl ▸ h

end

/-! ## Traces -/

namespace SignIn

variable {user : String} {s : server.Config} {c c' : Config} {moves : List Move} {m : Move}

namespace Config

/-- The requests in progress ask what they may ask. -/
def Asking (c : Config) : Prop := ∀ (i : ℕ) (t : server.Thread), c.system.threads[i]? = some t →
  t.rest.wp (Asks t.request) (Ends t.request) t.log

/-- A trigger is one program, run on the state of the system. -/
theorem invoke_eq_some {α : Type} {p : Prog α} {choice : Choice} {r : Except Fault α}
    (h : c.invoke p choice = some (r, s)) :
    ∃ w, Program.run World.exec c.system.world p [choice] = some (r, w) ∧
      s = { c.system with world := w } := by
  obtain ⟨⟨r', w⟩, hrun, hrs⟩ := Option.map_eq_some_iff.1 h
  cases hrs
  exact ⟨w, hrun, rfl⟩

/-- A trigger leaves the requests in progress and the address table as they were. -/
structure Kept (s s' : server.Config) : Prop where
  threads : s'.threads = s.threads
  items : s'.world.items = s.world.items

/-- What a move does. -/
inductive Effect (user : String) (c : Config) : Move → Config → Prop
  | server {m : server.Move} {s : server.Config} (hs : c.system.next m = some s) :
    Effect user c (.server m) { c with system := s }
  | define {choice : Choice} {s : server.Config} (hs : Kept c.system s) :
    Effect user c (.define choice) { c with system := s }
  | create {choice : Choice} {s : server.Config} {params : Option Parameters}
    (hs : Kept c.system s) (hparams : ∀ p ∈ params, ∃ n, choice = .nonce n ∧
      p = (challengeOf n).privateChallengeParameters) :
    Effect user c (.create choice) ⟨s, c.session, params⟩
  | verify {challengeAnswer : ChallengeAnswer} {choice : Choice} {s : server.Config}
    {params : Parameters} {correct : Bool} (hs : Kept c.system s)
    (hparams : c.privateChallengeParameters = some params)
    (hcorrect : correct = true → ∃ sign a, challengeAnswer = .string sign ∧
      c.address user = some a ∧ recoverSigner sign (generateSignData (params.get "message")
        (hexToHash (params.get "nonce"))) = some a) :
    Effect user c (.verify challengeAnswer choice)
      { c with system := s, session := c.session ++ [⟨customChallenge, correct⟩] }
  | verifyError {challengeAnswer : ChallengeAnswer} {choice : Choice} {s : server.Config}
    (hs : Kept c.system s) : Effect user c (.verify challengeAnswer choice) { c with system := s }
  | other {entry : ChallengeResult} (hname : entry.challengeName ≠ customChallenge) :
    Effect user c (.other entry) { c with session := c.session ++ [entry] }

/-- A move has its effect and no other. -/
theorem effect_of_next (h : c.next user m = some c') : Effect user c m c' := by
  cases m with
  | server m' =>
    obtain ⟨s', hs', rfl⟩ := Option.map_eq_some_iff.1 h
    exact .server hs'
  | define choice =>
    obtain ⟨⟨r, s'⟩, hinvoke, rfl⟩ := Option.map_eq_some_iff.1 h
    obtain ⟨w, hrun, rfl⟩ := invoke_eq_some hinvoke
    obtain ⟨rfl, -⟩ := runs_defineAuthChallenge (.of_run hrun)
    exact .define ⟨rfl, rfl⟩
  | create choice =>
    obtain ⟨⟨r, s'⟩, hinvoke, rfl⟩ := Option.map_eq_some_iff.1 h
    obtain ⟨w, hrun, rfl⟩ := invoke_eq_some hinvoke
    obtain ⟨hitems, hresponse⟩ := run_createAuthChallenge hrun
    refine .create ⟨rfl, hitems⟩ fun params hparams => ?_
    cases r with
    | error e => cases hparams
    | ok response =>
      cases hparams
      obtain ⟨n, rfl, rfl⟩ := hresponse response rfl
      exact ⟨n, rfl, rfl⟩
  | verify challengeAnswer choice =>
    -- Cognito adds an entry to the session only if the trigger answers.
    obtain ⟨params, hparams, h⟩ := Option.bind_eq_some_iff.1 h
    obtain ⟨⟨r, s'⟩, hinvoke, rfl⟩ := Option.map_eq_some_iff.1 h
    obtain ⟨w, hrun, rfl⟩ := invoke_eq_some hinvoke
    obtain ⟨rfl, hanswer⟩ := runs_verifyAuthChallengeResponse (.of_run hrun)
    cases r with
    | error e =>
      rw [entryOf, List.append_nil]
      exact .verifyError ⟨rfl, rfl⟩
    | ok event =>
      refine .verify ⟨rfl, rfl⟩ hparams fun hcorrect => ?_
      obtain ⟨sign, value, hsign, hvalue, hrecover⟩ := hanswer event rfl rfl hcorrect
      exact ⟨sign, _, hsign, by rw [address, hvalue, Option.map_some], hrecover⟩
  | other entry =>
    simp only [next] at h
    split_ifs at h with hname
    cases h
    exact .other hname

/-- Every move keeps the requests in progress asking what they may ask. -/
theorem Asking.next (hc : c.Asking) (h : c.next user m = some c') : c'.Asking := by
  have hkept : ∀ s, Kept c.system s → ∀ (i : ℕ) (t : server.Thread), s.threads[i]? = some t →
      t.rest.wp (Asks t.request) (Ends t.request) t.log :=
    fun s hs i t ht => hc i t (hs.threads ▸ ht)
  cases effect_of_next h with
  | server hs =>
    have hreach : Machine.Reaches (M := server) Machine.Any c.system _ := .move .refl trivial hs
    exact hreach.wp serve_asks hc
  | define hs => exact hkept _ hs
  | create hs _ => exact hkept _ hs
  | verify hs _ _ => exact hkept _ hs
  | verifyError hs => exact hkept _ hs
  | other _ => exact hc

/-- Every move keeps the addresses that are registered. -/
theorem address_next (hc : c.Asking) (h : c.next user m = some c') {a : Address}
    (ha : c.address user = some a) : c'.address user = some a := by
  obtain ⟨value, hvalue, rfl⟩ := Option.map_eq_some_iff.1 ha
  rw [World.lookup_eq_some] at hvalue
  suffices hmem : ⟨.userIDToWalletAddress, user, value⟩ ∈ c'.system.world.items.rows by
    rw [address, World.lookup_eq_some.2 hmem, Option.map_some]
  -- Only the server writes items of addresses, and those of a user only once.
  cases effect_of_next h with
  | server hs =>
    rename_i m' s'
    cases m' with
    | arrive r =>
      cases hs
      exact hvalue
    | step i ch =>
      obtain ⟨t, o, k, r, w, ht, hk, he, rfl⟩ := Machine.Config.next_step hs
      rcases World.exec_cases he with ⟨e, rfl, rfl⟩ | ⟨v, rfl, heff⟩
      · exact hvalue
      · have hwp := hc i t ht
        rw [hk] at hwp
        exact mem_items_of_asks (Program.wp_ask.1 hwp).1 heff hvalue
    | act x =>
      obtain ⟨w, hw, rfl⟩ := Machine.Config.next_act hs
      rw [Machine.Config.act, World.act_eq hw]
      exact hvalue
  | define hs => exact hs.items ▸ hvalue
  | create hs _ => exact hs.items ▸ hvalue
  | verify hs _ _ => exact hs.items ▸ hvalue
  | verifyError hs => exact hs.items ▸ hvalue
  | other _ => exact hvalue

/-- Before the first trigger, there is nothing but the server. -/
theorem Asking.start (hs : Run Machine.Any s) : (start s).Asking :=
  hs.wp serve_asks fun i t ht => by simp [Machine.Config.initial] at ht

end Config

/-- The private parameters that Cognito has are those of the last challenge, and no other
    one was asked for since. -/
theorem challenge_of_run (h : Trace.run (Config.next user) (.start s) moves = some c)
    {params : Parameters} (hparams : c.privateChallengeParameters = some params) :
    ∃ before n between, moves = before ++ .create (.nonce n) :: between ∧
      (∀ choice, .create choice ∉ between) ∧
      params = (challengeOf n).privateChallengeParameters := by
  refine Trace.induction (fun moves c => ∀ params, c.privateChallengeParameters = some params →
    ∃ before n between, moves = before ++ .create (.nonce n) :: between ∧
      (∀ choice, .create choice ∉ between) ∧
      params = (challengeOf n).privateChallengeParameters) h nofun ?_ params hparams
  intro moves c m c' _ ih hn params hparams
  -- A move that makes no challenge comes after the last one.
  have hafter : (∀ choice, m ≠ .create choice) → c.privateChallengeParameters = some params →
      ∃ before n between, moves ++ [m] = before ++ .create (.nonce n) :: between ∧
        (∀ choice, .create choice ∉ between) ∧
        params = (challengeOf n).privateChallengeParameters := by
    intro hm hparams
    obtain ⟨before, n, between, rfl, hbetween, hn⟩ := ih params hparams
    refine ⟨before, n, between ++ [m], by simp, fun choice hmem => ?_, hn⟩
    rcases List.mem_append.1 hmem with hmem | hmem
    · exact hbetween choice hmem
    · exact hm choice (List.mem_singleton.1 hmem).symm
  cases Config.effect_of_next hn with
  | create _ hcreate =>
    obtain ⟨n, rfl, rfl⟩ := hcreate params hparams
    exact ⟨moves, n, [], rfl, fun _ => List.not_mem_nil, rfl⟩
  | server _ => exact hafter nofun hparams
  | define _ => exact hafter nofun hparams
  | verify _ _ _ => exact hafter nofun hparams
  | verifyError _ => exact hafter nofun hparams
  | other _ => exact hafter nofun hparams

/-- The answer that the session ends with, if it is correct, is that of a round, and a
    signature. -/
theorem round_of_run (h : Trace.run (Config.next user) (.start s) moves = some c)
    (hlast : c.session.getLast? = some ⟨customChallenge, true⟩) :
    ∃ round : Round user (.start s) moves c, round.Signed := by
  refine Trace.induction (fun moves c => c.session.getLast? = some ⟨customChallenge, true⟩ →
    ∃ round : Round user (.start s) moves c, round.Signed) h nofun ?_ hlast
  intro moves c m c' hrun ih hn hlast
  -- A move that adds nothing to the session comes after the round.
  have hafter : c'.session = c.session →
      ∃ round : Round user (.start s) (moves ++ [m]) c', round.Signed := by
    intro hsession
    obtain ⟨round, hsigned⟩ := ih (hsession ▸ hlast)
    exact ⟨{ round with
      after := round.after ++ [m]
      moves_eq := by
        conv_lhs => rw [round.moves_eq]
        simp
      session_eq := hsession.trans round.session_eq }, hsigned⟩
  cases Config.effect_of_next hn with
  | verify hs hparams hcorrect =>
    rename_i challengeAnswer choice s params correct
    obtain rfl : correct = true := by simpa using hlast
    obtain ⟨sign, a, rfl, ha, hrecover⟩ := hcorrect rfl
    obtain ⟨before, n, between, hmoves, hbetween, rfl⟩ := challenge_of_run hrun hparams
    refine
      ⟨⟨before, n, between, sign, choice, [], c, by simp [hmoves], hbetween, hmoves ▸ hrun, rfl⟩,
        a, ha, ?_⟩
    have hnonce : hexToHash ((challengeOf n).privateChallengeParameters.get "nonce") = n :=
      hexToHash_hex n
    rw [hnonce] at hrecover
    exact hrecover
  | other hname =>
    refine absurd ?_ hname
    simp only [List.getLast?_append, List.getLast?_singleton, Option.some_or,
      Option.some.injEq] at hlast
    rw [hlast]
  | server _ => exact hafter rfl
  | define _ => exact hafter rfl
  | create _ _ => exact hafter rfl
  | verifyError _ => exact hafter rfl

/-- The address of a round stays registered. -/
theorem Round.address_eq (round : Round user (.start s) moves c) (hs : Run Machine.Any s)
    (h : Trace.run (Config.next user) (.start s) moves = some c) {a : Address}
    (ha : round.verified.address user = some a) : c.address user = some a := by
  have hasking : round.verified.Asking :=
    Trace.invariant _ round.run_eq (.start hs) fun _ _ _ hc hn => hc.next hn
  rw [round.moves_eq] at h
  refine (Trace.invariant (fun c => c.Asking ∧ c.address user = some a)
    (Trace.run_of_append h round.run_eq) ⟨hasking, ha⟩ ?_).2
  rintro c m c' ⟨hc, ha⟩ hn
  exact ⟨hc.next hn, Config.address_next hc hn ha⟩

/-- Tokens are issued only if the last answer is a signature of the registered address
    over the nonce of its round, never together with a failure, and never to a user
    without an address. -/
theorem issueTokens_only_signed (hs : Run Machine.Any s)
    (h : Trace.run (Config.next user) (.start s) moves = some c) {choice : Choice}
    {event : DefineAuthChallenge} {s' : server.Config}
    (hdefine : c.invoke (defineAuthChallenge (c.defineEvent user)) choice = some (.ok event, s')) :
    (event.response.issueTokens = true →
      ∃ round : Round user (.start s) moves c, round.Signed) ∧
    ¬ (event.response.issueTokens = true ∧ event.response.failAuthentication = true) ∧
    (c.address user = none → event.response.issueTokens = false) := by
  obtain ⟨w, hrun, -⟩ := Config.invoke_eq_some hdefine
  rcases (runs_defineAuthChallenge (.of_run hrun)).2 event rfl with ⟨hlast, rfl⟩ | rfl | rfl
  · obtain ⟨round, hsigned⟩ := round_of_run h hlast
    refine ⟨fun _ => ⟨round, hsigned⟩, by simp [DefineAuthChallenge.respond, Config.defineEvent],
      fun hnone => ?_⟩
    obtain ⟨a, ha, -⟩ := hsigned
    rw [round.address_eq hs h ha] at hnone
    cases hnone
  · simp [DefineAuthChallenge.respond, Config.defineEvent]
  · simp [DefineAuthChallenge.respond, Config.defineEvent]

end SignIn

end

/-! An author registers an address, and signs in with it. -/

section

namespace SignIn

open Hardhat

/-- The nonce of the challenge. -/
def challengeNonce : Hash := .ofList 32 [2]

/-- The hash of the text that the author signs. -/
def challengeHash : Hash := .ofList 32 (hex
  "83e215b4fee030ed79e0ee3e182f422fde6aca2985df7d6f85bfe817f4ddd4bf")

/-- The digits of the signature of the author. -/
def challengeSignature : String :=
  "e3bd8087aa40782aa1a5d75a9461298308924bd21695ca442ab5682a99768b9c" ++
    "2207b5c5469f174b8f24ba403db24d255ba4e7ecb78b6a45e04bd9c0570b0b8201"

/-- The environment of the other runs, with the hash and the signature. -/
@[reducible] def authorEnvironment : Environment :=
  { Hardhat.environment with
    toCrypto := .ofTables
      ((Hex.utf8 ("\x19Ethereum Signed Message:\n98" ++
        generateSignData signInMessage challengeNonce), challengeHash) :: hashes)
      [((challengeHash, hex challengeSignature), authorKey)] [(authorKey, author)] }

attribute [local instance] authorEnvironment

/-- The author registers, and answers a challenge. -/
def signInMoves : List Move :=
  [.server (.arrive (.putUserWallet "author" author.string)), .server (.step 0 (.nonce nonce)),
    .server (.step 0 .ok), .define .ok, .create (.nonce challengeNonce),
    .verify (.string ("0x" ++ challengeSignature)) .ok]

/-- The author signs in, and the round that is signed is the one of this run. -/
theorem issueTokens_only_signed_author : ∃ c : Config, ∃ event s',
    Trace.run (Config.next "author") (.start (.initial World.initial)) signInMoves = some c ∧
    c.invoke (defineAuthChallenge (c.defineEvent "author")) .ok = some (.ok event, s') ∧
    event.response.issueTokens = true ∧
    ∃ round : Round "author" (.start (.initial World.initial)) signInMoves c, round.Signed := by
  have hrun : (Trace.run (Config.next "author") (.start (.initial World.initial)) signInMoves).any
      (fun c => (c.invoke (defineAuthChallenge (c.defineEvent "author")) .ok).any fun rs =>
        rs.1.toOption.any (·.response.issueTokens)) = true := by
    decide +kernel
  obtain ⟨c, hc, hdefine⟩ := (Option.any_eq_true _ _).1 hrun
  obtain ⟨⟨r, s'⟩, hinvoke, hissue⟩ := (Option.any_eq_true _ _).1 hdefine
  cases r with
  | error e => cases hissue
  | ok event =>
    have hissue : event.response.issueTokens = true := hissue
    exact ⟨c, event, s', hc, hinvoke, hissue, (issueTokens_only_signed .refl hc hinvoke).1 hissue⟩

end SignIn

end

end Knowtfolio
