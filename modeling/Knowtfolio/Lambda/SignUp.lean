import Mathlib.Data.List.DropRight
import Knowtfolio.Data.Json
import Knowtfolio.Interaction.Pool
import Knowtfolio.Lambda.PostWalletAddress
import Knowtfolio.Lambda.UserPool

/-!
# Signing up

`infrastructure/function_scripts/cmd`: when somebody signs up, Cognito invokes
`pre_sign_up`, which has `validate_sign_up_form` check the form, and creates the account
if there is nothing wrong with it. That neither the user name nor the e-mail address is
used already is checked by asking for the accounts that have it. Cognito itself sees to
it that no user name is used twice; of an e-mail address there is nothing but the check,
after which other accounts may be created before the one that was checked
(`SignUp.uniqueEmails_iff`).

Assumed is of JSON that a form and the errors of its fields are read as they were
written; the payloads of Lambda functions are handed over as they are.
-/

namespace Knowtfolio.SignUp

open Interaction

/-! ## The functions -/

/-- `models.FieldErrorCode`. -/
inductive FieldErrorCode
  | invalidFormat
  | alreadyExists
  deriving DecidableEq

/-- `models.FieldError`. -/
structure FieldError where
  fieldName : String
  code : FieldErrorCode
  deriving DecidableEq

/-- The text of a code. -/
def FieldErrorCode.toString : FieldErrorCode → String
  | invalidFormat => "invalid_format"
  | alreadyExists => "already_exists"

/-- The members of an error in JSON. -/
def FieldError.members (e : FieldError) : List (String × String) :=
  [("field_name", e.fieldName), ("code", e.code.toString)]

/-- `json.Marshal` of the errors of the fields. -/
def marshalFieldErrs (fieldErrs : List FieldError) : String :=
  String.ofList (Json.writeList (fieldErrs.map fun e => Json.writeObject e.members))

/-- `json.Marshal` of a form. -/
def marshalForm (form : SignUpForm) : String :=
  String.ofList (Json.writeObject
    [("username", form.userName), ("password", form.password), ("email", form.email)])

/-- What the functions have from packages: the decoders, and the tags of the validator,
    of which `email` lets quotation marks and backslashes through in a quoted local part
    only. -/
class SignUpEnvironment extends Crypto, Decoders where
  unmarshal_marshalForm : ∀ form, unmarshal .signUpForm (marshalForm form) = .ok form
  /-- `json.Unmarshal` of the errors of the fields. -/
  unmarshalFieldErrs : String → Except String (List FieldError)
  unmarshal_marshalFieldErrs : ∀ errs, unmarshalFieldErrs (marshalFieldErrs errs) = .ok errs
  unmarshalFieldErrs_empty : ∀ errs, unmarshalFieldErrs "" ≠ .ok errs
  isEmail_plain : ∀ {s}, isEmail s = true → Plain s ∨ ∃ s', s = "\"" ++ s'

/-- `events.CognitoEventUserPoolsPreSignup`. -/
structure PreSignUp where
  userName : String
  clientMetadata : String → Option String
  userAttributes : String → Option String

/-- The e-mail address of an event. -/
def PreSignUp.email (event : PreSignUp) : String := (event.userAttributes "email").getD ""

section

variable [SignUpEnvironment]

/-- `checkDuplicateValueForField`. -/
def checkDuplicateValueForField (field value : String) (fieldErrs : List FieldError) :
    PoolProg (List FieldError) := do
  let users ← poolCall (.listUsers (userFilter field value))
  pure (if 0 < List.length users then fieldErrs ++ [⟨field, .alreadyExists⟩] else fieldErrs)

/-- The part of `validateSignUpForm` after the tags have been checked. -/
def checkDuplicates (form : SignUpForm) (fieldErrs : List FieldError) :
    PoolProg APIGatewayProxyResponse := do
  let fieldErrs ← checkDuplicateValueForField "username" form.userName fieldErrs
  let fieldErrs ← checkDuplicateValueForField "email" form.email fieldErrs
  pure ⟨200, marshalFieldErrs fieldErrs⟩

/-- What `json.Unmarshal` leaves in the form. -/
def decodedForm (body : String) : SignUpForm :=
  (Decoders.unmarshal .signUpForm body).toOption.getD ⟨"", "", ""⟩

/-- `handler` of `validate_sign_up_form`. -/
def validateSignUpForm (body : String) : PoolProg APIGatewayProxyResponse :=
  match validateJSONRequest .signUpForm body with
  | .error e => .throw e
  | .ok (.error (.validation valErrs)) =>
    checkDuplicates (decodedForm body) (valErrs.map fun valErr => ⟨valErr.field, .invalidFormat⟩)
  | .ok (.error (.json message)) => pure ⟨400, message⟩
  | .ok (.ok form) => checkDuplicates form []

/-- `invokeValidationLambda`. -/
def invokeValidationLambda (form : SignUpForm) : PoolProg (List FieldError) := do
  let _ ← poolCall (.invoke "validate_sign_up_form")
  -- A function that fails answers with its error, in which there is no body.
  let body ← Program.handle (fun _ => pure "") do
    let resp ← validateSignUpForm (marshalForm form)
    pure resp.body
  Program.ofExcept ((SignUpEnvironment.unmarshalFieldErrs body).mapError (.err ∘ .external))

/-- `handler` of `pre_sign_up`. -/
def preSignUp (event : PreSignUp) : PoolProg PreSignUp :=
  match event.clientMetadata "password" with
  | none => .throw (.err (.text
      "clientMetadata must include `password` to validate on pre-signup phase"))
  | some password => do
    let fieldErrs ← invokeValidationLambda ⟨event.userName, password, event.email⟩
    if 0 < fieldErrs.length then
      .throw (.err (.text ("format error(s) found for signup form: " ++
        marshalFieldErrs fieldErrs)))
    else pure event

/-- A sign-up: Cognito creates the account that the trigger accepts. -/
def signUp (event : PreSignUp) : PoolProg Unit := do
  let event ← preSignUp event
  poolCall (.createUser ⟨event.userName, event.email⟩)

/-- The pool, with the sign-ups in progress. -/
abbrev userPool : Machine poolCalls Fault where
  World := Accounts
  Request := PreSignUp
  Reply := Unit
  Choice := PoolChoice
  Action := Empty
  program := signUp
  exec := Accounts.exec
  act := nofun

/-! ## What a sign-up asks -/

section

variable {α : Type} {P : poolCalls.Log → PoolOp → Prop}
  {Q : poolCalls.Log → Except Fault α → Prop} {l : poolCalls.Log}

omit [SignUpEnvironment] in
/-- The rule of calls: an error ends the program. -/
theorem wp_poolCall_bind {o : PoolOp} {f : o.Val → PoolProg α} :
    Program.wp P Q l (poolCall o >>= f) ↔
      P l o ∧ (∀ e, Q (l ++ [⟨o, .error e⟩]) (.error (.err e))) ∧
        ∀ v, Program.wp P Q (l ++ [poolAnswered o v]) (f v) := by
  rw [poolCall, Program.ask_bind, Program.wp_ask]
  refine and_congr Iff.rfl ⟨fun h => ⟨fun e => ?_, fun v => h (.ok v)⟩, fun h a => ?_⟩
  · simpa [Except.mapError] using h (.error e)
  · cases a with
    | error e => simpa [Except.mapError] using h.1 e
    | ok v => exact h.2 v

end

/-- The e-mail address was checked, and no account had it. -/
abbrev emailChecked (email : String) : poolCalls.Entry :=
  poolAnswered (.listUsers (userFilter "email" email)) []

/-- What a sign-up may ask: an account is created with an e-mail address that was
    checked. -/
def AsksUser (event : PreSignUp) (l : poolCalls.Log) : PoolOp → Prop
  | .createUser a => a = ⟨event.userName, event.email⟩ ∧ Decoders.isEmail a.email = true ∧
      emailChecked a.email ∈ l
  | _ => True

/-- After the check of a field there is no error only if there was none before, and no
    account with the value. -/
theorem wp_checkDuplicateValueForField {event : PreSignUp} {field value : String}
    {fieldErrs : List FieldError} {l : poolCalls.Log} :
    Program.wp (AsksUser event) (fun l r => r = .ok [] → fieldErrs = [] ∧
        poolAnswered (.listUsers (userFilter field value)) [] ∈ l) l
      (checkDuplicateValueForField field value fieldErrs) := by
  refine wp_poolCall_bind.2 ⟨trivial, fun e => nofun, fun users => Program.wp_ret.2 ?_⟩
  cases users with
  | nil =>
    rintro ⟨⟩
    exact ⟨rfl, by simp⟩
  | cons a users => simp

/-- A form is found to have no errors only if its tags held and no account had its e-mail
    address. -/
theorem wp_checkDuplicates {event : PreSignUp} {form : SignUpForm} {fieldErrs : List FieldError}
    {l : poolCalls.Log} :
    Program.wp (AsksUser event) (fun l r => ∀ resp, r = .ok resp →
        SignUpEnvironment.unmarshalFieldErrs resp.body = .ok [] →
          fieldErrs = [] ∧ emailChecked form.email ∈ l) l (checkDuplicates form fieldErrs) := by
  refine Program.wp_bind.2 (Program.wp_mono (fun _ _ h => h) ?_ wp_checkDuplicateValueForField)
  rintro l (e | errs) husername
  · exact nofun
  refine Program.wp_bind.2 (Program.wp_mono (fun _ _ h => h) ?_ wp_checkDuplicateValueForField)
  rintro l (e | errs') hemail
  · exact nofun
  refine Program.wp_ret.2 fun resp hresp hnone => ?_
  cases hresp
  rw [SignUpEnvironment.unmarshal_marshalFieldErrs, Except.ok.injEq] at hnone
  obtain ⟨herrs, hchecked⟩ := hemail (congrArg _ hnone)
  exact ⟨(husername (congrArg _ herrs)).1, hchecked⟩

/-- The function finds no errors only if the e-mail address is a valid one, which no
    account had. -/
theorem wp_validateSignUpForm {event : PreSignUp} (form : SignUpForm) {l : poolCalls.Log} :
    Program.wp (AsksUser event) (fun l r => ∀ resp, r = .ok resp →
        SignUpEnvironment.unmarshalFieldErrs resp.body = .ok [] →
          Decoders.isEmail form.email = true ∧ emailChecked form.email ∈ l) l
      (validateSignUpForm (marshalForm form)) := by
  have hdecode := SignUpEnvironment.unmarshal_marshalForm form
  have hform : decodedForm (marshalForm form) = form := by
    rw [decodedForm, hdecode]
    rfl
  rw [validateSignUpForm, validateJSONRequest_of_unmarshal hdecode]
  split_ifs with htags
  · refine Program.wp_mono (fun _ _ h => h) ?_ wp_checkDuplicates
    intro l r h resp hr hnone
    refine ⟨?_, (h resp hr hnone).2⟩
    exact htags ⟨"email", form.email, [required, ⟨"email", Decoders.isEmail⟩]⟩
      (by simp [taggedFields]) ⟨"email", Decoders.isEmail⟩ (by simp)
  · dsimp only
    rw [hform]
    refine Program.wp_mono (fun _ _ h => h) ?_ wp_checkDuplicates
    intro l r h resp hr hnone
    exact absurd (errors_eq_nil.1 (List.map_eq_nil_iff.1 (h resp hr hnone).1)) htags

/-- The function fails, or answers what it has found, with no errors only if it has found
    none. -/
theorem wp_invokeValidationLambda {event : PreSignUp} {form : SignUpForm} {l : poolCalls.Log} :
    Program.wp (AsksUser event) (fun l r => r = .ok [] →
        Decoders.isEmail form.email = true ∧ emailChecked form.email ∈ l) l
      (invokeValidationLambda form) := by
  refine wp_poolCall_bind.2 ⟨trivial, fun _ => nofun, fun _ => Program.wp_bind.2
    (Program.wp_handle.2 (Program.wp_bind.2 (Program.wp_mono (fun _ _ h => h) ?_
      (wp_validateSignUpForm form))))⟩
  rintro l (e | resp) h
  · -- The text without a body is no list of errors.
    refine Program.wp_ret.2 (Program.wp_ofExcept.2 fun hnone => ?_)
    cases hempty : SignUpEnvironment.unmarshalFieldErrs "" with
    | error e => simp [hempty, Except.mapError] at hnone
    | ok errs => exact absurd hempty (SignUpEnvironment.unmarshalFieldErrs_empty errs)
  · refine Program.wp_ret.2 (Program.wp_ofExcept.2 fun hnone => h resp rfl ?_)
    cases hbody : SignUpEnvironment.unmarshalFieldErrs resp.body with
    | error e => simp [hbody, Except.mapError] at hnone
    | ok errs => simpa [hbody, Except.mapError] using hnone

/-- What a sign-up asks, whatever the answers. -/
theorem signUp_asks (event : PreSignUp) :
    (signUp event).wp (AsksUser event) (fun _ _ => True) [] := by
  refine Program.wp_bind.2 ?_
  unfold preSignUp
  split
  next => exact Program.wp_throw.2 trivial
  next password _ =>
    refine Program.wp_bind.2 (Program.wp_mono (fun _ _ h => h) ?_ wp_invokeValidationLambda)
    rintro l (e | fieldErrs) h
    · trivial
    refine Program.wp_ite.2 ⟨fun _ => Program.wp_throw.2 trivial, fun hlen => ?_⟩
    obtain rfl : fieldErrs = [] := List.length_eq_zero_iff.1 (Nat.eq_zero_of_not_pos hlen)
    exact Program.wp_ret.2
      (Program.wp_ask.2 ⟨⟨rfl, h rfl⟩, fun r => Program.wp_ofExcept.2 trivial⟩)

/-! ## The accounts of a run -/

open Machine

/-- The configurations that moves allowed by `ok` lead to from the empty pool. -/
abbrev PoolRun (ok : userPool.Config → userPool.Move → Prop) (c : userPool.Config) : Prop :=
  Reaches (M := userPool) ok (.initial .empty) c

/-- No two accounts have one e-mail address. -/
def UniqueEmails (w : Accounts) : Prop :=
  ∀ a ∈ w.rows, ∀ b ∈ w.rows, a.email = b.email → a = b

/-- The account that a move creates. -/
def created (c : userPool.Config) : userPool.Move → Option Account
  | .step i .ok =>
    match c.asking i with
    | some (_, _, .createUser a) => if (c.world.get a.userName).isSome then none else some a
    | _ => none
  | _ => none

/-- The sign-up `i` finds that no account has the e-mail address. -/
def checksEmail (i : ℕ) (email : String) : userPool.Event → Bool
  | .asked j ⟨.listUsers filter, .ok users⟩ =>
    j = i && filter = userFilter "email" email && List.isEmpty users
  | _ => false

/-- An account is created with the e-mail address. -/
def createsEmail (email : String) : userPool.Event → Bool
  | .asked _ ⟨.createUser a, .ok _⟩ => a.email = email
  | _ => false

/-- What has happened since the sign-up `i` found that no account had the e-mail
    address. -/
def sinceCheck (i : ℕ) (email : String) (history : List userPool.Event) : List userPool.Event :=
  history.rtakeWhile fun x => !checksEmail i email x

/-- No account was created with the e-mail address since it was checked. -/
def undisturbed (c : userPool.Config) (i : ℕ) (email : String) : Bool :=
  (sinceCheck i email c.history).all fun x => !createsEmail email x

/-- If the move creates an account, none was created with its e-mail address since that
    was checked. -/
def keepsEmails (c : userPool.Config) (m : userPool.Move) : Bool :=
  match m with
  | .step i _ => (created c m).all fun a => undisturbed c i a.email
  | _ => true

/-! ## E-mail addresses -/

variable {ok : userPool.Config → userPool.Move → Prop} {c c' : userPool.Config}

/-- The check of an email starts its events anew, and every other event is one more. -/
theorem sinceCheck_concat {i : ℕ} {email : String} {history : List userPool.Event}
    {x : userPool.Event} : sinceCheck i email (history ++ [x]) =
      if checksEmail i email x then [] else sinceCheck i email history ++ [x] := by
  rw [sinceCheck, List.rtakeWhile_concat, sinceCheck]
  cases checksEmail i email x <;> rfl

/-- Whoever has an e-mail address that was checked has got it since. -/
def CreatedSince (c : userPool.Config) : Prop :=
  ∀ i email, Plain email → (∃ x ∈ c.history, checksEmail i email x = true) →
    ∀ a ∈ c.world.rows, a.email = email →
      ∃ y ∈ sinceCheck i email c.history, createsEmail email y = true

/-- Whoever was created with an e-mail address has it. -/
def HasCreated (c : userPool.Config) : Prop :=
  ∀ y ∈ c.history, ∀ email, createsEmail email y = true → ∃ a ∈ c.world.rows, a.email = email

/-- The events that are checks of the email. -/
theorem checksEmail_eq_true {i j : ℕ} {email : String} {e : poolCalls.Entry} :
    checksEmail i email (.asked j e) = true ↔ j = i ∧ e = emailChecked email := by
  constructor
  · intro h
    obtain ⟨o, r⟩ := e
    cases o with
    | listUsers filter =>
      cases r with
      | error e => cases h
      | ok users =>
        cases users with
        | nil =>
          obtain ⟨rfl, rfl⟩ : j = i ∧ filter = userFilter "email" email := by
            simpa [checksEmail] using h
          exact ⟨rfl, rfl⟩
        | cons a users => simp [checksEmail] at h
    | _ => cases h
  · rintro ⟨rfl, rfl⟩
    simp [checksEmail]

/-- The events that create an account with the email. -/
theorem createsEmail_eq_true {j : ℕ} {email : String} {e : poolCalls.Entry} :
    createsEmail email (.asked j e) = true ↔
      ∃ a v, e = poolAnswered (.createUser a) v ∧ a.email = email := by
  constructor
  · intro h
    obtain ⟨o, r⟩ := e
    cases o with
    | createUser a =>
      cases r with
      | error e => cases h
      | ok v => exact ⟨a, v, rfl, by simpa [createsEmail] using h⟩
    | _ => cases h
  · rintro ⟨a, v, rfl, rfl⟩
    simp [createsEmail]

/-- In every run, an account with an email that was free when it was checked was created since. -/
theorem createdSince (h : PoolRun ok c) : CreatedSince c := by
  -- An address is free when it is checked; whoever has it afterwards was created since.
  refine h.induction CreatedSince (fun i email _ ⟨x, hx, _⟩ => absurd hx List.not_mem_nil) ?_ ?_ ?_
  · intro c event _ hc _ i email hemail hchecked a ha haemail
    obtain ⟨x, hx, hcheck⟩ := hchecked
    rcases Config.mem_history_arrive.1 hx with hx | rfl
    · obtain ⟨y, hy, hcreates⟩ := hc i email hemail ⟨x, hx, hcheck⟩ a ha haemail
      refine ⟨y, ?_, hcreates⟩
      rw [Config.arrive, sinceCheck_concat]
      exact List.mem_append_left _ hy
    · cases hcheck
  · intro c i ch t o k r w hrun hc _ ht hk he j email hemail hchecked a ha haemail
    obtain ⟨x, hx, hcheck⟩ := hchecked
    show ∃ y ∈ sinceCheck j email (c.history ++ [.asked i ⟨o, r⟩]), _
    rw [sinceCheck_concat]
    split_ifs with hnow
    · -- The address is checked by this call, and so nobody has it.
      obtain ⟨rfl, hentry⟩ := checksEmail_eq_true.1 hnow
      cases hentry
      rcases Accounts.exec_cases he with ⟨e, ⟨⟩, -⟩ | ⟨v, ⟨⟩, -, heff⟩
      refine absurd haemail (Accounts.email_ne_of_effect hemail heff ?_)
      exact heff.1 ▸ ha
    · have hold : ∃ x ∈ c.history, checksEmail j email x = true := by
        rcases Config.mem_history_step.1 hx with hx | rfl
        · exact ⟨x, hx, hcheck⟩
        · exact absurd hcheck hnow
      have hbefore : a ∈ c.world.rows → ∃ y ∈ sinceCheck j email c.history ++ [.asked i ⟨o, r⟩],
          createsEmail email y = true := fun ha => by
        obtain ⟨y, hy, hcreates⟩ := hc j email hemail hold a ha haemail
        exact ⟨y, List.mem_append_left _ hy, hcreates⟩
      rcases Accounts.exec_cases he with ⟨e, rfl, rfl⟩ | ⟨v, rfl, -, heff⟩
      · exact hbefore ha
      · rcases (Accounts.mem_of_effect heff).1 ha with ha | rfl
        · exact hbefore ha
        · exact ⟨_, List.mem_concat_self, createsEmail_eq_true.2 ⟨a, v, rfl, haemail⟩⟩
  · exact fun c x => x.elim

/-- In every run, the accounts are those that were created. -/
theorem hasCreated (h : PoolRun ok c) : HasCreated c := by
  -- Accounts are never deleted, so that those created before are still there.
  refine h.induction HasCreated (fun y hy => absurd hy List.not_mem_nil) ?_ ?_ ?_
  · intro c event _ hc _ y hy email hcreates
    rcases Config.mem_history_arrive.1 hy with hy | rfl
    · exact hc y hy email hcreates
    · cases hcreates
  · intro c i ch t o k r w _ hc _ ht hk he y hy email hcreates
    rcases Accounts.exec_cases he with ⟨e, rfl, rfl⟩ | ⟨v, rfl, -, heff⟩
    · rcases Config.mem_history_step.1 hy with hy | rfl
      · exact hc y hy email hcreates
      · obtain ⟨a, v, hentry, -⟩ := createsEmail_eq_true.1 hcreates
        cases hentry
    · rcases Config.mem_history_step.1 hy with hy | rfl
      · obtain ⟨a, ha, haemail⟩ := hc y hy email hcreates
        exact ⟨a, (Accounts.mem_of_effect heff).2 (.inl ha), haemail⟩
      · obtain ⟨a, v, hentry, haemail⟩ := createsEmail_eq_true.1 hcreates
        cases hentry
        exact ⟨a, (Accounts.mem_of_effect heff).2 (.inr rfl), haemail⟩
  · exact fun c x => x.elim

/-- A sign-up that is to create an account has found that no account had its e-mail
    address. -/
theorem checked_of_rest (h : PoolRun ok c) {i : ℕ} {t : userPool.Thread}
    (ht : c.threads[i]? = some t) {a : Account} {k : poolCalls.Ans (.createUser a) → PoolProg Unit}
    (hk : t.rest = .ask (.createUser a) k) :
    Plain a.email ∧ ∃ x ∈ c.history, checksEmail i a.email x = true := by
  have hwp := h.rest_wp signUp_asks ht
  rw [hk] at hwp
  obtain ⟨-, hemail, hchecked⟩ := (Program.wp_ask.1 hwp).1
  have hmem := (h.mem_log ht).1 hchecked
  refine ⟨?_, _, hmem, checksEmail_eq_true.2 ⟨rfl, rfl⟩⟩
  rcases SignUpEnvironment.isEmail_plain hemail with hplain | ⟨s, hquote⟩
  · exact hplain
  · -- The filter would have been refused.
    obtain ⟨w, ch, w', he⟩ := h.asked_exec hmem
    rcases Accounts.exec_cases he with ⟨e, ⟨⟩, -⟩ | ⟨v, -, -, -, name, value, hfilter, -⟩
    rw [hquote, parseFilter_quote (.inr rfl)] at hfilter
    cases hfilter

/-- What a move creates is the account of the call, if the user name is free. -/
theorem created_eq_some {m : userPool.Move} {a : Account} :
    created c m = some a ↔ ∃ i t k, m = .step i .ok ∧ c.threads[i]? = some t ∧
      t.rest = .ask (.createUser a) k ∧ c.world.get a.userName = none := by
  constructor
  · intro h
    unfold created at h
    split at h
    next i =>
      split at h
      next r l a' hasking =>
        split_ifs at h with hget
        cases h
        rw [Config.asking] at hasking
        split at hasking
        next r' l' o k ht =>
          cases hasking
          exact ⟨i, _, k, rfl, ht, rfl, Option.not_isSome_iff_eq_none.1 hget⟩
        next => cases hasking
      next => cases h
    next => cases h
  · rintro ⟨i, t, k, rfl, ht, hk, hget⟩
    simp only [created, Config.asking_of_rest ht hk]
    rw [hget]
    rfl

/-- In a run in which no account is created with an e-mail address between its check and
    its use, all e-mail addresses are different. -/
theorem uniqueEmails (h : PoolRun (keepsEmails · ·) c) : UniqueEmails c.world := by
  refine h.induction (fun c : userPool.Config => UniqueEmails c.world)
    (fun a ha => absurd ha Keyed.Table.not_mem_empty) (fun _ _ _ hc _ => hc) ?_ fun c x => x.elim
  intro c i ch t o k r w hrun hc hm ht hk he a ha b hb hab
  rcases Accounts.exec_cases he with ⟨e, rfl, rfl⟩ | ⟨v, rfl, rfl, heff⟩
  · exact hc a ha b hb hab
  -- An account that is created has an address that nobody has.
  have hnew : ∀ a, o = .createUser a → ∀ b ∈ c.world.rows, b.email ≠ a.email := by
    rintro a rfl b hb hemail
    obtain ⟨hplain, hchecked⟩ := checked_of_rest hrun ht hk
    obtain ⟨y, hy, hcreates⟩ := createdSince hrun i a.email hplain hchecked b hb hemail
    have hcreated : created c (.step i .ok) = some a :=
      created_eq_some.2 ⟨i, t, k, rfl, ht, hk, heff.1⟩
    simp only [keepsEmails, hcreated, Option.all_some, undisturbed] at hm
    simpa [hcreates] using List.all_eq_true.1 hm y hy
  rcases (Accounts.mem_of_effect heff).1 ha with hold | hcreate
  · rcases (Accounts.mem_of_effect heff).1 hb with hold' | hcreate
    · exact hc a hold b hold' hab
    · exact absurd hab (hnew b hcreate a hold)
  · rcases (Accounts.mem_of_effect heff).1 hb with hold | hcreate'
    · exact absurd hab.symm (hnew a hcreate b hold)
    · cases hcreate.symm.trans hcreate'
      rfl

/-- An account that is created with an e-mail address that another one has got since it
    was checked. -/
theorem not_uniqueEmails (h : PoolRun ok c) {m : userPool.Move} (hn : c.next m = some c')
    (hm : keepsEmails c m = false) : ¬ UniqueEmails c'.world := by
  cases hcreated : created c m with
  | none =>
    unfold keepsEmails at hm
    split at hm
    · simp [hcreated] at hm
    · cases hm
  | some a =>
    obtain ⟨i, t, k, rfl, ht, hk, hget⟩ := created_eq_some.1 hcreated
    simp only [keepsEmails, hcreated, Option.all_some, undisturbed] at hm
    obtain ⟨y, hy, hcreates⟩ := List.all_eq_false.1 hm
    -- The account that was created meanwhile is still there.
    obtain ⟨b, hb, hemail⟩ := hasCreated h y ((List.rtakeWhile_suffix _ _).subset hy) a.email
      (by simpa using hcreates)
    obtain ⟨t', o, k', r, w, ht', hk', he, rfl⟩ := Config.next_step hn
    cases ht.symm.trans ht'
    cases hk.symm.trans hk'
    have he : Accounts.exec c.world (.createUser a) .ok = some (r, w) := he
    rcases Accounts.exec_cases he with ⟨e, rfl, -⟩ | ⟨v, rfl, -, heff⟩
    · simp [Accounts.exec, hget] at he
    · -- The two accounts would be one, while the user name was free.
      intro hunique
      have heq := hunique b ((Accounts.mem_of_effect heff).2 (.inl hb)) a
        ((Accounts.mem_of_effect heff).2 (.inr rfl)) hemail
      exact Keyed.Table.get_eq_none.1 hget b hb (congrArg Account.userName heq)

/-- As long as no account is created with an e-mail address between its check and its
    use, all e-mail addresses are different, and after the next move they are exactly if
    it keeps to that. -/
theorem uniqueEmails_iff (h : PoolRun (keepsEmails · ·) c) :
    UniqueEmails c.world ∧ ∀ m c', c.next m = some c' →
      (UniqueEmails c'.world ↔ keepsEmails c m = true) := by
  refine ⟨uniqueEmails h, fun m c' hn => ⟨fun hunique => ?_, fun hm => ?_⟩⟩
  · by_contra hm
    exact not_uniqueEmails h hn (Bool.not_eq_true _ ▸ hm) hunique
  · exact uniqueEmails (.move h hm hn)

end

/-! Two sign-ups, with different e-mail addresses, and with one. -/

section

/-- The form that the members of an object make. -/
def formOf (members : List (String × String)) : SignUpForm where
  userName := (members.lookup "username").getD ""
  password := (members.lookup "password").getD ""
  email := (members.lookup "email").getD ""

/-- The error that the members of an object make. -/
def fieldErrorOf (members : List (String × String)) : FieldError where
  fieldName := (members.lookup "field_name").getD ""
  code := if members.lookup "code" = some "already_exists" then .alreadyExists else .invalidFormat

/-- An error is known by its members. -/
theorem fieldErrorOf_members (e : FieldError) : fieldErrorOf e.members = e := by
  obtain ⟨fieldName, code⟩ := e
  cases code <;> rfl

/-- All of a text, or an error. -/
def readAll {α : Type} (r : Json.Reader α) (s : String) : Except String α :=
  match r s.toList with
  | some (a, []) => .ok a
  | _ => .error "unexpected end of JSON input"

/-- What is read to the end is the value. -/
theorem readAll_eq_ok {α : Type} {r : Json.Reader α} {s : String} {a : α}
    (h : Json.Reads r s.toList a) : readAll r s = .ok a := by
  have hall := h []
  rw [List.append_nil] at hall
  rw [readAll, hall]

/-- An environment that reads what is written, and takes e-mail addresses without a quoted
    local part. -/
@[reducible] def signUpEnvironment : SignUpEnvironment where
  toCrypto := Hardhat.environment.toCrypto
  unmarshal
    | .signUpForm, src => (readAll Json.readObject src).map formOf
    | .postWalletAddressRequest, _ => .error "unexpected end of JSON input"
  isEmail s := s.toList.contains '@' && s.toList.all fun c => c ≠ '"' && c ≠ '\\'
  unmarshal_marshalForm form := by
    have hread : readAll Json.readObject (marshalForm form) = .ok _ := readAll_eq_ok (by
      rw [marshalForm, String.toList_ofList]
      exact Json.reads_readObject _)
    exact congrArg (Except.map formOf) hread
  unmarshalFieldErrs src := (readAll (Json.readList Json.readObject) src).map (·.map fieldErrorOf)
  unmarshal_marshalFieldErrs errs := by
    have hread : readAll (Json.readList Json.readObject) (marshalFieldErrs errs) =
        .ok (errs.map FieldError.members) := readAll_eq_ok (by
      rw [marshalFieldErrs, String.toList_ofList]
      have hlist := Json.reads_readList Json.reads_readObject
        (fun ms => ⟨'\x7b', _, rfl, by decide⟩) (errs.map FieldError.members)
      rwa [List.map_map] at hlist)
    rw [hread, Except.map, List.map_map]
    exact congrArg Except.ok (List.map_id'' fieldErrorOf_members errs)
  unmarshalFieldErrs_empty errs := nofun
  isEmail_plain {s} h := .inl fun c hc => by
    simp only [Bool.and_eq_true, List.all_eq_true, decide_eq_true_eq] at h
    exact h.2 c hc

attribute [local instance] signUpEnvironment

/-- The event of a sign-up. -/
def signUpEvent (userName email : String) : PreSignUp where
  userName := userName
  clientMetadata name := if name = "password" then some "Passw0rd!" else none
  userAttributes name := if name = "email" then some email else none

/-- The calls of the sign-up `i`, as far as `n` of them, that do not fail. -/
def signUpSteps (i n : ℕ) : List userPool.Move := List.replicate n (.step i .ok)

open Machine

/-- Two sign-ups with different emails. -/
theorem uniqueEmails_iff_apart : ∃ c, PoolRun (keepsEmails · ·) c ∧ c.world.rows.length = 2 ∧
    UniqueEmails c.world := by
  obtain ⟨c, hc, hp⟩ := exists_reaches_of_run keepsEmails
    ([.arrive (signUpEvent "alice" "alice@example.com"),
      .arrive (signUpEvent "bob" "bob@example.com")] ++
      signUpSteps 0 3 ++ signUpSteps 1 4 ++ signUpSteps 0 1)
    (.initial .empty) (fun c => c.world.rows.length = 2) (by decide +kernel)
  exact ⟨c, hc, of_decide_eq_true hp, (uniqueEmails_iff hc).1⟩

/-- Two sign-ups with the same email, both of which check it before one of them is accepted. -/
theorem not_uniqueEmails_together : ∃ c, PoolRun Any c ∧ ¬ UniqueEmails c.world := by
  obtain ⟨c, hc, hp⟩ := exists_reaches_of_run (M := userPool) (fun _ _ => true)
    ([.arrive (signUpEvent "alice" "alice@example.com"),
      .arrive (signUpEvent "bob" "alice@example.com")] ++
      signUpSteps 0 3 ++ signUpSteps 1 4 ++ signUpSteps 0 1)
    (.initial Keyed.Table.empty) (fun c => c.world.rows =
      [⟨"bob", "alice@example.com"⟩, ⟨"alice", "alice@example.com"⟩]) (by decide +kernel)
  refine ⟨c, hc.any, fun hunique => ?_⟩
  rw [UniqueEmails, of_decide_eq_true hp] at hunique
  exact absurd (hunique ⟨"bob", "alice@example.com"⟩ (by simp) ⟨"alice", "alice@example.com"⟩
    (by simp) rfl) (by decide)

end

end Knowtfolio.SignUp
