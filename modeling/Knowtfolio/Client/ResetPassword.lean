import Knowtfolio.Client.UpdatePassword

/-!
# The form for a forgotten password

`client/src/components/organisms/forms/ResetPasswordForm`: the user name is given, and a code is
sent to the user; then the other fields are shown, and the user name stays as it is. As in the
other forms, every change has the form validated, and the answer that has arrived last enables
the button by which a new password is submitted.

A validation of a form that has a code is thus one of the user name that is submitted. And it
enables the button only if no account has this name. So, whatever is typed, whatever overlaps,
and whatever is answered, the form never submits a new password for an account that there is
(`resetPassword_never`).

The invariant (`Inv`) is about forms with a verification code, which alone may enable the button:
there is no code before it was sent, and as sending it freezes the user name, all forms with a code
have the same one. A validation that enables the button has found no account of that user name.
-/

namespace Knowtfolio.Client

open Interaction Json SignUp PreSignUp

/-! ## The calls -/

/-- What is asked of Cognito. -/
inductive CognitoRequest
  | signUp (username password email : String)
  | confirmRegistration (username code : String)
  | authenticateUser (username password : String)
  | forgotPassword (username : String)
  | confirmPassword (username verificationCode newPassword : String)

/-- The calls of Cognito, which answers with an error or without. -/
abbrev cognitoCalls : Signature := ⟨CognitoRequest, fun _ => Except Err Unit⟩

/-- The requests of the forms. -/
abbrev formCalls : Signature := postCalls.sum cognitoCalls

/-- A call of Cognito. -/
def askCognito (request : CognitoRequest) : Program formCalls Fault Unit :=
  Program.ask (S := formCalls) (.inr request) fun r => Program.ofExcept (r.mapError .err)

/-- `sendPassswordResetVerificationCode`. -/
def sendPasswordResetVerificationCode (username : String) : Program formCalls Fault Unit :=
  askCognito (.forgotPassword username)

/-- `ResetPasswordForm`. -/
structure ResetPasswordForm where
  username : String
  password : String
  passwordConfirmation : String
  verificationCode : String
  deriving DecidableEq

/-- `assertConfirmPassword`. -/
def assertConfirmPassword (password confirmPassword : String) : Program formCalls Fault Unit :=
  if password ≠ confirmPassword then
    .throw (.err (.text "Password does not match confirm password."))
  else pure ()

/-- `resetPassword`. -/
def resetPassword (form : ResetPasswordForm) : Program formCalls Fault Unit := do
  assertConfirmPassword form.password form.passwordConfirmation
  askCognito (.confirmPassword form.username form.verificationCode form.password)

namespace ResetPasswordForm

/-- What is validated of the form. -/
def validated (form : ResetPasswordForm) : Form :=
  .resetPassword form.username form.password form.passwordConfirmation form.verificationCode

/-- `handleChangeForm`, if there is a field of the name. -/
def change (form : ResetPasswordForm) (name value : String) : Option ResetPasswordForm :=
  match name with
  | "username" => some { form with username := value }
  | "password" => some { form with password := value }
  | "password_confirmation" => some { form with passwordConfirmation := value }
  | "verification_code" => some { form with verificationCode := value }
  | _ => none

/-! ## The component -/

/-- The state of the component. -/
structure State where
  form : ResetPasswordForm
  fieldMessages : List (String × Message)
  canSubmitForm : Bool
  hasSentCode : Bool

/-- What the user does: a field is changed, or a button is clicked. -/
inductive Event
  | change (name value : String)
  | submitUsername
  | submitPasswordResetForm
  deriving DecidableEq

/-- What the component calls for. -/
inductive Call
  | validateForm (form : ResetPasswordForm)
  | sendCode (username : String)
  | resetPassword (form : ResetPasswordForm)
  deriving DecidableEq

/-- What a call returns. -/
inductive Result
  | validation (v : Validation)
  | done

/-- The program of a call. -/
def Call.program : Call → Program formCalls Fault Result
  | validateForm form => do
    let v ← (Client.validateForm form.validated.fields).inl
    pure (.validation v)
  | sendCode username => do
    sendPasswordResetVerificationCode username
    pure .done
  | resetPassword form => do
    Client.resetPassword form
    pure .done

namespace State

/-- The component as it starts. -/
def initial : State := ⟨⟨"", "", "", ""⟩, [], false, false⟩

/-- Whether the input of a field is there and enabled: that of the user name until the code is
    sent, the others from then on. -/
def isEnabled (s : State) (name : String) : Bool :=
  if name = "username" then !s.hasSentCode else s.hasSentCode

/-- Every change of the form has it validated. The buttons are clicked while they are
    enabled. -/
def handle (s : State) : Event → Option (State × Option Call)
  | .change name value =>
    if s.isEnabled name then
      match s.form.change name value with
      | some form => some ({ s with form := form }, some (.validateForm form))
      | none => some (s, none)
    else none
  | .submitUsername => if s.hasSentCode then none else some (s, some (.sendCode s.form.username))
  | .submitPasswordResetForm =>
    if s.canSubmitForm && s.hasSentCode then some (s, some (.resetPassword s.form)) else none

/-- What is set after the end of a call, unless there is an error. -/
def finish (s : State) : Call → Except Fault Result → State
  | .validateForm _, .ok (.validation v) =>
    { s with fieldMessages := v.fieldMessages, canSubmitForm := v.canSubmitForm }
  | .sendCode _, .ok _ => { s with hasSentCode := true }
  | _, _ => s

end State

/-- What is open in an answer. -/
inductive Answer
  /-- The answer of the function that validates, given the accounts that there are by then. -/
  | post (w : Accounts) (invocation : Invocation)
  | cognito (r : Except Err Unit)

section

variable [Validators]

/-- The answer of a request. -/
def answer : (o : formCalls.Op) → Answer → Option (formCalls.Ans o)
  | .inl request, .post w invocation => (serve w request invocation).map Prod.fst
  | .inr _, .cognito r => some r
  | _, _ => none

/-- The component. -/
abbrev component : Component formCalls Fault where
  State := State
  Event := Event
  Call := Call
  Result := Result
  Choice := Answer
  handle := State.handle
  program := Call.program
  finish := State.finish
  answer := answer

/-- The component as it starts, having its form validated. -/
def mounted : component.Config := .mount .initial (.validateForm State.initial.form)

/-- When a form is validated, there is an account of the name. -/
def HasAccount (username : String) (_ : component.Config) : component.Move → Prop
  | .resume _ (.post w _) => ∃ a ∈ w.rows, a.userName = username
  | _ => True

end

/-! ## What an answer says -/

section

variable [Validators] {form : ResetPasswordForm} {username : String}

omit [Validators] in
/-- The program of a validation asks once. -/
theorem program_validateForm (form : ResetPasswordForm) :
    (Call.validateForm form).program = Program.ask (S := formCalls)
      (.inl ⟨"/api/validate_sign_up_form", stringify (reqBody form.validated.fields)⟩) fun r =>
        Program.ofExcept ((postResult r).map fun errData =>
          .validation (validation form.validated.fields
            (errData ++ confirmationErrs form.validated.fields))) := by
  rw [Call.program, Client.validateForm, validateSignUpForm, post]
  refine congrArg (Program.ask (S := formCalls) _) (funext fun r => ?_)
  beta_reduce
  cases postResult r <;> rfl

/-- A form can be submitted, by an answer about it, only if it has a code, and there is no
    account of its user name. -/
theorem of_canSubmitForm {w : Accounts} {u e : String}
    (hu : denoted form.validated.posted.userName = some u)
    (hv : (validation form.validated.fields (formErrs w form.validated u e)).canSubmitForm = true) :
    form.verificationCode ≠ "" ∧ ∀ a ∈ w.rows, a.userName ≠ form.username := by
  rw [canSubmitForm_formErrs] at hv
  obtain ⟨hcode, -⟩ := hv ("verification_code", form.verificationCode) (by
    simp [validated, Form.fields])
  obtain ⟨-, husername, -⟩ := hv ("username", form.username) (by simp [validated, Form.fields])
  obtain ⟨hvalid, hunused⟩ := husername rfl
  cases hu.symm.trans (denoted_userName hvalid)
  exact ⟨hcode, hunused⟩

end

/-! ## What is submitted -/

/-- What holds of the state and the calls. -/
structure Inv (username : String) (s : State) (calls : List Call) : Prop where
  /-- There is no code before it is sent. -/
  unsent : s.hasSentCode = false → s.form.verificationCode = ""
  /-- A form with a code has the user name that the code was sent for. -/
  codes : ∀ form, .validateForm form ∈ calls → form.verificationCode ≠ "" →
    s.hasSentCode = true ∧ form.username = s.form.username
  /-- The button is enabled by the answer about such a form, of another user. -/
  enabled : s.canSubmitForm = true → ∃ form, .validateForm form ∈ calls ∧
    form.verificationCode ≠ "" ∧ form.username ≠ username
  resets : ∀ form, .resetPassword form ∈ calls → form.username ≠ username

section

variable {username : String} {s : State} {calls : List Call}

/-- Nothing was submitted at first. -/
theorem inv_initial : Inv username .initial [.validateForm State.initial.form] where
  unsent _ := rfl
  codes form hform hcode := by
    cases List.mem_singleton.1 hform
    exact absurd rfl hcode
  enabled h := by cases h
  resets form hform := by cases List.mem_singleton.1 hform

/-- The user name is changed only before the code is sent, and the code only afterwards. -/
theorem Inv.change (h : Inv username s calls) {name value : String} {form : ResetPasswordForm}
    (henabled : s.isEnabled name = true) (hform : s.form.change name value = some form) :
    Inv username { s with form := form } (calls ++ [.validateForm form]) := by
  have hkeeps : (s.hasSentCode = true ∧ form.username = s.form.username) ∨
      (s.hasSentCode = false ∧ form.verificationCode = "") := by
    by_cases hname : name = "username"
    · subst hname
      have hunsent : s.hasSentCode = false := by simpa [State.isEnabled] using henabled
      cases hform
      exact .inr ⟨hunsent, h.unsent hunsent⟩
    · have hsent : s.hasSentCode = true := by simpa [State.isEnabled, hname] using henabled
      refine .inl ⟨hsent, ?_⟩
      unfold ResetPasswordForm.change at hform
      split at hform
      · exact absurd rfl hname
      · cases hform; rfl
      · cases hform; rfl
      · cases hform; rfl
      · cases hform
  refine ⟨fun hunsent => ?_, fun form' hmem hcode => ?_, fun hcan => ?_, fun form' hmem => ?_⟩
  · rcases hkeeps with ⟨hsent, -⟩ | ⟨-, hcode⟩
    · exact absurd (hsent.symm.trans hunsent) (by simp)
    · exact hcode
  · rcases List.mem_append.1 hmem with hmem | hmem
    · obtain ⟨hsent, husername⟩ := h.codes form' hmem hcode
      rcases hkeeps with ⟨-, hsame⟩ | ⟨hunsent, -⟩
      · exact ⟨hsent, husername.trans hsame.symm⟩
      · exact absurd (hsent.symm.trans hunsent) (by simp)
    · cases List.mem_singleton.1 hmem
      rcases hkeeps with ⟨hsent, -⟩ | ⟨-, hempty⟩
      · exact ⟨hsent, rfl⟩
      · exact absurd hempty hcode
  · obtain ⟨form', hmem, hform'⟩ := h.enabled hcan
    exact ⟨form', List.mem_append_left _ hmem, hform'⟩
  · rcases List.mem_append.1 hmem with hmem | hmem
    · exact h.resets form' hmem
    · cases List.mem_singleton.1 hmem

/-- A call that validates nothing. -/
theorem Inv.call (h : Inv username s calls) {call : Call}
    (hvalidate : ∀ form, call ≠ .validateForm form)
    (hreset : ∀ form, call = .resetPassword form → form.username ≠ username) :
    Inv username s (calls ++ [call]) where
  unsent := h.unsent
  codes form hmem hcode := by
    rcases List.mem_append.1 hmem with hmem | hmem
    · exact h.codes form hmem hcode
    · exact absurd (List.mem_singleton.1 hmem).symm (hvalidate form)
  enabled hcan :=
    let ⟨form, hmem, hform⟩ := h.enabled hcan
    ⟨form, List.mem_append_left _ hmem, hform⟩
  resets form hmem := by
    rcases List.mem_append.1 hmem with hmem | hmem
    · exact h.resets form hmem
    · exact hreset form (List.mem_singleton.1 hmem).symm

/-- No event breaks the invariant: the inputs are frozen once the code is sent. -/
theorem Inv.handle (h : Inv username s calls) {e : Event} {s' : State} {call : Option Call}
    (hs : s.handle e = some (s', call)) : Inv username s' (calls ++ call.toList) := by
  cases e with
  | change name value =>
    rw [State.handle] at hs
    split at hs
    next henabled =>
      split at hs
      next form hform =>
        cases hs
        exact h.change henabled hform
      next =>
        cases hs
        simpa using h
    next => cases hs
  | submitUsername =>
    rw [State.handle] at hs
    split at hs
    next => cases hs
    next =>
      cases hs
      exact h.call nofun nofun
  | submitPasswordResetForm =>
    rw [State.handle] at hs
    split at hs
    next hcan =>
      cases hs
      rw [Bool.and_eq_true] at hcan
      refine h.call nofun fun form hform => ?_
      cases hform
      -- The form that enables the button is of the same user.
      obtain ⟨form, hmem, hcode, hne⟩ := h.enabled hcan.1
      rwa [(h.codes form hmem hcode).2] at hne
    next => cases hs

/-- The answer about a form that is validated. -/
theorem Inv.validated (h : Inv username s calls) {form : ResetPasswordForm}
    (hmem : .validateForm form ∈ calls) {v : Validation}
    (hv : v.canSubmitForm = true → form.verificationCode ≠ "" ∧ form.username ≠ username) :
    Inv username (s.finish (.validateForm form) (.ok (.validation v))) calls :=
  ⟨h.unsent, h.codes, fun hcan => ⟨form, hmem, hv hcan⟩, h.resets⟩

/-- That the code was sent submits nothing. -/
theorem Inv.sent (h : Inv username s calls) : Inv username { s with hasSentCode := true } calls :=
  ⟨nofun, fun form hmem hcode => ⟨rfl, (h.codes form hmem hcode).2⟩, h.enabled, h.resets⟩

/-- A call that fails leaves the form as it is. -/
theorem finish_error (call : Call) (e : Fault) : s.finish call (.error e) = s := by
  cases call <;> rfl

end

section

variable [Validators] {username : String} {c : component.Config}

omit [Validators] in
/-- A post that ends without an error has read the errors of the answer. -/
theorem of_outcome_post {r : Except Err APIGatewayProxyResponse} {f : List FieldErr → Result}
    {result : Result}
    (h : (Program.ofExcept ((postResult r).map f) : Program formCalls Fault Result).outcome =
      some (.ok result)) : ∃ errData, postResult r = .ok errData ∧ result = f errData := by
  cases hr : postResult r with
  | error e =>
    rw [hr] at h
    cases h
  | ok errData =>
    rw [hr] at h
    cases h
    exact ⟨errData, rfl, rfl⟩

omit [Validators] in
/-- No call ends well before it has asked. -/
theorem outcome_program {call : Call} {r : Except Fault Result}
    (h : call.program.outcome = some r) : ∃ e, r = .error e := by
  cases call with
  | validateForm form =>
    rw [program_validateForm] at h
    cases h
  | sendCode username => cases h
  | resetPassword form =>
    rw [Call.program, Client.resetPassword, assertConfirmPassword] at h
    split at h
    next =>
      cases h
      exact ⟨_, rfl⟩
    next => cases h

omit [Validators] in
/-- A call asks once. -/
theorem done_of_program {call : Call} {o : formCalls.Op}
    {k : formCalls.Ans o → Program formCalls Fault Result} (h : call.program = .ask o k)
    (a : formCalls.Ans o) : (k a).Done := by
  have hcognito : ∀ r : Except Err Unit,
      ((Program.ofExcept (r.mapError .err) : Program formCalls Fault Unit) >>= fun _ =>
        pure Result.done).Done := by
    rintro (e | _) <;> trivial
  cases call with
  | validateForm form =>
    rw [program_validateForm] at h
    cases h
    have hofExcept : ∀ r : Except Fault Result,
        (Program.ofExcept r : Program formCalls Fault Result).Done := by
      rintro (e | _) <;> trivial
    exact hofExcept _
  | sendCode username =>
    cases h
    exact hcognito a
  | resetPassword form =>
    rw [Call.program, Client.resetPassword, assertConfirmPassword] at h
    split at h
    next => cases h
    next =>
      cases h
      exact hcognito a

/-- Starting a call leaves the form as it is. -/
theorem state_start (call : Call) : (c.start call).state = c.state := by
  rw [Component.Config.start]
  cases h : (component.program call).outcome with
  | none => rw [Component.Config.settle_of_none h]
  | some r =>
    obtain ⟨e, rfl⟩ := outcome_program h
    rw [Component.Config.settle_of_outcome h]
    exact finish_error call e

/-- The calls are recorded when they are started. -/
theorem inv_start {s : State} {call : Call} (h : Inv username s (c.calls ++ [call])) :
    Inv username ((⟨s, c.tasks, c.ended⟩ : component.Config).start call).state
      ((⟨s, c.tasks, c.ended⟩ : component.Config).start call).calls := by
  rw [state_start, Component.Config.calls_start]
  exact h

/-- The answer to a call that asks keeps the invariant. -/
theorem inv_finish {ch : Answer} (hc : Inv username c.state c.calls) {call : Call}
    (hmem : call ∈ c.calls) (hch : ∀ w invocation, ch = .post w invocation →
      ∃ a ∈ w.rows, a.userName = username) {o : formCalls.Op}
    {k : formCalls.Ans o → Program formCalls Fault Result} (hprogram : call.program = .ask o k)
    {a : formCalls.Ans o} (ha : answer o ch = some a) {r : Except Fault Result}
    (hr : (k a).outcome = some r) : Inv username (c.state.finish call r) c.calls := by
  cases r with
  | error e =>
    rw [finish_error]
    exact hc
  | ok result =>
    cases call with
    -- Only a validation enables the button, and its answer is about the form as it was sent.
    | validateForm form =>
      rw [program_validateForm] at hprogram
      cases hprogram
      cases ch with
      | cognito r => cases ha
      | post w invocation =>
        obtain ⟨errData, hpost, rfl⟩ := of_outcome_post hr
        obtain ⟨u, e, hu, herrs⟩ := formErrs_of_serve form.validated ha hpost
        refine hc.validated hmem fun hcan => ?_
        rw [herrs] at hcan
        obtain ⟨hcode, hunused⟩ := of_canSubmitForm hu hcan
        obtain ⟨account, haccount, rfl⟩ := hch w invocation rfl
        exact ⟨hcode, (hunused account haccount).symm⟩
    | sendCode username => exact hc.sent
    | resetPassword form => exact hc

/-- In every run, the invariant holds. -/
theorem inv (h : Component.Reaches (HasAccount username) mounted c) :
    Inv username c.state c.calls := by
  refine h.induction (fun c : component.Config => Inv username c.state c.calls) ?_ ?_ ?_
  · exact inv_start (c := ⟨.initial, [], []⟩) inv_initial
  · intro c e s call _ hc _ hs
    have hhandle := hc.handle hs
    cases call with
    | none =>
      rw [Option.toList_none, List.append_nil] at hhandle
      exact hhandle
    | some call => exact inv_start hhandle
  · intro c i ch call o k a hrun hc hok ht ha
    rw [Component.Config.calls_resume ht, Component.Config.resume]
    have htask := hrun.of_task
      (P := fun (call : Call) (p : Program formCalls Fault Result) => p.Done ∨ p = call.program)
      (fun call => .inr rfl) (fun call o k ch a hp _ => hp.elim (fun hdone => hdone.elim)
        fun hp => .inl (done_of_program hp.symm a)) _ (List.mem_of_getElem? ht)
    have hprogram : call.program = .ask o k := htask.elim (fun hdone => hdone.elim) Eq.symm
    have hmem : call ∈ c.calls := List.mem_map.2 ⟨_, List.mem_of_getElem? ht, rfl⟩
    cases hr : (k a).outcome with
    | none =>
      rw [Component.Config.settle_of_none hr]
      exact hc
    | some r =>
      rw [Component.Config.settle_of_outcome hr]
      refine inv_finish hc hmem ?_ hprogram ha hr
      rintro w invocation rfl
      exact hok

/-- As long as there is an account of the name, the form never submits a new password for its
    user, whatever is typed and clicked, in whatever order the calls are answered, and whether
    or not a code was sent. -/
theorem resetPassword_never (h : Component.Reaches (HasAccount username) mounted c)
    {form : ResetPasswordForm} (hform : .resetPassword form ∈ c.calls) :
    form.username ≠ username :=
  (inv h).resets form hform

end

/-! A user has an account, and another user, who has none, is given a new password. -/

section

attribute [local instance] validators

/-- The code is sent, and the form is filled for a user without an account. -/
def filled : List component.Move :=
  [.event (.change "username" "bob"), .event .submitUsername, .resume 2 (.cognito (.ok ())),
    .event (.change "verification_code" "123456"), .event (.change "password" "Passw0rd!"),
    .event (.change "password_confirmation" "Passw0rd!"),
    .resume 5 (.post accounts (.answered [.ok, .ok])), .event .submitPasswordResetForm]

/-- While `alice` has an account, and the others are answered for. -/
def hasAlice (_ : component.Config) : component.Move → Bool
  | .resume _ (.post w _) => w.rows.any fun a => a.userName = "alice"
  | _ => true

/-- What is checked of the moves of the example is the condition of the runs. -/
theorem hasAccount_of_hasAlice (c : component.Config) (m : component.Move)
    (h : hasAlice c m = true) : HasAccount "alice" c m := by
  cases m with
  | event e => trivial
  | resume i ch =>
    cases ch with
    | cognito r => trivial
    | post w invocation => simpa [hasAlice, HasAccount] using h

/-- The form submits a new password for a user name that has no account yet. -/
theorem resetPassword_never_filled : ∃ c, Component.Reaches (HasAccount "alice") mounted c ∧
    ∃ form, .resetPassword form ∈ c.calls ∧ form.username ≠ "alice" := by
  obtain ⟨c, hc, hp⟩ := Trace.Reaches.exists_of_run Component.Config.next hasAlice filled mounted
    (fun c => .resetPassword ⟨"bob", "Passw0rd!", "Passw0rd!", "123456"⟩ ∈ c.calls)
    (by decide +kernel)
  have hreaches := hc.mono hasAccount_of_hasAlice
  exact ⟨c, hreaches, _, of_decide_eq_true hp, resetPassword_never hreaches (of_decide_eq_true hp)⟩

end

end ResetPasswordForm

end Knowtfolio.Client
