import Knowtfolio.Client.ResetPassword

/-!
# The form for a sign-up

`client/src/components/organisms/forms/SignUpForm`: the form is validated after every change, and
submitted; when the sign-up has succeeded, its inputs are disabled, and the user is asked for the
code that has been sent. With the code, the form confirms the registration of its user name, and
signs in with its password.

The inputs are not disabled while the sign-up is under way. What is typed until then stays in the
form, which then confirms and signs in what it has not signed up. So does not a form that is not
changed in the meantime: whatever overlaps, and whatever fails, it asks for what it has signed up
(`verified_signedUp`).
-/

namespace Knowtfolio.Client

open Interaction Json SignUp PreSignUp

/-! ## The calls -/

/-- `SignUpForm`. -/
structure SignUpForm where
  email : String
  password : String
  passwordConfirmation : String
  username : String
  deriving DecidableEq

/-- `signUpToCognito`. -/
def signUpToCognito (form : SignUpForm) : Program formCalls Fault Unit := do
  assertConfirmPassword form.password form.passwordConfirmation
  askCognito (.signUp form.username form.password form.email)

/-- `confirmSigningUpToCognito`. -/
def confirmSigningUpToCognito (username code : String) : Program formCalls Fault Unit :=
  askCognito (.confirmRegistration username code)

/-- `signInToCognitoWithPassword`. -/
def signInToCognitoWithPassword (username password : String) : Program formCalls Fault Unit :=
  askCognito (.authenticateUser username password)

namespace SignUpForm

/-- What is validated of the form. -/
def validated (form : SignUpForm) : Form :=
  .signUp form.email form.password form.passwordConfirmation form.username

/-- `onChangeForm`, if there is a field of the name. -/
def change (form : SignUpForm) (name value : String) : Option SignUpForm :=
  match name with
  | "password" => some { form with password := value }
  | "username" => some { form with username := value }
  | "email" => some { form with email := value }
  | "password_confirmation" => some { form with passwordConfirmation := value }
  | _ => none

/-! ## The component -/

/-- The state of the component. -/
structure State where
  form : SignUpForm
  fieldMessages : List (String × Message)
  canSubmitForm : Bool
  hasSignedUp : Bool
  code : String

/-- What the user does: an input is changed, or a button is clicked. -/
inductive Event
  | change (name value : String)
  | changeCode (value : String)
  | submitForm
  | verifyCode
  deriving DecidableEq

/-- What the component calls for. -/
inductive Call
  | validateForm (form : SignUpForm)
  | submitForm (form : SignUpForm)
  | verifyCode (username password code : String)
  deriving DecidableEq

/-- What a call returns. -/
inductive Result
  | validation (v : Validation)
  | done

/-- The program of a call. -/
def Call.program : Call → Program formCalls Fault Result
  | validateForm form => do
    let v ← (Client.validateForm form.validated.fields).inl
    pure (.validation v)
  | submitForm form => do
    signUpToCognito form
    pure .done
  | verifyCode username password code => do
    confirmSigningUpToCognito username code
    signInToCognitoWithPassword username password
    pure .done

namespace State

/-- The component as it starts. -/
def initial : State := ⟨⟨"", "", "", ""⟩, [], false, false, ""⟩

/-- The inputs of the form, and the button that submits it, are disabled when the user has signed
    up. Then there are an input for the code, and a button that verifies it. -/
def handle (s : State) : Event → Option (State × Option Call)
  | .change name value =>
    if s.hasSignedUp then none
    else
      match s.form.change name value with
      | some form => some ({ s with form := form }, some (.validateForm form))
      | none => some (s, none)
  | .changeCode value => if s.hasSignedUp then some ({ s with code := value }, none) else none
  | .submitForm =>
    if s.canSubmitForm && !s.hasSignedUp then some (s, some (.submitForm s.form)) else none
  | .verifyCode =>
    if s.hasSignedUp then some (s, some (.verifyCode s.form.username s.form.password s.code))
    else none

/-- What is set after the end of a call, unless there is an error. -/
def finish (s : State) : Call → Except Fault Result → State
  | .validateForm _, .ok (.validation v) =>
    { s with fieldMessages := v.fieldMessages, canSubmitForm := v.canSubmitForm }
  | .submitForm _, .ok _ => { s with hasSignedUp := true }
  | _, _ => s

/-- Calls that end leave the inputs as they are. -/
theorem form_finish (s : State) (call : Call) (r : Except Fault Result) :
    (s.finish call r).form = s.form := by
  unfold finish
  split <;> rfl

/-- The end of a call has signed up if it is that of a sign-up that has succeeded. -/
theorem hasSignedUp_finish {s : State} {call : Call} {r : Except Fault Result}
    (h : (s.finish call r).hasSignedUp = true) :
    s.hasSignedUp = true ∨ ∃ form result, call = .submitForm form ∧ r = .ok result := by
  unfold finish at h
  split at h
  next => exact .inl h
  next form result => exact .inr ⟨form, result, rfl, rfl⟩
  next => exact .inl h

end State

section

variable [Validators]

/-- The component. -/
abbrev component : Component formCalls Fault where
  State := State
  Event := Event
  Call := Call
  Result := Result
  Choice := ResetPasswordForm.Answer
  handle := State.handle
  program := Call.program
  finish := State.finish
  answer := ResetPasswordForm.answer

/-- The component as it starts, having its form validated. -/
def mounted : component.Config := .mount .initial (.validateForm State.initial.form)

/-- A sign-up is under way. -/
def SigningUp (c : component.Config) (form : SignUpForm) : Prop :=
  ∃ t ∈ c.tasks, t.call = .submitForm form ∧ ¬ t.rest.Done

/-- No input of the form is changed while a sign-up is under way. -/
def Unchanged (c : component.Config) : component.Move → Prop
  | .event (.change _ _) => ∀ form, ¬ SigningUp c form
  | _ => True

/-- A sign-up with the user name and the password has succeeded. -/
def SignedUp (c : component.Config) (username password : String) : Prop :=
  ∃ e ∈ c.ended, ∃ form result, e.call = .submitForm form ∧ e.result = .ok result ∧
    form.username = username ∧ form.password = password

/-! ## What is signed up -/

/-- What holds of the form, the sign-ups, and the codes that are verified. -/
structure Inv (c : component.Config) : Prop where
  signingUp : ∀ form, SigningUp c form → form = c.state.form
  signedUp : c.state.hasSignedUp = true → SignedUp c c.state.form.username c.state.form.password
  verified : ∀ username password code, .verifyCode username password code ∈ c.calls →
    SignedUp c username password

variable {c : component.Config} {s : State} {call : Call}

/-- The end of a call, or that there is none, keeps the invariant. -/
theorem inv_settle {i : ℕ} {p : Program formCalls Fault Result}
    (hc : Inv c) (hform : ∀ form, call = .submitForm form → form = c.state.form) :
    Inv (c.settle i call p) := by
  cases hp : p.outcome with
  | none => rwa [Component.Config.settle_of_none hp]
  | some r =>
    rw [Component.Config.settle_of_outcome hp]
    have hmono : ∀ {username password}, SignedUp c username password →
        SignedUp ⟨c.state.finish call r, c.tasks, c.ended ++ [⟨i, call, r⟩]⟩ username password :=
      fun ⟨e, he, h⟩ => ⟨e, List.mem_append_left _ he, h⟩
    refine ⟨fun form h => ?_, fun h => ?_, fun username password code h => ?_⟩
    · exact (hc.signingUp form h).trans (State.form_finish _ _ _).symm
    · show SignedUp _ (c.state.finish call r).form.username (c.state.finish call r).form.password
      rw [State.form_finish]
      rcases State.hasSignedUp_finish h with h | ⟨form, result, rfl, rfl⟩
      · exact hmono (hc.signedUp h)
      · obtain rfl := hform form rfl
        exact ⟨_, List.mem_append_right _ (List.mem_singleton.2 rfl), _, result, rfl, rfl, rfl, rfl⟩
    · exact hmono (hc.verified username password code h)

/-- A call that is started is for the form, and a code is verified for what was signed up. -/
theorem inv_start (hsigningUp : ∀ form, SigningUp c form → form = s.form)
    (hsignedUp : s.hasSignedUp = true → SignedUp c s.form.username s.form.password)
    (hverified : ∀ username password code, .verifyCode username password code ∈ c.calls ++ [call] →
      SignedUp c username password)
    (hform : ∀ form, call = .submitForm form → form = s.form) :
    Inv ((⟨s, c.tasks, c.ended⟩ : component.Config).start call) := by
  refine inv_settle ⟨?_, hsignedUp, ?_⟩ hform
  · rintro form ⟨t, ht, hcall, hdone⟩
    rcases List.mem_append.1 ht with ht | ht
    · exact hsigningUp form ⟨t, ht, hcall, hdone⟩
    · rw [List.mem_singleton.1 ht] at hcall
      exact hform form hcall
  · intro username password code h
    rw [Component.Config.calls, List.map_append] at h
    exact hverified username password code h

/-- An edit or a click keeps the invariant, as no input is changed while a sign-up is under way. -/
theorem Inv.event (hc : Inv c) {e : Event} (hok : Unchanged c (.event e)) {call : Option Call}
    (hs : c.state.handle e = some (s, call)) : Inv (c.handled s call) := by
  -- A call that verifies nothing, or is for what was signed up.
  have hother : ∀ {call : Call},
      (∀ username password code, call ≠ .verifyCode username password code) →
      ∀ username password code, .verifyCode username password code ∈ c.calls ++ [call] →
        SignedUp c username password := by
    intro call hne username password code h
    rcases List.mem_append.1 h with h | h
    · exact hc.verified username password code h
    · exact absurd (List.mem_singleton.1 h).symm (hne username password code)
  cases e with
  | change name value =>
    simp only [State.handle] at hs
    split_ifs at hs with hsigned
    split at hs
    next form hform =>
      cases hs
      exact inv_start (fun form h => absurd h (hok form)) (fun h => absurd h hsigned)
        (hother (fun _ _ _ h => by cases h)) (fun _ h => by cases h)
    next =>
      cases hs
      exact hc
  | changeCode value =>
    simp only [State.handle] at hs
    split_ifs at hs
    cases hs
    exact ⟨hc.signingUp, hc.signedUp, hc.verified⟩
  | submitForm =>
    simp only [State.handle] at hs
    split_ifs at hs
    cases hs
    refine inv_start hc.signingUp hc.signedUp (hother (fun _ _ _ h => by cases h)) ?_
    rintro _ ⟨⟩
    rfl
  | verifyCode =>
    simp only [State.handle] at hs
    split_ifs at hs with hsigned
    cases hs
    refine inv_start hc.signingUp hc.signedUp (fun username password code h => ?_)
      (fun _ h => by cases h)
    rcases List.mem_append.1 h with h | h
    · exact hc.verified username password code h
    · cases List.mem_singleton.1 h
      exact hc.signedUp hsigned

/-- An answer keeps the invariant: a sign-up that ends is of the inputs that are still there. -/
theorem Inv.resume (hc : Inv c) {i : ℕ} {o : formCalls.Op}
    {k : formCalls.Ans o → Program formCalls Fault Result} {p : Program formCalls Fault Result}
    (ht : c.tasks[i]? = some ⟨call, .ask o k⟩) : Inv (c.resume i call p) := by
  have hmem := List.mem_of_getElem? ht
  have hform : ∀ form, call = .submitForm form → form = c.state.form := fun form hcall =>
    hc.signingUp form ⟨_, hmem, hcall, fun hdone => hdone⟩
  refine inv_settle ⟨?_, hc.signedUp, ?_⟩ hform
  · rintro form ⟨t, ht', hcall, hdone⟩
    rcases List.mem_or_eq_of_mem_set ht' with ht' | rfl
    · exact hc.signingUp form ⟨t, ht', hcall, hdone⟩
    · exact hform form hcall
  · intro username password code h
    obtain ⟨t, ht', hcall⟩ := List.mem_map.1 h
    rcases List.mem_or_eq_of_mem_set ht' with ht' | rfl
    · exact hc.verified username password code (List.mem_map.2 ⟨t, ht', hcall⟩)
    · exact hc.verified username password code (List.mem_map.2 ⟨_, hmem, hcall⟩)

/-- At first, nothing was called. -/
theorem inv_mounted : Inv mounted := by
  have hstart : Inv ((⟨.initial, [], []⟩ : component.Config).start
      (.validateForm State.initial.form)) := by
    refine inv_start (c := ⟨.initial, [], []⟩) ?_ ?_ ?_ ?_
    · rintro form ⟨t, ht, -⟩
      exact absurd ht List.not_mem_nil
    · rintro ⟨⟩
    · intro username password code h
      cases List.mem_singleton.1 h
    · rintro form ⟨⟩
  exact hstart

/-- In every run in which no input is changed during a sign-up, the invariant holds. -/
theorem inv (h : Component.Reaches Unchanged mounted c) : Inv c :=
  h.induction Inv inv_mounted (fun _ _ _ _ _ hc hok hs => hc.event hok hs)
    fun _ _ _ _ _ _ _ _ hc _ ht _ => hc.resume ht

/-- As long as no input of the form is changed while a sign-up is under way, the form confirms the
    registration of, and signs in with, only a user name and a password with which it has signed
    up. -/
theorem verified_signedUp (h : Component.Reaches Unchanged mounted c)
    {username password code : String} (hcall : .verifyCode username password code ∈ c.calls) :
    SignedUp c username password :=
  (inv h).verified username password code hcall

end

/-! A user signs up, and verifies the code. -/

section

attribute [local instance] validators

/-- The form is filled and submitted, while a validation is under way, and the code is verified. -/
def verified : List component.Move :=
  [.event (.change "username" "bob"), .event (.change "email" "bob@example.com"),
    .event (.change "password" "Passw0rd!"), .event (.change "password_confirmation" "Passw0rd!"),
    .resume 4 (.post accounts (.answered [.ok, .ok])), .event .submitForm,
    .resume 1 (.post accounts (.answered [.ok, .ok])), .resume 5 (.cognito (.ok ())),
    .event (.changeCode "123456"), .event .verifyCode]

/-- The form that a call submits. -/
def Call.submitted : Call → Option SignUpForm
  | submitForm form => some form
  | _ => none

/-- No input is changed after the form was submitted. -/
def unchanged (c : component.Config) : component.Move → Bool
  | .event (.change _ _) => c.tasks.all fun t => t.call.submitted.isNone
  | _ => true

/-- What is checked of the moves of the example is the condition of the runs. -/
theorem unchanged_of_eq_true (c : component.Config) (m : component.Move)
    (h : unchanged c m = true) : Unchanged c m := by
  cases m with
  | resume i ch => trivial
  | event e =>
    cases e with
    | change name value =>
      rintro form ⟨t, ht, hcall, -⟩
      have := List.all_eq_true.1 h t ht
      rw [hcall] at this
      cases this
    | _ => trivial

/-- The form is filled, signs up, and verifies the code. -/
theorem verified_signedUp_bob : ∃ c, Component.Reaches Unchanged mounted c ∧
    .verifyCode "bob" "Passw0rd!" "123456" ∈ c.calls ∧ SignedUp c "bob" "Passw0rd!" := by
  obtain ⟨c, hc, hp⟩ := Trace.Reaches.exists_of_run Component.Config.next unchanged verified mounted
    (fun c => .verifyCode "bob" "Passw0rd!" "123456" ∈ c.calls) (by decide +kernel)
  have hreaches := hc.mono unchanged_of_eq_true
  exact ⟨c, hreaches, of_decide_eq_true hp, verified_signedUp hreaches (of_decide_eq_true hp)⟩

/-- The user name is changed after the form was submitted, and before the sign-up has succeeded. -/
def renamed : List component.Move :=
  [.event (.change "username" "bob"), .event (.change "password" "Passw0rd!"),
    .event (.change "password_confirmation" "Passw0rd!"), .event (.change "email" "bob@example.com"),
    .resume 4 (.post accounts (.answered [.ok, .ok])), .event .submitForm,
    .event (.change "username" "carol"), .resume 5 (.cognito (.ok ())), .event .verifyCode]

/-- The form then verifies the code of a user that it has not signed up. -/
theorem exists_not_signedUp : ∃ c, Component.Reaches (fun _ _ => True) mounted c ∧
    .verifyCode "carol" "Passw0rd!" "" ∈ c.calls ∧ ¬ SignedUp c "carol" "Passw0rd!" := by
  obtain ⟨c, hc, hp⟩ := Trace.Reaches.exists_of_run Component.Config.next (fun _ _ => true) renamed
    mounted (fun c => .verifyCode "carol" "Passw0rd!" "" ∈ c.calls ∧ c.ended.all fun e =>
      e.call.submitted.all fun form => form.username = "bob") (by decide +kernel)
  obtain ⟨hcall, hended⟩ := of_decide_eq_true hp
  refine ⟨c, hc.mono fun _ _ _ => trivial, hcall, ?_⟩
  rintro ⟨e, he, form, result, hform, -, husername, -⟩
  have := List.all_eq_true.1 hended e he
  rw [hform, Call.submitted, Option.all_some, husername] at this
  exact absurd (of_decide_eq_true this) (by decide)

end

end SignUpForm

end Knowtfolio.Client
