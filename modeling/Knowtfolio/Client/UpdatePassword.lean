import Knowtfolio.Interaction.Component
import Knowtfolio.Client.Forms

/-!
# The form for another password

`client/src/components/organisms/forms/UpdatePasswordForm`: after every change of the form,
the password and its confirmation are validated. The answer enables the button by which the
form is submitted, or disables it; what is submitted is the form as it is then. Whatever
answer arrives is taken for one about the form, and submitting checks nothing by itself,
unlike in a sign-up or for a password that was forgotten.

An answer that enables the button is one about a password that is valid and confirmed
(`not_isWrong_of_answers`). So those that are submitted while the answer is still about the
form are confirmed (`onlyConfirmed`), but not the others.
-/

namespace Knowtfolio.Client

open Interaction Json SignUp PreSignUp

/-- `UpdatePasswordForm`. -/
structure UpdatePasswordForm where
  oldPassword : String
  password : String
  passwordConfirmation : String
  deriving DecidableEq

namespace UpdatePasswordForm

/-- What is validated of the form. -/
def validated (form : UpdatePasswordForm) : Form :=
  .updatePassword form.password form.passwordConfirmation

/-- `handleChangeForm`, if there is a field of the name. -/
def change (form : UpdatePasswordForm) (name value : String) : Option UpdatePasswordForm :=
  match name with
  | "password" => some { form with password := value }
  | "old_password" => some { form with oldPassword := value }
  | "password_confirmation" => some { form with passwordConfirmation := value }
  | _ => none

/-- A call of `user.changePassword`, with the form at the time. -/
structure Submission where
  oldUserPassword : String
  newUserPassword : String
  form : UpdatePasswordForm
  deriving DecidableEq

/-- The state of the component, and the calls that it has made. -/
structure State where
  form : UpdatePasswordForm
  fieldMessages : List (String × Message)
  canSubmitForm : Bool
  submitted : List Submission

/-- What the user does: a field is changed, or the button is clicked. -/
inductive Event
  | change (name value : String)
  | click
  deriving DecidableEq

namespace State

/-- The component as it starts. -/
def initial : State := ⟨⟨"", "", ""⟩, [], false, []⟩

/-- `handleSubmitForm`. -/
def handleSubmitForm (s : State) : State :=
  { s with submitted := s.submitted ++ [⟨s.form.oldPassword, s.form.password, s.form⟩] }

/-- Every change of the form has it validated. The button is clicked while it is enabled. -/
def handle (s : State) : Event → Option (State × Option Form)
  | .change name value =>
    match s.form.change name value with
    | some form => some ({ s with form := form }, some form.validated)
    | none => some (s, none)
  | .click => if s.canSubmitForm then some (s.handleSubmitForm, none) else none

/-- What is set after the answer, unless there is an error. -/
def finish (s : State) (_ : Form) : Except Fault Validation → State
  | .ok v => { s with fieldMessages := v.fieldMessages, canSubmitForm := v.canSubmitForm }
  | .error _ => s

end State

section

variable [Validators]

/-- The component. A validation is answered for the accounts that there are by then. -/
abbrev component : Component postCalls Fault where
  State := State
  Event := Event
  Call := Form
  Result := Validation
  Choice := Accounts × Invocation
  handle := State.handle
  program form := validateForm form.fields
  finish := State.finish
  answer request ch := (serve ch.1 request ch.2).map Prod.fst

/-- The component as it starts, having its form validated. -/
def mounted : component.Config := .mount .initial (State.initial.form.validated)

/-- Passwords are submitted only if they are the confirmed ones and are valid. -/
def OnlyConfirmed (c : component.Config) : Prop :=
  ∀ s ∈ c.state.submitted, s.newUserPassword = s.form.passwordConfirmation ∧
    validateCognitoPassword s.newUserPassword = true

/-- The answers that were no errors, with the forms that they are about, in the order of their
    arrival. -/
def answers (c : component.Config) : List (Form × Validation) :=
  Component.written (C := component) (fun form r => r.toOption.map fun v => (form, v)) c.ended

/-- The answer that has arrived last is one about the form as it is. -/
def UpToDate (c : component.Config) : Prop :=
  (answers c).getLast?.map Prod.fst = some c.state.form.validated

instance (c : component.Config) : Decidable (UpToDate c) :=
  inferInstanceAs (Decidable ((answers c).getLast?.map Prod.fst = some c.state.form.validated))

/-- The button is clicked only while the answer is one about the form. -/
def ClicksUpToDate (c : component.Config) : component.Move → Prop
  | .event .click => UpToDate c
  | _ => True

instance (c : component.Config) : DecidablePred (ClicksUpToDate c)
  | .event .click => inferInstanceAs (Decidable (UpToDate c))
  | .event (.change _ _) | .resume _ _ => isTrue trivial

end

end UpdatePasswordForm

/-! ## What is known of an answer -/

section

variable [Validators] {form : Form} {v : Validation}

/-- A validation without an error is one by the errors of the form. -/
theorem validation_of_runs
    (h : Program.Runs UpdatePasswordForm.component.exec () (validateForm form.fields) (.ok v) ()) :
    ∃ w u e, v = validation form.fields (formErrs w form u e) := by
  rw [validateForm, validateSignUpForm, Program.bind_assoc, post, Program.ask_bind,
    Program.runs_ask] at h
  obtain ⟨⟨w, inv⟩, r, _, hexec, h⟩ := h
  obtain ⟨_, hserve, heq⟩ := Option.map_eq_some_iff.1 hexec
  cases heq
  dsimp only at h
  obtain ⟨errData, hpost, hv⟩ : ∃ errData, postResult r = .ok errData ∧
      v = validation form.fields (errData ++ confirmationErrs form.fields) := by
    cases hpost : postResult r with
    | error e =>
      rw [hpost] at h
      simp at h
    | ok errData =>
      rw [hpost] at h
      exact ⟨errData, rfl, by simpa using h⟩
  obtain ⟨u, e, -, herrs⟩ := formErrs_of_serve form hserve hpost
  exact ⟨w, u, e, hv.trans (congrArg _ herrs)⟩

/-- A form can be submitted, by its validation, only if it is not wrong. -/
theorem not_isWrong_of_runs
    (h : Program.Runs UpdatePasswordForm.component.exec () (validateForm form.fields) (.ok v) ())
    (hv : v.canSubmitForm = true) : ¬ form.IsWrong := by
  obtain ⟨w, u, e, rfl⟩ := validation_of_runs h
  intro hwrong
  rw [canSubmitForm_of_isWrong hwrong] at hv
  cases hv

end

namespace UpdatePasswordForm

/-! ## What is submitted -/

section

variable [Validators] {ok : component.Config → component.Move → Prop} {c : component.Config}

/-- The password is valid, and the one that confirms it. -/
def IsConfirmed (form : UpdatePasswordForm) : Prop :=
  form.password = form.passwordConfirmation ∧ validateCognitoPassword form.password = true

omit [Validators] in
/-- A form that is validated and not wrong is confirmed. -/
theorem not_isWrong_validated {form : UpdatePasswordForm} (h : ¬ form.validated.IsWrong) :
    form.IsConfirmed := by
  rw [Form.IsWrong, not_or, Bool.not_eq_false, not_not] at h
  exact ⟨h.2.symm, h.1⟩

omit [Validators] in
/-- A change of a field sets the form, and nothing else. -/
theorem handle_change {s s' : State} {name value : String} {call : Option Form}
    (h : s.handle (.change name value) = some (s', call)) :
    ∃ form, s' = { s with form := form } := by
  rw [State.handle] at h
  split at h
  next form _ =>
    cases h
    exact ⟨form, rfl⟩
  next =>
    cases h
    exact ⟨s.form, rfl⟩

omit [Validators] in
/-- A click submits the form, while the button is enabled, and starts nothing. -/
theorem handle_click {s s' : State} {call : Option Form} (h : s.handle .click = some (s', call)) :
    s.canSubmitForm = true ∧ s' = s.handleSubmitForm ∧ call = none := by
  rw [State.handle] at h
  split at h
  next hcan =>
    cases h
    exact ⟨hcan, rfl, rfl⟩
  next => cases h

/-- Every validation that ends sets whether the form can be submitted, and nothing else does. -/
theorem overwrites_canSubmitForm : component.Overwrites State.canSubmitForm fun _ r =>
    r.toOption.map Validation.canSubmitForm where
  handle := by
    intro s e s' call h
    cases e with
    | change name value =>
      obtain ⟨form, rfl⟩ := handle_change h
      rfl
    | click =>
      obtain ⟨-, rfl, -⟩ := handle_click h
      rfl
  finish := by
    intro s form r
    cases r <;> rfl

/-- The button is as the last answer has set it. -/
theorem canSubmitForm_eq (h : Component.Reaches ok mounted c) : c.state.canSubmitForm =
    ((answers c).getLast?.map fun a => a.2.canSubmitForm).getD false := by
  have hanswers : Component.written (C := component) (fun _ r =>
      r.toOption.map Validation.canSubmitForm) c.ended =
        (answers c).map fun a => a.2.canSubmitForm := by
    simp only [answers, Component.written, List.map_filterMap, Option.map_map]
    rfl
  rw [h.view_eq overwrites_canSubmitForm, hanswers, List.getLast?_map]
  rfl

/-- The forms by whose answers the button is enabled are not wrong. -/
theorem not_isWrong_of_answers (h : Component.Reaches ok mounted c) {form : Form}
    {v : Validation} (ha : (form, v) ∈ answers c) (hv : v.canSubmitForm = true) :
    ¬ form.IsWrong := by
  obtain ⟨⟨i, form', r⟩, he, heq⟩ := List.mem_filterMap.1 ha
  cases r with
  | error e => cases heq
  | ok v =>
    cases heq
    exact not_isWrong_of_runs (h.runs_of_end he) hv

/-- While the answer is one about the form, the button is enabled only for what is
    confirmed. -/
theorem isConfirmed_of_upToDate (h : Component.Reaches ok mounted c) (hup : UpToDate c)
    (hcan : c.state.canSubmitForm = true) : c.state.form.IsConfirmed := by
  obtain ⟨⟨form, v⟩, hlast, hform⟩ := Option.map_eq_some_iff.1 hup
  rw [canSubmitForm_eq h, hlast] at hcan
  have hright := not_isWrong_of_answers h (List.mem_of_getLast? hlast) hcan
  exact not_isWrong_validated (hform ▸ hright)

/-- A validation that ends submits nothing. -/
theorem submitted_settle {i : ℕ} {form : Form} {p : ClientProg Validation} :
    (c.settle i form p).state.submitted = c.state.submitted := by
  refine Component.Config.view_settle (C := component) State.submitted fun s form r => ?_
  cases r <;> rfl

/-- Nothing is submitted by a change of the form. -/
theorem submitted_change {name value : String} {s : State} {call : Option Form}
    (hs : c.state.handle (.change name value) = some (s, call)) :
    (c.handled s call).state.submitted = c.state.submitted := by
  obtain ⟨form, rfl⟩ := handle_change hs
  cases call with
  | none => rfl
  | some call => exact submitted_settle

/-- What is submitted by a click is the form as it is. -/
theorem onlyConfirmed_click (hc : OnlyConfirmed c) {s : State} {call : Option Form}
    (hs : c.state.handle .click = some (s, call)) :
    OnlyConfirmed (c.handled s call) ↔ c.state.form.IsConfirmed := by
  obtain ⟨-, rfl, rfl⟩ := handle_click hs
  constructor
  · intro h
    exact h _ (List.mem_append_right _ (List.mem_singleton.2 rfl))
  · intro h submission hmem
    rcases List.mem_append.1 hmem with hmem | hmem
    · exact hc submission hmem
    · rw [List.mem_singleton.1 hmem]
      exact h

/-- In a run in which the button is clicked only while the last answer is one about the form,
    only passwords that are confirmed and valid are submitted. Any other click submits what
    the form then has. -/
theorem onlyConfirmed : (∀ c, Component.Reaches ClicksUpToDate mounted c → OnlyConfirmed c) ∧
    ∀ c c', Component.Reaches Trace.Any mounted c → OnlyConfirmed c →
      c.next (.event .click) = some c' →
        (OnlyConfirmed c' ↔ UpToDate c ∨ c.state.form.IsConfirmed) := by
  refine ⟨fun c h => h.induction OnlyConfirmed ?_ ?_ ?_, ?_⟩
  · intro submission hmem
    rw [mounted, Component.Config.mount, Component.Config.start, submitted_settle] at hmem
    cases hmem
  · intro c e s call h hc hok hs
    cases e with
    | change name value =>
      rw [OnlyConfirmed, submitted_change hs]
      exact hc
    | click =>
      exact (onlyConfirmed_click hc hs).2
        (isConfirmed_of_upToDate h hok (handle_click hs).1)
  · intro c i ch form o k a _ hc _ _ _
    rw [OnlyConfirmed, Component.Config.resume, submitted_settle]
    exact hc
  · intro c c' h hc hn
    obtain ⟨s, call, hs, rfl⟩ := Component.Config.next_event hn
    rw [onlyConfirmed_click hc hs]
    constructor
    · exact fun hright => .inr hright
    · rintro (hup | hright)
      · exact isConfirmed_of_upToDate h hup (handle_click hs).1
      · exact hright

end

/-! A form that is submitted, and one that is changed before it is. -/

section

attribute [local instance] validators

/-- The password and its confirmation are given, and the answer about both arrives. -/
def filled : List component.Move :=
  [.event (.change "password" "Passw0rd!"), .event (.change "password_confirmation" "Passw0rd!"),
    .resume 2 (.empty, .answered [.ok, .ok])]

/-- The password is changed, when it has been answered about. -/
def changed : List component.Move := filled ++ [.event (.change "password" "Passw0rd?")]

/-- What is submitted of a form. -/
def submission (password passwordConfirmation : String) : Submission :=
  ⟨"", password, ⟨"", password, passwordConfirmation⟩⟩

/-- A form that is submitted as it was answered about, and one that was changed. -/
theorem onlyConfirmed_filled :
    (∃ c, Component.Reaches ClicksUpToDate mounted c ∧
      c.state.submitted = [submission "Passw0rd!" "Passw0rd!"] ∧ OnlyConfirmed c) ∧
    ∃ c c', Component.Reaches Trace.Any mounted c ∧ OnlyConfirmed c ∧
      c.next (.event .click) = some c' ∧ ¬ OnlyConfirmed c' := by
  constructor
  · obtain ⟨c, hc, hp⟩ := Trace.Reaches.exists_of_run Component.Config.next
      (fun c m => decide (ClicksUpToDate c m)) (filled ++ [.event .click]) mounted
      (fun c => c.state.submitted = [submission "Passw0rd!" "Passw0rd!"]) (by decide +kernel)
    have hreaches := hc.mono fun _ _ => of_decide_eq_true
    exact ⟨c, hreaches, of_decide_eq_true hp, onlyConfirmed.1 c hreaches⟩
  · obtain ⟨c, hc, hp⟩ := Trace.Reaches.exists_of_run Component.Config.next (fun _ _ => true)
      changed mounted (fun c => c.state.submitted = [] ∧ (c.next (.event .click)).isSome ∧
        (¬ UpToDate c) ∧ c.state.form.password ≠ c.state.form.passwordConfirmation)
      (by decide +kernel)
    obtain ⟨hsubmitted, hnext, hup, hne⟩ := of_decide_eq_true hp
    have hconfirmed : OnlyConfirmed c := by
      rw [OnlyConfirmed, hsubmitted]
      exact nofun
    obtain ⟨c', hn⟩ := Option.isSome_iff_exists.1 hnext
    refine ⟨c, c', hc.any, hconfirmed, hn, fun h => ?_⟩
    rcases (onlyConfirmed.2 c c' hc.any hconfirmed hn).1 h with h | h
    · exact hup h
    · exact hne h.1

/-- The password that was changed is submitted before there is an answer about it. -/
theorem not_onlyConfirmed :
    ¬ ∀ c, Component.Reaches Trace.Any mounted c → OnlyConfirmed c := by
  intro h
  obtain ⟨c, hc, hp⟩ := Trace.Reaches.exists_of_run Component.Config.next (fun _ _ => true)
    (changed ++ [.event .click]) mounted
    (fun c => c.state.submitted = [submission "Passw0rd?" "Passw0rd!"]) (by decide +kernel)
  have hmem : submission "Passw0rd?" "Passw0rd!" ∈ c.state.submitted := by
    rw [of_decide_eq_true hp]
    exact List.mem_singleton.2 rfl
  exact absurd (h c hc.any _ hmem).1 (by decide)

end

end UpdatePasswordForm

end Knowtfolio.Client
