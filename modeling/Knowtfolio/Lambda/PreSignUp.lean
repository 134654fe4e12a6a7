import Knowtfolio.Data.JsonValue
import Knowtfolio.Lambda.Duplicates

/-!
# The trigger of a sign-up

`infrastructure/function_scripts/cmd/pre_sign_up`, with the payloads of the function that it
invokes as texts of JSON, which are decoded twice: the payload, to its body, and the body, to
the errors of the fields. What an invocation answers may be any text: a response, the error
of the function, or something else. Without a body there is nothing to decode
(`unmarshalResponse_eq_ok_nil`), so that a sign-up is accepted only if the list of errors is
there, and empty (`failsClosed`).

The function that is invoked is run on the pool (`invoke`). The program in which the calls of
both functions are made (`SignUp.preSignUp`) accepts the same sign-ups
(`run_signUp_preSignUp`).

Of the errors of the decoder there are the types here, and not the texts.

Each message is decoded by the other side from what this one has written: a form, its errors, and
the response of the runtime around them. All of these are members of objects with texts as values,
which are read back whatever the texts are (`unmarshal_of_written`). What is not of this form, or
carries an error of the runtime, is an error to the trigger (`decodeAnswer_eq_ok_nil`).
-/

namespace Knowtfolio.PreSignUp

open Interaction Json SignUp

/-! ## Payloads -/

/-- The text of an error of the decoder: its type. -/
def decodeError : DecodeError → String
  | .syntaxError => "json.SyntaxError"
  | .unmarshalType => "json.UnmarshalTypeError"

/-- `lambdaPayload`, of which the only field is the body. -/
def decodeBody : Value → Except DecodeError String := decodeStruct "" (stringField "body")

/-- `models.FieldError`, whose code may be any text. -/
structure FieldErr where
  fieldName : String
  code : String
  deriving DecidableEq

/-- A `models.FieldError` of a value. -/
def decodeFieldErr : Value → Except DecodeError FieldErr :=
  decodeStruct ⟨"", ""⟩ fun members => do
    let fieldName ← stringField "field_name" members
    let code ← stringField "code" members
    pure ⟨fieldName, code⟩

/-- The errors of the fields. -/
def decodeFieldErrs : Value → Except DecodeError (List FieldErr) := decodeSlice decodeFieldErr

/-- `models.SignUpForm`. -/
def decodeForm : Value → Except DecodeError SignUpForm :=
  decodeStruct ⟨"", "", ""⟩ fun members => do
    let userName ← stringField "username" members
    let password ← stringField "password" members
    let email ← stringField "email" members
    pure ⟨userName, password, email⟩

/-- `models.PostWalletAddressRequest`. -/
def decodeRequest : Value → Except DecodeError PostWalletAddressRequest :=
  decodeStruct ⟨"", "", ""⟩ fun members => do
    let userID ← stringField "user_id" members
    let walletAddress ← stringField "wallet_address" members
    let signature ← stringField "signature" members
    pure ⟨userID, walletAddress, signature⟩

/-- `json.Marshal` of a `lambdaPayload`. -/
def marshalPayload (body : String) : String := String.ofList (writeObject [("body", body)])

/-! ## The environment -/

/-- An error of a field, with its code as a text. -/
def toFieldErr (e : SignUp.FieldError) : FieldErr := ⟨e.fieldName, e.code.toString⟩

/-- An error of a field, with the code that a text denotes. -/
def FieldErr.toFieldError (e : FieldErr) : SignUp.FieldError where
  fieldName := e.fieldName
  code := if e.code = "already_exists" then .alreadyExists else .invalidFormat

/-- The errors of the two functions have the same fields. -/
theorem toFieldError_toFieldErr (e : SignUp.FieldError) : (toFieldErr e).toFieldError = e := by
  obtain ⟨fieldName, code⟩ := e
  cases code <;> rfl

/-- What was written is read as what it was written from. -/
theorem unmarshal_of_written {α : Type} {decode : Value → Except DecodeError α} {t : List Char}
    {v : Value} (h : Written maxNestingDepth t v) :
    unmarshal decode (String.ofList t) = decode v := by
  rw [unmarshal, parse_of_written h]
  rfl

/-- The body of a request gets through. -/
theorem unmarshal_marshalPayload (body : String) :
    unmarshal decodeBody (marshalPayload body) = .ok body := by
  rw [marshalPayload, unmarshal_of_written (written_writeObject (n := 9999) _)]
  have hname : ([("body", body)].map fun m => foldName m.1).Nodup := List.nodup_singleton _
  exact stringField_of_mem_texts hname (by simp)

/-- So does a form. -/
theorem unmarshal_marshalForm (form : SignUpForm) :
    unmarshal decodeForm (marshalForm form) = .ok form := by
  have hnames : ([("username", form.userName), ("password", form.password),
      ("email", form.email)].map fun m => foldName m.1).Nodup := by
    show [foldName "username", foldName "password", foldName "email"].Nodup
    decide
  rw [marshalForm, unmarshal_of_written (written_writeObject (n := 9999) _)]
  simp only [decodeForm, decodeStruct]
  rw [stringField_of_mem_texts hnames (s := form.userName) (by simp),
    stringField_of_mem_texts hnames (s := form.password) (by simp),
    stringField_of_mem_texts hnames (s := form.email) (by simp)]
  rfl

/-- An error is decoded as it was written. -/
theorem decodeFieldErr_members (e : SignUp.FieldError) :
    decodeFieldErr (.object (e.members.map fun m => (m.1, .string m.2))) = .ok (toFieldErr e) := by
  have hnames : (e.members.map fun m => foldName m.1).Nodup := by
    show [foldName "field_name", foldName "code"].Nodup
    decide
  simp only [decodeFieldErr, decodeStruct]
  rw [stringField_of_mem_texts hnames (s := e.fieldName) (by simp [FieldError.members]),
    stringField_of_mem_texts hnames (s := e.code.toString) (by simp [FieldError.members])]
  rfl

/-- So is a list of errors. -/
theorem mapM_decodeFieldErr (errs : List SignUp.FieldError) :
    (errs.map fun e => Value.object (e.members.map fun m => (m.1, .string m.2))).mapM
      decodeFieldErr = .ok (errs.map toFieldErr) := by
  induction errs with
  | nil => rfl
  | cons e errs ih =>
    rw [List.map_cons, List.mapM_cons, decodeFieldErr_members, ih]
    rfl

/-- The errors are written as JSON that is not too deep. -/
theorem written_fieldErrs (errs : List SignUp.FieldError) :
    Written maxNestingDepth (writeList (errs.map fun e => writeObject e.members))
      (.array (errs.map fun e => .object (e.members.map fun m => (m.1, .string m.2)))) :=
  written_array (n := 9999) fun e _ => written_writeObject (n := 9998) e.members

/-- So do the errors that are found. -/
theorem unmarshal_marshalFieldErrs (errs : List SignUp.FieldError) :
    unmarshal decodeFieldErrs (marshalFieldErrs errs) = .ok (errs.map toFieldErr) := by
  rw [marshalFieldErrs, unmarshal_of_written (written_fieldErrs errs)]
  exact mapM_decodeFieldErr errs

/-- What the functions have from packages other than the decoder of JSON. -/
class Validators extends Crypto where
  isEmail : String → Bool
  isEmail_plain : ∀ {s}, isEmail s = true → Plain s ∨ ∃ s', s = "\"" ++ s'

/-- The environment with the decoder of JSON. -/
@[reducible] instance signUpEnvironment [Validators] : SignUpEnvironment where
  unmarshal
    | .signUpForm, src => (unmarshal decodeForm src).mapError decodeError
    | .postWalletAddressRequest, src => (unmarshal decodeRequest src).mapError decodeError
  isEmail := Validators.isEmail
  unmarshal_marshalForm form := by
    show (unmarshal decodeForm (marshalForm form)).mapError decodeError = _
    rw [unmarshal_marshalForm]
    rfl
  unmarshalFieldErrs src :=
    ((unmarshal decodeFieldErrs src).map (·.map FieldErr.toFieldError)).mapError decodeError
  unmarshal_marshalFieldErrs errs := by
    rw [unmarshal_marshalFieldErrs, Except.map, List.map_map]
    exact congrArg Except.ok (List.map_id'' toFieldError_toFieldErr errs)
  unmarshalFieldErrs_empty errs := by
    rw [unmarshal, parse_empty]
    exact nofun
  isEmail_plain := Validators.isEmail_plain

/-! ## The functions -/

/-- `lambda.InvokeInput`. -/
structure InvokeInput where
  functionName : String
  payload : String

/-- The only call is the invocation of a function, answered by a payload or an error. -/
abbrev invokeCalls : Signature := ⟨InvokeInput, fun _ => Except Err String⟩

/-- The errors of the fields that a payload has in its body. -/
def unmarshalResponse (payload : String) : Except DecodeError (List FieldErr) := do
  let body ← unmarshal decodeBody payload
  unmarshal decodeFieldErrs body

/-- What `invokeValidationLambda` makes of the answer to its invocation. -/
def decodeAnswer (r : Except Err String) : Except Fault (List FieldErr) :=
  match r with
  | .error e => .error (.err e)
  | .ok payload => (unmarshalResponse payload).mapError fun e => .err (.external (decodeError e))

/-- `invokeValidationLambda`. -/
def invokeValidationLambda (form : SignUpForm) : Program invokeCalls Fault (List FieldErr) :=
  Program.ask (S := invokeCalls) ⟨"validate_sign_up_form", marshalPayload (marshalForm form)⟩
    fun r => Program.ofExcept (decodeAnswer r)

/-- `json.Marshal` of the errors of the fields. -/
def marshalFieldErrs (fieldErrs : List FieldErr) : String :=
  String.ofList (writeList (fieldErrs.map fun e =>
    writeObject [("field_name", e.fieldName), ("code", e.code)]))

/-- `handler` of `pre_sign_up`. -/
def preSignUp (event : SignUp.PreSignUp) : Program invokeCalls Fault SignUp.PreSignUp :=
  match event.clientMetadata "password" with
  | none => .throw (.err (.text
      "clientMetadata must include `password` to validate on pre-signup phase"))
  | some password => do
    let fieldErrs ← invokeValidationLambda ⟨event.userName, password, event.email⟩
    if 0 < fieldErrs.length then
      .throw (.err (.text ("format error(s) found for signup form: " ++
        marshalFieldErrs fieldErrs)))
    else pure event

/-! ## Answers -/

/-- The payload is an object whose body is a list of errors of fields, of which there are
    none. -/
def HasNoErrors (payload : String) : Prop :=
  ∃ members body, parse payload = .ok (.object members) ∧
    stringField "body" members = .ok body ∧ unmarshal decodeFieldErrs body = .ok []

/-- A payload that is no object has no body, and no body is no list. -/
theorem unmarshalResponse_eq_ok_nil {payload : String} :
    unmarshalResponse payload = .ok [] ↔ HasNoErrors payload := by
  have hempty : unmarshal decodeFieldErrs "" ≠ .ok [] := by
    rw [unmarshal, parse_empty]
    exact nofun
  unfold unmarshalResponse HasNoErrors
  rw [show unmarshal decodeBody payload = parse payload >>= decodeBody from rfl]
  cases hparse : parse payload with
  | error e => simp
  | ok v =>
    rw [Program.ok_bind]
    cases v with
    | object members =>
      show stringField "body" members >>= unmarshal decodeFieldErrs = .ok [] ↔ _
      cases hbody : stringField "body" members with
      | error e => simp [hbody]
      | ok body =>
        rw [Program.ok_bind]
        constructor
        · exact fun h => ⟨members, body, rfl, hbody, h⟩
        · rintro ⟨_, _, ⟨⟩, hbody', h⟩
          cases hbody.symm.trans hbody'
          exact h
    -- `null` leaves the response zero, so that its body is the empty text.
    | null => exact iff_of_false hempty nofun
    | _ => simp [decodeBody, decodeStruct]

/-- The answer is without errors exactly if the validation says so; everything else that may be
    answered is one. -/
theorem decodeAnswer_eq_ok_nil {r : Except Err String} :
    decodeAnswer r = .ok [] ↔ ∃ payload, r = .ok payload ∧ HasNoErrors payload := by
  cases r with
  | error e => simp [decodeAnswer]
  | ok payload =>
    have hok : decodeAnswer (.ok payload) = .ok [] ↔ unmarshalResponse payload = .ok [] := by
      rw [decodeAnswer]
      cases unmarshalResponse payload <;> simp [Except.mapError]
    rw [hok, unmarshalResponse_eq_ok_nil]
    simp

/-- A sign-up is accepted exactly if it has a password, and the invocation succeeds with a
    payload in which there are no errors. -/
theorem eval_preSignUp_eq_ok {h : InvokeInput → Except Err String}
    {event event' : SignUp.PreSignUp} :
    (preSignUp event).eval h = .ok event' ↔ event' = event ∧ ∃ password,
      event.clientMetadata "password" = some password ∧ decodeAnswer (h ⟨"validate_sign_up_form",
        marshalPayload (marshalForm ⟨event.userName, password, event.email⟩)⟩) = .ok [] := by
  unfold preSignUp
  cases hpassword : event.clientMetadata "password" with
  | none => simp
  | some password =>
    have hinvoke : (invokeValidationLambda ⟨event.userName, password, event.email⟩).eval h =
        decodeAnswer (h ⟨"validate_sign_up_form", marshalPayload (marshalForm ⟨event.userName,
          password, event.email⟩)⟩) := by
      rw [invokeValidationLambda, Program.eval_ask, Program.eval_ofExcept]
    simp only [Program.eval_bind, hinvoke, Option.some.injEq, exists_eq_left']
    cases decodeAnswer (h ⟨"validate_sign_up_form", marshalPayload (marshalForm ⟨event.userName,
        password, event.email⟩)⟩) with
    | error e => simp
    | ok fieldErrs =>
      cases fieldErrs with
      | nil => simp [eq_comm]
      | cons e errs => simp

/-! ## The function that is invoked -/

/-- The error of a function, as its payload. -/
def errorPayload (message type : String) : String :=
  String.ofList (writeObject [("errorMessage", message), ("errorType", type)])

/-- The payload of a function that fails. -/
def faultPayload : Fault → String
  | .err e => errorPayload e.message "OperationError"
  | .panic m => errorPayload m "Error"

/-- The members of a response in JSON. -/
def responseMembers (resp : APIGatewayProxyResponse) : List (String × List Char × Value) :=
  [("statusCode", Nat.toDigits 10 resp.statusCode, .number (Nat.toDigits 10 resp.statusCode)),
    ("headers", ['n', 'u', 'l', 'l'], .null), ("multiValueHeaders", ['n', 'u', 'l', 'l'], .null),
    ("body", quoteBy escapeChar resp.body, .string resp.body)]

/-- `json.Marshal` of an `events.APIGatewayProxyResponse`. -/
def marshalResponse (resp : APIGatewayProxyResponse) : String :=
  String.ofList ('\x7b' :: writeItems '\x7d' ((responseMembers resp).map fun m =>
    writeField escapeChar m.1 m.2.1))

/-- The body of a response gets through. -/
theorem unmarshal_marshalResponse (resp : APIGatewayProxyResponse) :
    unmarshal decodeBody (marshalResponse resp) = .ok resp.body := by
  have hmembers : ∀ m ∈ responseMembers resp, Written 9999 m.2.1 m.2.2 := by
    intro m hm
    simp only [responseMembers, List.mem_cons, List.not_mem_nil, or_false] at hm
    rcases hm with rfl | rfl | rfl | rfl
    · exact written_number resp.statusCode
    · exact written_null
    · exact written_null
    · exact written_string escapes_escapeChar resp.body
  have hwritten : Written maxNestingDepth ('\x7b' :: writeItems '\x7d'
      ((responseMembers resp).map fun m => writeField escapeChar m.1 m.2.1))
      (.object ((responseMembers resp).map fun m => (m.1, m.2.2))) :=
    written_object escapes_escapeChar hmembers
  rw [marshalResponse, unmarshal_of_written hwritten]
  refine stringField_of_mem ?_ (by simp [responseMembers])
  show [foldName "statusCode", foldName "headers", foldName "multiValueHeaders",
    foldName "body"].Nodup
  decide

/-- The error of a function has no body. -/
theorem unmarshalResponse_faultPayload (e : Fault) :
    unmarshalResponse (faultPayload e) = .error .syntaxError := by
  obtain ⟨message, type, he⟩ : ∃ message type, faultPayload e = errorPayload message type := by
    cases e <;> exact ⟨_, _, rfl⟩
  have hbody : unmarshal decodeBody (errorPayload message type) = .ok "" := by
    rw [errorPayload, unmarshal_of_written (written_writeObject (n := 9999) _)]
    have hmessage : foldName "errorMessage" ≠ foldName "body" := by decide
    have htype : foldName "errorType" ≠ foldName "body" := by decide
    exact stringField_of_forall_ne (by simp [hmessage, htype])
  rw [unmarshalResponse, he, hbody, Program.ok_bind, unmarshal, parse_empty]
  rfl

section

variable [Validators]

/-- The response of the function `validate_sign_up_form` to a request, as its payload. -/
def respond (body : String) : PoolProg String := do
  let resp ← validateSignUpForm body
  pure (marshalResponse resp)

/-- What the function makes of a payload: a response, or the error of the function. -/
def validationFunction (payload : String) : PoolProg String :=
  Program.handle (fun e => pure (faultPayload e)) do
    let body ← Program.ofExcept ((unmarshal decodeBody payload).mapError fun e =>
      .err (.external (decodeError e)))
    respond body

/-- What becomes of an invocation: it fails, or the calls of the function are answered. -/
inductive Invocation
  | failed (message : String)
  | answered (choices : List PoolChoice)

/-- The invocation of a function, with the accounts of the pool. -/
def invoke (w : Accounts) (input : InvokeInput) :
    Invocation → Option (Except Err String × Accounts)
  | .failed message => some (.error (.external message), w)
  | .answered choices =>
    if input.functionName = "validate_sign_up_form" then
      (Program.run Accounts.exec w (validationFunction input.payload) choices).bind fun result =>
        result.1.toOption.map fun payload => (.ok payload, result.2)
    else none

variable {w w' : Accounts} {event event' : SignUp.PreSignUp} {body payload password : String}

/-- The invocation is answered by the response of the function, or its error. -/
theorem invoke_answered {chs : List PoolChoice} :
    invoke w ⟨"validate_sign_up_form", marshalPayload body⟩ (.answered chs) =
      (Program.runLeaving Accounts.exec w (validateSignUpForm body) chs).map fun rest =>
        (.ok (match rest.1.1 with
          | .ok resp => marshalResponse resp
          | .error e => faultPayload e), rest.1.2) := by
  have hbody : (Program.ofExcept ((Except.ok body).mapError fun e : DecodeError =>
      Fault.err (.external (decodeError e))) >>= respond : PoolProg String) = respond body := rfl
  rw [invoke, if_pos rfl, validationFunction, unmarshal_marshalPayload, Program.run_eq,
    Program.runLeaving_handle, hbody, respond, Program.runLeaving_bind]
  cases Program.runLeaving Accounts.exec w (validateSignUpForm body) chs with
  | none => rfl
  | some rest =>
    obtain ⟨⟨r, w₁⟩, chs'⟩ := rest
    cases r <;> simp [Except.toOption]

/-- A sign-up is accepted exactly if no errors are found in the answer to its invocation. -/
theorem run_preSignUp_eq_ok {inv : Invocation} {invs : List Invocation} :
    Program.run invoke w (preSignUp event) (inv :: invs) = some (.ok event', w') ↔
      event' = event ∧ ∃ password r, event.clientMetadata "password" = some password ∧
        invoke w ⟨"validate_sign_up_form", marshalPayload (marshalForm ⟨event.userName, password,
          event.email⟩)⟩ inv = some (r, w') ∧ decodeAnswer r = .ok [] := by
  constructor
  · intro h
    unfold preSignUp at h
    split at h
    next => cases h
    next password hpassword =>
      obtain ⟨⟨r, w₁⟩, hinvoke, hrun⟩ := Option.bind_eq_some_iff.1 h
      have hrest : Program.run (S := invokeCalls) invoke w₁ (Program.ofExcept (decodeAnswer r) >>=
          fun fieldErrs =>
            if 0 < fieldErrs.length then
              .throw (.err (.text ("format error(s) found for signup form: " ++
                marshalFieldErrs fieldErrs)))
            else pure event) invs = some (.ok event', w') := hrun
      -- After the invocation no further call is made, whatever answers are left.
      rw [Program.run_bind, Program.runLeaving_ofExcept] at hrest
      cases hanswer : decodeAnswer r with
      | error e =>
        rw [hanswer] at hrest
        cases hrest
      | ok fieldErrs =>
        rw [hanswer] at hrest
        cases fieldErrs with
        | nil =>
          cases invs <;> cases hrest <;> exact ⟨rfl, password, r, hpassword, hinvoke, hanswer⟩
        | cons e errs => cases invs <;> cases hrest
  · rintro ⟨rfl, password, r, hpassword, hinvoke, hanswer⟩
    unfold preSignUp
    rw [hpassword]
    show (invoke w _ inv).bind _ = _
    rw [hinvoke]
    show Program.run (S := invokeCalls) invoke w' (Program.ofExcept (decodeAnswer r) >>= _) invs = _
    rw [hanswer]
    cases invs <;> rfl

/-- The function that is invoked has found no errors. -/
theorem run_preSignUp_answered {chs : List PoolChoice} {invs : List Invocation} :
    Program.run invoke w (preSignUp event) (.answered chs :: invs) = some (.ok event', w') ↔
      event' = event ∧ ∃ password, event.clientMetadata "password" = some password ∧
        ∃ resp, Program.run Accounts.exec w (validateSignUpForm (marshalForm ⟨event.userName,
          password, event.email⟩)) chs = some (.ok resp, w') ∧
        unmarshal decodeFieldErrs resp.body = .ok [] := by
  rw [run_preSignUp_eq_ok]
  refine and_congr Iff.rfl (exists_congr fun password => ?_)
  rw [invoke_answered, Program.run_eq]
  cases Program.runLeaving Accounts.exec w (validateSignUpForm (marshalForm ⟨event.userName,
      password, event.email⟩)) chs with
  | none => simp
  | some rest =>
    obtain ⟨⟨r, w₁⟩, chs'⟩ := rest
    -- An error of the function is a payload that is none of a response.
    cases r with
    | error e =>
      have hanswer : decodeAnswer (.ok (faultPayload e)) ≠ .ok [] := by
        rw [decodeAnswer, unmarshalResponse_faultPayload]
        exact nofun
      simp [hanswer]
    | ok resp =>
      have hanswer : decodeAnswer (.ok (marshalResponse resp)) = .ok [] ↔
          unmarshal decodeFieldErrs resp.body = .ok [] := by
        rw [decodeAnswer, unmarshalResponse, unmarshal_marshalResponse, Program.ok_bind]
        cases unmarshal decodeFieldErrs resp.body <;> simp [Except.mapError]
      simp [hanswer, and_comm]

/-- What the program with the calls of both functions makes of the answers: it reads the
    body that the invocation leaves. -/
theorem runLeaving_invokeValidationLambda {form : SignUpForm} {chs : List PoolChoice} :
    Program.runLeaving Accounts.exec w (SignUp.invokeValidationLambda form) (.ok :: chs) =
      (Program.runLeaving Accounts.exec w (validateSignUpForm (marshalForm form)) chs).map
        fun rest => (((SignUpEnvironment.unmarshalFieldErrs (match rest.1.1 with
          | .ok resp => resp.body
          | .error _ => "")).mapError (.err ∘ .external), rest.1.2), rest.2) := by
  have hinvoke : Program.runLeaving Accounts.exec w (poolCall (.invoke "validate_sign_up_form"))
      (.ok :: chs) = some ((.ok (), w), chs) := by
    cases chs <;> rfl
  rw [SignUp.invokeValidationLambda, Program.runLeaving_bind, hinvoke, Option.bind_some]
  dsimp only
  rw [Program.runLeaving_bind, Program.runLeaving_handle, Program.runLeaving_bind]
  cases Program.runLeaving Accounts.exec w (validateSignUpForm (marshalForm form)) chs with
  | none => rfl
  | some rest =>
    obtain ⟨⟨r, w₁⟩, chs'⟩ := rest
    cases r <;> simp only [Option.bind_some, Program.pure_eq, Program.runLeaving_ret,
      Program.runLeaving_ofExcept, Option.map_some]

/-- Both decoders agree on whether there are errors. -/
theorem unmarshalFieldErrs_eq_ok_nil {src : String} :
    SignUpEnvironment.unmarshalFieldErrs src = .ok [] ↔ unmarshal decodeFieldErrs src = .ok [] := by
  show ((unmarshal decodeFieldErrs src).map (·.map FieldErr.toFieldError)).mapError decodeError =
    .ok [] ↔ _
  cases unmarshal decodeFieldErrs src <;> simp [Except.map, Except.mapError]

/-- The program with the calls of both functions accepts the same sign-ups. -/
theorem run_signUp_preSignUp {chs : List PoolChoice} :
    Program.run Accounts.exec w (SignUp.preSignUp event) (.ok :: chs) = some (.ok event', w') ↔
      Program.run invoke w (preSignUp event) [.answered chs] = some (.ok event', w') := by
  rw [run_preSignUp_answered]
  unfold SignUp.preSignUp
  cases hpassword : event.clientMetadata "password" with
  | none => exact iff_of_false nofun nofun
  | some password =>
    simp only [Option.some.injEq, exists_eq_left']
    rw [Program.run_bind, runLeaving_invokeValidationLambda]
    simp only [Program.run_eq]
    cases Program.runLeaving Accounts.exec w (validateSignUpForm (marshalForm ⟨event.userName,
        password, event.email⟩)) chs with
    | none => simp
    | some rest =>
      obtain ⟨⟨r, w₁⟩, chs'⟩ := rest
      simp only [Option.map_some, Option.bind_some]
      have hnone : (∃ resp, some (r, w₁) = some (.ok resp, w') ∧
          unmarshal decodeFieldErrs resp.body = .ok []) ↔ w₁ = w' ∧
            SignUpEnvironment.unmarshalFieldErrs (match r with
              | .ok resp => resp.body
              | .error _ => "") = .ok [] := by
        cases r with
        | error e => simp [SignUpEnvironment.unmarshalFieldErrs_empty]
        | ok resp => simp [unmarshalFieldErrs_eq_ok_nil, and_comm]
      rw [hnone]
      -- Both programs go on in the same way with the errors that are read.
      generalize SignUpEnvironment.unmarshalFieldErrs _ = errs
      rcases errs with e | (_ | ⟨e, errs⟩)
      · simp [Except.mapError]
      · simp [Except.mapError, eq_comm]
      · simp [Except.mapError]

/-- An account of the pool has the user name or the e-mail address. -/
def InUse (w : Accounts) (event : SignUp.PreSignUp) : Prop :=
  ∃ a ∈ w.rows, a.userName = event.userName ∨ a.email = event.email

/-- The values that make a form valid. -/
structure IsValid (event : SignUp.PreSignUp) (password : String) : Prop where
  userName : validateCognitoUserName event.userName = true
  password : validateCognitoPassword password = true
  email : Validators.isEmail event.email = true

/-- What is sent to be validated is what the user signs up with. -/
theorem isValid_of_tagsHold (h : TagsHold .signUpForm ⟨event.userName, password, event.email⟩) :
    IsValid event password := by
  refine ⟨?_, ?_, ?_⟩
  · exact h ⟨"username", event.userName, [required, ⟨"cognito_username", validateCognitoUserName⟩]⟩
      (by simp [taggedFields]) ⟨"cognito_username", validateCognitoUserName⟩ (by simp)
  · exact h ⟨"password", password, [required, ⟨"cognito_password", validateCognitoPassword⟩]⟩
      (by simp [taggedFields]) ⟨"cognito_password", validateCognitoPassword⟩ (by simp)
  · exact h ⟨"email", event.email, [required, ⟨"email", Decoders.isEmail⟩]⟩
      (by simp [taggedFields]) ⟨"email", Decoders.isEmail⟩ (by simp)

omit [Validators] in
/-- A plain value may be pasted into a filter. -/
theorem quotable_of_plain {s : String} (h : Plain s) : Quotable s :=
  ⟨fun hmem => (h _ hmem).1 rfl, fun hlast => (h _ (List.mem_of_getLast? hlast)).2 rfl⟩

omit [Validators] in
/-- User names that are valid are plain. -/
theorem plain_of_validateCognitoUserName {s : String} (h : validateCognitoUserName s = true) :
    Plain s := by
  simp only [validateCognitoUserName, Bool.and_eq_true, List.all_eq_true] at h
  intro c hc
  have hchar := h.1.1.1.2 c hc
  constructor <;> rintro rfl <;> exact absurd hchar (by decide)

omit [Validators] in
/-- The filter of a valid user name denotes the name itself. -/
theorem denoted_userName {s : String} (h : validateCognitoUserName s = true) :
    denoted s = some s :=
  denoted_eq_self.2 (quotable_of_plain (plain_of_validateCognitoUserName h))

/-- An e-mail address with a quoted local part makes a filter that is none. -/
theorem plain_of_isEmail {s v : String} (h : Validators.isEmail s = true)
    (hv : denoted s = some v) : Plain s := by
  rcases Validators.isEmail_plain h with hplain | ⟨s', rfl⟩
  · exact hplain
  · rw [denoted, String.toList_append] at hv
    cases hs : s'.toList <;> simp [hs, readQuoted] at hv

/-- The filter of an e-mail address, if it is one, denotes the address itself. -/
theorem denoted_email {s v : String} (h : Validators.isEmail s = true)
    (hv : denoted s = some v) : denoted s = some s :=
  denoted_eq_self.2 (quotable_of_plain (plain_of_isEmail h hv))

omit [Validators] in
/-- A value is free if no account has it. -/
theorem existing_eq_nil {field value : String} :
    existing w field value = [] ↔ ∀ a ∈ w.rows, a.attribute field ≠ some value := by
  simp [existing]

/-- A validation that finds no errors has found the form valid, and its user name and email unused.
    -/
theorem isValid_of_run {chs : List PoolChoice} {resp : APIGatewayProxyResponse}
    (h : Program.run Accounts.exec w (validateSignUpForm (marshalForm ⟨event.userName, password,
      event.email⟩)) chs = some (.ok resp, w'))
    (hnone : unmarshal decodeFieldErrs resp.body = .ok []) :
    IsValid event password ∧ ¬ InUse w event := by
  rw [validateSignUpForm_eq (SignUpEnvironment.unmarshal_marshalForm _)] at h
  obtain ⟨u, e, hu, he, rfl⟩ := run_checkDuplicates_eq_ok h
  rw [unmarshal_marshalFieldErrs, Except.ok.injEq, List.map_eq_nil_iff, List.append_eq_nil_iff,
    List.append_eq_nil_iff, invalid_eq_nil, existing_eq_nil, existing_eq_nil] at hnone
  obtain ⟨⟨htags, huserName⟩, hemail⟩ := hnone
  have hvalid := isValid_of_tagsHold htags
  -- So the accounts were asked for that have the values of the form.
  cases hu.symm.trans (denoted_userName hvalid.userName)
  cases he.symm.trans (denoted_email hvalid.email he)
  refine ⟨hvalid, ?_⟩
  rintro ⟨a, ha, heq | heq⟩
  · exact huserName a ha (congrArg some heq)
  · exact hemail a ha (congrArg some heq)

/-- A sign-up is accepted only if the invocation of the function that checks the form
    succeeds, with a payload in which there are no errors, and, if it is that function, only
    if the form is valid and no account has the user name or the e-mail address. -/
theorem failsClosed (event : SignUp.PreSignUp) :
    (∀ h event', (preSignUp event).eval h = .ok event' → ∃ password payload,
      event.clientMetadata "password" = some password ∧ h ⟨"validate_sign_up_form",
        marshalPayload (marshalForm ⟨event.userName, password, event.email⟩)⟩ = .ok payload ∧
      HasNoErrors payload) ∧
    ∀ w invs event' w', Program.run invoke w (preSignUp event) invs = some (.ok event', w') →
      ∃ password, event.clientMetadata "password" = some password ∧ IsValid event password ∧
        ¬ InUse w event := by
  constructor
  · intro h event' haccepted
    obtain ⟨-, password, hpassword, hanswer⟩ := eval_preSignUp_eq_ok.1 haccepted
    obtain ⟨payload, hpayload, hnone⟩ := decodeAnswer_eq_ok_nil.1 hanswer
    exact ⟨password, payload, hpassword, hpayload, hnone⟩
  · intro w invs event' w' haccepted
    cases invs with
    | nil =>
      unfold preSignUp at haccepted
      split at haccepted <;> cases haccepted
    | cons inv invs =>
      cases inv with
      | failed message =>
        -- The error of the invocation is not taken for a list without errors.
        obtain ⟨-, password, r, -, hinvoke, hanswer⟩ := run_preSignUp_eq_ok.1 haccepted
        cases hinvoke
        cases hanswer
      | answered chs =>
        obtain ⟨-, password, hpassword, resp, hrun, hnone⟩ := run_preSignUp_answered.1 haccepted
        exact ⟨password, hpassword, isValid_of_run hrun hnone⟩

/-- A valid form, of which nothing is in use, is accepted, if the calls are answered. -/
theorem run_preSignUp_of_tagsHold (hpassword : event.clientMetadata "password" = some password)
    (htags : TagsHold .signUpForm ⟨event.userName, password, event.email⟩)
    (hfilter : (denoted event.email).isSome = true) (hfree : ¬ InUse w event) :
    Program.run invoke w (preSignUp event) [.answered [.ok, .ok]] = some (.ok event, w) := by
  have hvalid := isValid_of_tagsHold htags
  have hu := denoted_userName hvalid.userName
  obtain ⟨v, hv⟩ := Option.isSome_iff_exists.1 hfilter
  have he := denoted_email hvalid.email hv
  have huserName : existing w "username" event.userName = [] :=
    existing_eq_nil.2 fun a ha heq => hfree ⟨a, ha, .inl (Option.some.inj heq)⟩
  have hemail : existing w "email" event.email = [] :=
    existing_eq_nil.2 fun a ha heq => hfree ⟨a, ha, .inr (Option.some.inj heq)⟩
  refine run_preSignUp_answered.2 ⟨rfl, password, hpassword, ⟨200, SignUp.marshalFieldErrs []⟩, ?_,
    unmarshal_marshalFieldErrs []⟩
  rw [validateSignUpForm_eq (SignUpEnvironment.unmarshal_marshalForm _), run_checkDuplicates]
  dsimp only
  rw [hu, he, invalid_eq_nil.2 htags]
  dsimp only
  rw [huserName, hemail]
  rfl

end

/-! A sign-up that is accepted. -/

section

/-- A check that takes e-mail addresses without a quoted local part. -/
def isUnquotedEmail (s : String) : Bool :=
  s.toList.contains '@' && s.toList.all fun c => c != '"' && c != '\\'

/-- Emails that are valid and not quoted are plain. -/
theorem plain_of_isUnquotedEmail {s : String} (h : isUnquotedEmail s = true) : Plain s := by
  intro c hc
  simp only [isUnquotedEmail, Bool.and_eq_true, List.all_eq_true, bne_iff_ne] at h
  exact h.2 c hc

/-- The packages, with that check. -/
@[reducible] def validators : Validators where
  toCrypto := Hardhat.environment.toCrypto
  isEmail := isUnquotedEmail
  isEmail_plain h := .inl (plain_of_isUnquotedEmail h)

attribute [local instance] validators

/-- The pool with the account of somebody else. -/
def othersPool : Accounts := Keyed.Table.empty.put ⟨"bob", "bob@example.com"⟩

/-- A sign-up is accepted by a pool with other accounts. -/
theorem failsClosed_accepted : ∃ w', Program.run invoke othersPool
    (preSignUp (signUpEvent "alice" "alice@example.com")) [.answered [.ok, .ok]] =
      some (.ok (signUpEvent "alice" "alice@example.com"), w') ∧
    ∃ password, (signUpEvent "alice" "alice@example.com").clientMetadata "password" =
      some password ∧ IsValid (signUpEvent "alice" "alice@example.com") password ∧
        ¬ InUse othersPool (signUpEvent "alice" "alice@example.com") := by
  have hfree : ¬ InUse othersPool (signUpEvent "alice" "alice@example.com") := by
    rintro ⟨a, ha, heq⟩
    obtain rfl : a = ⟨"bob", "bob@example.com"⟩ := by simpa [othersPool] using ha
    exact heq.elim (by decide) (by decide)
  have hrun : Program.run invoke othersPool (preSignUp (signUpEvent "alice" "alice@example.com"))
      [.answered [.ok, .ok]] =
        some (.ok (signUpEvent "alice" "alice@example.com"), othersPool) := by
    have hpassword : (signUpEvent "alice" "alice@example.com").clientMetadata "password" =
        some "Passw0rd!" := rfl
    exact run_preSignUp_of_tagsHold hpassword (by decide +kernel) (by decide +kernel) hfree
  exact ⟨_, hrun, (failsClosed _).2 _ _ _ _ hrun⟩

end

end Knowtfolio.PreSignUp
