import Knowtfolio.Lambda.PreSignUp

/-!
# Forms that are validated

`client/src`: the forms of which the client has the fields checked while they are filled in
(`ValidateForm`), for which it asks the function `validate_sign_up_form`. What the client
posts is the form that it has, without the confirmation of the password, which it checks
itself; what the function makes of it is a form for a sign-up, in which fields that were not
posted are empty. Of the errors those count that are of fields of the form.

The form for a new password of an account has the user name of the account in it, of which
the function says that it exists already (`verdict_iff`).

The forms differ in their fields only (`Form.fields`); what is posted is read by the function with
the empty text for what is missing (`unmarshal_posted`). The errors of the function and those that
the form finds itself are then put together by the names of the fields (`exists_mem_formErrs`).
-/

namespace Knowtfolio.Client

open Interaction Json SignUp PreSignUp

/-! ## Requests -/

/-- How `JSON.stringify` writes a character. -/
def jsEscapeChar (c : Char) : List Char :=
  if c = '"' then ['\\', '"']
  else if c = '\\' then ['\\', '\\']
  else if c = '\x08' then ['\\', 'b']
  else if c = '\x0c' then ['\\', 'f']
  else if c = '\n' then ['\\', 'n']
  else if c = '\r' then ['\\', 'r']
  else if c = '\t' then ['\\', 't']
  else if c.toNat < 32 then
    ['\\', 'u', digit (c.toNat / 4096), digit (c.toNat / 256 % 16), digit (c.toNat / 16 % 16),
      digit (c.toNat % 16)]
  else [c]

/-- An object with texts, by its keys in their order. -/
abbrev Fields := List (String × String)

/-- `JSON.stringify`. -/
def stringify (fields : Fields) : String :=
  String.ofList ('\x7b' :: writeItems '\x7d' (fields.map fun f =>
    writeField jsEscapeChar f.1 (quoteBy jsEscapeChar f.2)))

/-- A request by `axios.post`. -/
structure PostRequest where
  url : String
  body : String

/-- The only call is a request, answered by a response or an error of the network. -/
abbrev postCalls : Signature := ⟨PostRequest, fun _ => Except Err APIGatewayProxyResponse⟩

/-- A function of the client. -/
abbrev ClientProg := Program postCalls Fault

/-- A property of an object that is a text. -/
def textProperty (name : String) (members : List (String × Value)) : Option String :=
  match members.reverse.lookup name with
  | some (.string s) => some s
  | _ => none

/-- An error of a field, as the client reads it. -/
def readFieldErr : Value → Option FieldErr
  | .object members => do
    let fieldName ← textProperty "field_name" members
    let code ← textProperty "code" members
    pure ⟨fieldName, code⟩
  | _ => none

/-- The errors of fields in a response. -/
def readFieldErrs (body : String) : Option (List FieldErr) :=
  match parse body with
  | .ok (.array vs) => vs.mapM readFieldErr
  | _ => none

/-- What `axios.post` makes of its answer: only a response of success is one. -/
def postResult : Except Err APIGatewayProxyResponse → Except Fault (List FieldErr)
  | .error e => .error (.err e)
  | .ok resp =>
    if 200 ≤ resp.statusCode ∧ resp.statusCode < 300 then
      match readFieldErrs resp.body with
      | some fieldErrs => .ok fieldErrs
      -- What is no list has no methods of one.
      | none => .error (.err (.external "TypeError"))
    else .error (.err (.external "AxiosError"))

/-- `axios.post`. -/
def post (url : String) (fields : Fields) : ClientProg (List FieldErr) :=
  Program.ask (S := postCalls) ⟨url, stringify fields⟩ fun r => Program.ofExcept (postResult r)

/-- The body of `validateSignUpForm`: the form without the confirmation of the password. -/
def reqBody (form : Fields) : Fields := form.filter fun f => f.1 ≠ "password_confirmation"

/-- The error of the client itself, if the confirmation is not the password. -/
def confirmationErrs (form : Fields) : List FieldErr :=
  if form.lookup "password_confirmation" ≠ (reqBody form).lookup "password" then
    [⟨"password_confirmation", "invalid_format"⟩]
  else []

/-- `validateSignUpForm`. -/
def validateSignUpForm (form : Fields) : ClientProg (List FieldErr) := do
  let errData ← post "/api/validate_sign_up_form" (reqBody form)
  pure (errData ++ confirmationErrs form)

/-! ## Messages -/

/-- `messagesOnInvalidFormError`. -/
def messagesOnInvalidFormError : Fields :=
  [("username", "小文字・数字・ハイフンのみを含む３９文字以内の文字列である必要があります。" ++
      "（ハイフンは頭と末尾に来てはいけません。）"),
    ("password", "大文字・小文字・数字・記号を含む８文字以上の文字列である必要があります。"),
    ("email", "適切なEmailアドレスではありません。"),
    ("wallet_address", "適切なwallet addressではありません。"),
    ("password_confirmation", "パスワードが一致していません。")]

/-- A message in its colour, of which the beginning may be bold. -/
structure Message where
  color : String
  bold : String
  text : String
  deriving DecidableEq

/-- `translateSignUpErrorCode`. -/
def translateSignUpErrorCode (field errorCode value : String) : Message :=
  if errorCode = "already_exists" then ⟨"red", value, "はすでに登録されています。"⟩
  else ⟨"red", "", (messagesOnInvalidFormError.lookup field).getD ""⟩

/-- `validFieldMessage`. -/
def validFieldMessage : Message := ⟨"green", "", "有効な値です。"⟩

/-- What `ValidateForm` returns. -/
structure Validation where
  fieldMessages : List (String × Message)
  canSubmitForm : Bool

/-- The error of a field, if there is one. -/
def fieldErr (fieldErrors : List FieldErr) (key : String) : Option FieldErr :=
  fieldErrors.find? fun err => err.fieldName = key

/-- What `ValidateForm` makes of the errors. Fields that are empty have no messages. -/
def validation (form : Fields) (fieldErrors : List FieldErr) : Validation :=
  let filled := form.filter fun f => f.2 ≠ ""
  let messages := filled.map fun f => (f.1, match fieldErr fieldErrors f.1 with
    | some err => translateSignUpErrorCode err.fieldName err.code f.2
    | none => validFieldMessage)
  let isFormValid := filled.all fun f => (fieldErr fieldErrors f.1).isNone
  let isAllFieldsFilled := form.all fun f => 0 < f.2.length
  ⟨messages, isFormValid && isAllFieldsFilled⟩

/-- `ValidateForm`. -/
def validateForm (form : Fields) : ClientProg Validation := do
  let fieldErrors ← validateSignUpForm form
  pure (validation form fieldErrors)

/-! ## Forms -/

/-- The forms that are validated. -/
inductive Form
  | signUp (email password passwordConfirmation username : String)
  | updatePassword (password passwordConfirmation : String)
  | resetPassword (username password passwordConfirmation verificationCode : String)
  deriving DecidableEq

namespace Form

/-- The form as an object. -/
def fields : Form → Fields
  | signUp email password passwordConfirmation username =>
    [("email", email), ("password", password), ("password_confirmation", passwordConfirmation),
      ("username", username)]
  | updatePassword password passwordConfirmation =>
    [("password", password), ("password_confirmation", passwordConfirmation)]
  | resetPassword username password passwordConfirmation verificationCode =>
    [("username", username), ("password", password),
      ("password_confirmation", passwordConfirmation), ("verification_code", verificationCode)]

/-- The password of the form. -/
def password : Form → String
  | signUp _ password _ _ | updatePassword password _ | resetPassword _ password _ _ => password

/-- The second input of the password. -/
def passwordConfirmation : Form → String
  | signUp _ _ confirmation _ | updatePassword _ confirmation
  | resetPassword _ _ confirmation _ => confirmation

/-- The form that the function makes of what is posted. -/
def posted : Form → SignUpForm
  | signUp email password _ username => ⟨username, password, email⟩
  | updatePassword password _ => ⟨"", password, ""⟩
  | resetPassword username password _ _ => ⟨username, password, ""⟩

end Form

/-! ## The errors of a form -/

/-- What JavaScript escapes in a text is read back, as JSON. -/
theorem escapes_jsEscapeChar : Escapes jsEscapeChar := by
  intro c
  unfold jsEscapeChar
  split_ifs with h1 h2 h3 h4 h5 h6 h7 h8
  · exact ⟨_, .char, readUnits_escaped (by decide) (by rw [h1]; rfl)⟩
  · exact ⟨_, .char, readUnits_escaped (by decide) (by rw [h2]; rfl)⟩
  · exact ⟨_, .char, readUnits_escaped (by decide) (by rw [h3]; rfl)⟩
  · exact ⟨_, .char, readUnits_escaped (by decide) (by rw [h4]; rfl)⟩
  · exact ⟨_, .char, readUnits_escaped (by decide) (by rw [h5]; rfl)⟩
  · exact ⟨_, .char, readUnits_escaped (by decide) (by rw [h6]; rfl)⟩
  · exact ⟨_, .char, readUnits_escaped (by decide) (by rw [h7]; rfl)⟩
  · exact ⟨_, .code (by omega), readUnits_code (by omega)⟩
  · exact ⟨_, .char, readUnits_self h1 h2 (by omega)⟩

/-- A form gets through to the function, whatever its texts. -/
theorem unmarshal_stringify {α : Type} {decode : Value → Except DecodeError α} (fields : Fields) :
    unmarshal decode (stringify fields) =
      decode (.object (fields.map fun f => (f.1, .string f.2))) :=
  unmarshal_of_written (written_object (n := 9999) escapes_jsEscapeChar fun f _ =>
    written_string escapes_jsEscapeChar f.2)

/-- The fields of a form are found by their names. -/
theorem decodeForm_object {members : List (String × Value)} {userName password email : String}
    (huserName : stringField "username" members = .ok userName)
    (hpassword : stringField "password" members = .ok password)
    (hemail : stringField "email" members = .ok email) :
    decodeForm (.object members) = .ok ⟨userName, password, email⟩ := by
  simp only [decodeForm, decodeStruct, huserName, hpassword, hemail]
  rfl

/-- What is posted is read as a form, in which the fields that are not there are empty. -/
theorem unmarshal_posted (form : Form) :
    unmarshal decodeForm (stringify (reqBody form.fields)) = .ok form.posted := by
  have husername : foldName "password" ≠ foldName "username" := by decide
  have hemail : foldName "password" ≠ foldName "email" ∧ foldName "username" ≠ foldName "email" ∧
      foldName "verification_code" ≠ foldName "email" := by decide
  -- The names of the members are compared as the decoder folds them, each form for itself.
  rw [unmarshal_stringify]
  cases form with
  | signUp email password confirmation username =>
    have hnames : ((reqBody (Form.signUp email password confirmation username).fields).map
        fun m => foldName m.1).Nodup := by
      show [foldName "email", foldName "password", foldName "username"].Nodup
      decide
    exact decodeForm_object
      (stringField_of_mem_texts hnames (by simp [reqBody, Form.fields]))
      (stringField_of_mem_texts hnames (by simp [reqBody, Form.fields]))
      (stringField_of_mem_texts hnames (by simp [reqBody, Form.fields]))
  | updatePassword password confirmation =>
    have hnames : ((reqBody (Form.updatePassword password confirmation).fields).map
        fun m => foldName m.1).Nodup := List.nodup_singleton _
    exact decodeForm_object
      (stringField_of_forall_ne (by simp [reqBody, Form.fields, husername]))
      (stringField_of_mem_texts hnames (by simp [reqBody, Form.fields]))
      (stringField_of_forall_ne (by simp [reqBody, Form.fields, hemail]))
  | resetPassword username password confirmation code =>
    have hnames : ((reqBody (Form.resetPassword username password confirmation code).fields).map
        fun m => foldName m.1).Nodup := by
      show [foldName "username", foldName "password", foldName "verification_code"].Nodup
      decide
    exact decodeForm_object
      (stringField_of_mem_texts hnames (by simp [reqBody, Form.fields]))
      (stringField_of_mem_texts hnames (by simp [reqBody, Form.fields]))
      (stringField_of_forall_ne (by simp [reqBody, Form.fields, hemail]))

/-- The function decodes what is posted so. -/
theorem unmarshal_signUpForm [Validators] (form : Form) :
    Decoders.unmarshal .signUpForm (stringify (reqBody form.fields)) = .ok form.posted := by
  show (unmarshal decodeForm (stringify (reqBody form.fields))).mapError decodeError = _
  rw [unmarshal_posted]
  rfl

/-- An error is read as the function has written it. -/
theorem readFieldErr_members (e : SignUp.FieldError) :
    readFieldErr (.object (e.members.map fun m => (m.1, .string m.2))) = some (toFieldErr e) := rfl

/-- So is a list of errors. -/
theorem mapM_readFieldErr (errs : List SignUp.FieldError) :
    (errs.map fun e => Value.object (e.members.map fun m => (m.1, .string m.2))).mapM
      readFieldErr = some (errs.map toFieldErr) := by
  induction errs with
  | nil => rfl
  | cons e errs ih =>
    rw [List.map_cons, List.mapM_cons, readFieldErr_members, ih]
    rfl

/-- The client reads the errors that the function has written. -/
theorem readFieldErrs_marshalFieldErrs (errs : List SignUp.FieldError) :
    readFieldErrs (SignUp.marshalFieldErrs errs) = some (errs.map toFieldErr) := by
  rw [readFieldErrs, SignUp.marshalFieldErrs, parse_of_written (written_fieldErrs errs)]
  exact mapM_readFieldErr errs

/-- The errors that the function finds are those that the client gets. -/
theorem postResult_marshalFieldErrs (errs : List SignUp.FieldError) :
    postResult (.ok ⟨200, SignUp.marshalFieldErrs errs⟩) = .ok (errs.map toFieldErr) := by
  simp [postResult, readFieldErrs_marshalFieldErrs]

/-! ## The answers of the function -/

section

variable [Validators]

/-- A request, which the function answers, with the accounts of the pool. -/
def serve (w : Accounts) (request : PostRequest) :
    Invocation → Option (Except Err APIGatewayProxyResponse × Accounts)
  | .failed message => some (.error (.external message), w)
  | .answered choices =>
    if request.url = "/api/validate_sign_up_form" then
      (Program.run Accounts.exec w (SignUp.validateSignUpForm request.body) choices).map
        fun result => (.ok (match result.1 with
          | .ok resp => resp
          | .error _ => ⟨502, "\x7b\"message\": \"Internal server error\"\x7d"⟩), result.2)
    else none

variable {w w' : Accounts} {form : Form} {r : Except Fault Validation}

/-- The errors of a form, given the values that the filters denote. -/
def formErrs (w : Accounts) (form : Form) (u e : String) : List FieldErr :=
  (invalid form.posted ++ existing w "username" u ++ existing w "email" e).map toFieldErr ++
    confirmationErrs form.fields

/-- What the answer of the function is, unless it is none that is read as errors. -/
theorem formErrs_of_serve (form : Form) {w : Accounts} {invocation : Invocation}
    {r : Except Err APIGatewayProxyResponse} {errData : List FieldErr}
    (hserve : (serve w ⟨"/api/validate_sign_up_form", stringify (reqBody form.fields)⟩
      invocation).map Prod.fst = some r)
    (hr : postResult r = .ok errData) :
    ∃ u e, denoted form.posted.userName = some u ∧
      errData ++ confirmationErrs form.fields = formErrs w form u e := by
  obtain ⟨⟨r', w'⟩, hanswer, rfl⟩ := Option.map_eq_some_iff.1 hserve
  cases invocation with
  | failed message =>
    cases hanswer
    cases hr
  | answered choices =>
    rw [serve, if_pos rfl, validateSignUpForm_eq (unmarshal_signUpForm form)] at hanswer
    obtain ⟨⟨result, w₁⟩, hrun, heq⟩ := Option.map_eq_some_iff.1 hanswer
    cases result with
    | error e =>
      cases heq
      cases hr
    | ok resp =>
      obtain ⟨u, e, hu, -, rfl⟩ := run_checkDuplicates_eq_ok hrun
      cases heq
      rw [postResult_marshalFieldErrs] at hr
      cases hr
      exact ⟨u, e, hu, rfl⟩

/-- The client validates the form by its errors, unless there is a filter that is none. -/
theorem run_validateForm : Program.run serve w (validateForm form.fields) [.answered [.ok, .ok]] =
    some (match denoted form.posted.userName, denoted form.posted.email with
      | some u, some e => .ok (validation form.fields (formErrs w form u e))
      | _, _ => .error (.err (.external "AxiosError")), w) := by
  -- What the function answers, and what the client makes of the answer.
  have hserve : serve w ⟨"/api/validate_sign_up_form", stringify (reqBody form.fields)⟩
      (.answered [.ok, .ok]) = some (.ok (match denoted form.posted.userName,
        denoted form.posted.email with
      | some u, some e => ⟨200, SignUp.marshalFieldErrs
          (invalid form.posted ++ existing w "username" u ++ existing w "email" e)⟩
      | _, _ => ⟨502, "\x7b\"message\": \"Internal server error\"\x7d"⟩), w) := by
    rw [serve, if_pos rfl, validateSignUpForm_eq (unmarshal_signUpForm form), run_checkDuplicates]
    cases denoted form.posted.userName with
    | none => rfl
    | some u => cases denoted form.posted.email <;> rfl
  have hpost : Program.runLeaving serve w (post "/api/validate_sign_up_form" (reqBody form.fields))
      [.answered [.ok, .ok]] = some ((match denoted form.posted.userName,
        denoted form.posted.email with
      | some u, some e => .ok ((invalid form.posted ++ existing w "username" u ++
          existing w "email" e).map toFieldErr)
      | _, _ => .error (.err (.external "AxiosError")), w), []) := by
    show (serve w _ _).bind _ = _
    rw [hserve, Option.bind_some, Program.runLeaving_ofExcept]
    cases denoted form.posted.userName with
    | none => rfl
    | some u =>
      cases denoted form.posted.email with
      | none => rfl
      | some e => exact congrArg (fun r => some ((r, w), [])) (postResult_marshalFieldErrs _)
  rw [validateForm, validateSignUpForm, Program.bind_assoc, Program.run_bind, hpost]
  cases denoted form.posted.userName with
  | none => rfl
  | some u => cases denoted form.posted.email <;> rfl

omit [Validators] in
/-- A form can be submitted exactly if all fields are filled and none has an error. -/
theorem canSubmitForm_iff {fields : Fields} {errs : List FieldErr} :
    (validation fields errs).canSubmitForm = true ↔
      ∀ f ∈ fields, f.2 ≠ "" ∧ ∀ err ∈ errs, err.fieldName ≠ f.1 := by
  have hlength : ∀ s : String, 0 < s.length ↔ s ≠ "" := fun s => by
    rw [Nat.pos_iff_ne_zero, ne_eq, String.length_eq_zero_iff]
  simp only [validation, fieldErr, Bool.and_eq_true, List.all_eq_true, List.mem_filter,
    Option.isNone_iff_eq_none, List.find?_eq_none, decide_eq_true_eq, hlength]
  constructor
  · rintro ⟨hvalid, hfilled⟩ f hf
    exact ⟨hfilled f hf, hvalid f ⟨hf, hfilled f hf⟩⟩
  · exact fun h => ⟨fun f hf => (h f hf.1).2, fun f hf => (h f hf).1⟩

/-- A tag of the field of the name does not hold. -/
theorem exists_mem_invalid {form : SignUpForm} {name : String} :
    (∃ err ∈ invalid form, err.fieldName = name) ↔
      ∃ f ∈ taggedFields .signUpForm form, f.name = name ∧
        ∃ tag ∈ f.tags, tag.check f.value = false := by
  have herror : ∀ f : Field, (∃ valErr, f.error "SignUpForm" = some valErr ∧
      valErr.field = name) ↔ f.name = name ∧ ∃ tag ∈ f.tags, tag.check f.value = false := by
    intro f
    have hsome : (∃ tag ∈ f.tags, tag.check f.value = false) ↔
        (f.tags.find? fun tag => !tag.check f.value).isSome = true := by
      simp [List.find?_isSome]
    rw [hsome, Field.error]
    cases f.tags.find? fun tag => !tag.check f.value <;> simp
  constructor
  · rintro ⟨err, herr, rfl⟩
    obtain ⟨valErr, hval, rfl⟩ := List.mem_map.1 herr
    obtain ⟨f, hf, hsome⟩ := List.mem_filterMap.1 hval
    exact ⟨f, hf, (herror f).1 ⟨valErr, hsome, rfl⟩⟩
  · rintro ⟨f, hf, htag⟩
    obtain ⟨valErr, hsome, rfl⟩ := (herror f).2 htag
    exact ⟨_, List.mem_map_of_mem (List.mem_filterMap.2 ⟨f, hf, hsome⟩), rfl⟩

omit [Validators] in
/-- The field is named in the errors if the value is taken. -/
theorem exists_mem_existing {field value name : String} :
    (∃ err ∈ existing w field value, err.fieldName = name) ↔
      name = field ∧ ∃ a ∈ w.rows, a.attribute field = some value := by
  have hany : (w.rows.any fun a => a.attribute field = some value) = true ↔
      ∃ a ∈ w.rows, a.attribute field = some value := by
    simp
  rw [← hany]
  unfold existing
  split_ifs with h <;> simp [h, @eq_comm _ name]

omit [Validators] in
/-- The passwords are compared as they are typed. -/
theorem confirmationErrs_fields : confirmationErrs form.fields =
    if form.passwordConfirmation = form.password then []
    else [⟨"password_confirmation", "invalid_format"⟩] := by
  have hlookup : form.fields.lookup "password_confirmation" = some form.passwordConfirmation ∧
      (reqBody form.fields).lookup "password" = some form.password := by
    cases form <;> exact ⟨rfl, rfl⟩
  rw [confirmationErrs, hlookup.1, hlookup.2]
  simp

/-- A field has an error if its value is not valid, an account has it, or it is the
    confirmation of another password. -/
theorem exists_mem_formErrs {u e name : String} :
    (∃ err ∈ formErrs w form u e, err.fieldName = name) ↔
      (∃ f ∈ taggedFields .signUpForm form.posted, f.name = name ∧
        ∃ tag ∈ f.tags, tag.check f.value = false) ∨
      (name = "username" ∧ ∃ a ∈ w.rows, a.userName = u) ∨
      (name = "email" ∧ ∃ a ∈ w.rows, a.email = e) ∨
      (name = "password_confirmation" ∧ form.passwordConfirmation ≠ form.password) := by
  have husername : (∃ err ∈ existing w "username" u, err.fieldName = name) ↔
      name = "username" ∧ ∃ a ∈ w.rows, a.userName = u := by
    simp [exists_mem_existing, Account.attribute]
  have hemail : (∃ err ∈ existing w "email" e, err.fieldName = name) ↔
      name = "email" ∧ ∃ a ∈ w.rows, a.email = e := by
    simp [exists_mem_existing, Account.attribute]
  have hconfirmation : (∃ err ∈ confirmationErrs form.fields, err.fieldName = name) ↔
      name = "password_confirmation" ∧ form.passwordConfirmation ≠ form.password := by
    rw [confirmationErrs_fields]
    split_ifs with h <;> simp [h, @eq_comm _ name]
  rw [← exists_mem_invalid, ← husername, ← hemail, ← hconfirmation]
  simp [formErrs, or_and_right, exists_or, toFieldErr]

/-- The fields of which a tag does not hold. -/
theorem exists_invalid_tag {form : SignUpForm} {name : String} :
    (∃ f ∈ taggedFields .signUpForm form, f.name = name ∧
        ∃ tag ∈ f.tags, tag.check f.value = false) ↔
      (name = "username" ∧ validateCognitoUserName form.userName = false) ∨
      (name = "password" ∧ validateCognitoPassword form.password = false) ∨
      (name = "email" ∧ (form.email = "" ∨ Validators.isEmail form.email = false)) := by
  have huserName : (form.userName = "" ∨ validateCognitoUserName form.userName = false) ↔
      validateCognitoUserName form.userName = false :=
    or_iff_right_of_imp fun h => h ▸ by decide
  have hpassword : (form.password = "" ∨ validateCognitoPassword form.password = false) ↔
      validateCognitoPassword form.password = false :=
    or_iff_right_of_imp fun h => h ▸ by decide
  have hemail : Decoders.isEmail form.email = Validators.isEmail form.email := rfl
  rw [← huserName, ← hpassword]
  simp [taggedFields, required, hemail, @eq_comm _ name]

/-- What keeps a form from being submitted, field by field. -/
theorem canSubmitForm_formErrs {u e : String} :
    (validation form.fields (formErrs w form u e)).canSubmitForm = true ↔
      ∀ f ∈ form.fields, f.2 ≠ "" ∧
        (f.1 = "username" → validateCognitoUserName form.posted.userName = true ∧
          ∀ a ∈ w.rows, a.userName ≠ u) ∧
        (f.1 = "password" → validateCognitoPassword form.posted.password = true) ∧
        (f.1 = "email" → Validators.isEmail form.posted.email = true ∧ form.posted.email ≠ "" ∧
          ∀ a ∈ w.rows, a.email ≠ e) ∧
        (f.1 = "password_confirmation" → form.passwordConfirmation = form.password) := by
  rw [canSubmitForm_iff]
  refine forall₂_congr fun f _ => and_congr Iff.rfl ?_
  have hnone : (∀ err ∈ formErrs w form u e, err.fieldName ≠ f.1) ↔
      ¬ ∃ err ∈ formErrs w form u e, err.fieldName = f.1 := by
    push Not
    rfl
  rw [hnone, exists_mem_formErrs, exists_invalid_tag]
  simp only [not_or, not_and, not_exists, Bool.not_eq_false, ne_eq, not_not]
  constructor
  · rintro ⟨⟨huserName, hpassword, hemail⟩, huser, hmail, hconfirmation⟩
    exact ⟨fun h => ⟨huserName h, huser h⟩, hpassword,
      fun h => ⟨(hemail h).2, (hemail h).1, hmail h⟩, hconfirmation⟩
  · rintro ⟨huserName, hpassword, hemail, hconfirmation⟩
    exact ⟨⟨fun h => (huserName h).1, hpassword, fun h => ⟨(hemail h).2.1, (hemail h).1⟩⟩,
      fun h => (huserName h).2, fun h => (hemail h).2.2, hconfirmation⟩

/-! ## Forms that are right, and others -/

/-- The form is right: the account that it is for is a new one, or there is one already. -/
structure Form.IsRight (w : Accounts) (form : Form) : Prop where
  filled : ∀ f ∈ form.fields, f.2 ≠ ""
  password : validateCognitoPassword form.password = true
  confirmed : form.passwordConfirmation = form.password
  account : match form with
    | signUp email _ _ username => validateCognitoUserName username = true ∧
        Validators.isEmail email = true ∧ ∀ a ∈ w.rows, a.userName ≠ username ∧ a.email ≠ email
    | updatePassword _ _ => True
    | resetPassword username _ _ _ => ∃ a ∈ w.rows, a.userName = username

omit [Validators] in
/-- The password is rejected, or is not the one that confirms it. -/
def Form.IsWrong (form : Form) : Prop :=
  validateCognitoPassword form.password = false ∨ form.passwordConfirmation ≠ form.password

omit [Validators] in
/-- The values that are posted make filters. -/
def Form.Parses (form : Form) : Prop :=
  (denoted form.posted.userName).isSome = true ∧ (denoted form.posted.email).isSome = true

omit [Validators] in
/-- The form is one for a new password of an account. -/
def Form.IsReset : Form → Prop
  | resetPassword _ _ _ _ => True
  | _ => False

/-- What is to become of a form. -/
structure Verdict (w : Accounts) (form : Form) (r : Except Fault Validation) : Prop where
  accepts : form.IsRight w → ∃ v, r = .ok v ∧ v.canSubmitForm = true
  rejects : form.IsWrong → ∃ v, r = .ok v ∧ v.canSubmitForm = false

omit [Validators] in
/-- The password that is posted is that of the form. -/
theorem Form.posted_password (form : Form) : form.posted.password = form.password := by
  cases form <;> rfl

omit [Validators] in
/-- Every form has a password, and its confirmation. -/
theorem Form.mem_fields (form : Form) : ("password", form.password) ∈ form.fields ∧
    ("password_confirmation", form.passwordConfirmation) ∈ form.fields := by
  cases form <;> simp [Form.fields, Form.password, Form.passwordConfirmation]

/-- A form with a password that is not right cannot be submitted. -/
theorem canSubmitForm_of_isWrong {u e : String} (hwrong : form.IsWrong) :
    (validation form.fields (formErrs w form u e)).canSubmitForm = false := by
  rw [Bool.eq_false_iff, ne_eq, canSubmitForm_formErrs]
  intro hall
  obtain ⟨-, -, hpassword, -, -⟩ := hall _ form.mem_fields.1
  obtain ⟨-, -, -, -, hconfirmed⟩ := hall _ form.mem_fields.2
  rcases hwrong with hrejected | hne
  · rw [← form.posted_password, hpassword rfl] at hrejected
    cases hrejected
  · exact hne (hconfirmed rfl)

/-- A form that is right, and is none for a new password of an account, can be submitted. -/
theorem canSubmitForm_of_isRight {u e : String} (hu : denoted form.posted.userName = some u)
    (he : denoted form.posted.email = some e) (hright : form.IsRight w) (hreset : ¬ form.IsReset) :
    (validation form.fields (formErrs w form u e)).canSubmitForm = true := by
  rw [canSubmitForm_formErrs]
  have hpassword : validateCognitoPassword form.posted.password = true := by
    rw [form.posted_password]
    exact hright.password
  intro f hf
  cases form with
  | signUp email password confirmation username =>
    obtain ⟨huserName, hemail, hunused⟩ := hright.account
    have hfilled : email ≠ "" := hright.filled ("email", email) (by simp [Form.fields])
    -- The accounts are asked for that have the values of the form.
    cases hu.symm.trans (denoted_userName huserName)
    cases he.symm.trans (denoted_email hemail he)
    exact ⟨hright.filled f hf, fun _ => ⟨huserName, fun a ha => (hunused a ha).1⟩,
      fun _ => hpassword, fun _ => ⟨hemail, hfilled, fun a ha => (hunused a ha).2⟩,
      fun _ => hright.confirmed⟩
  | updatePassword password confirmation =>
    -- The form has neither a name nor an address that an error could be about.
    have hname : f.1 ≠ "username" ∧ f.1 ≠ "email" := by
      simp only [Form.fields, List.mem_cons, List.not_mem_nil, or_false] at hf
      rcases hf with rfl | rfl <;> simp
    exact ⟨hright.filled f hf, fun h => absurd h hname.1, fun _ => hpassword,
      fun h => absurd h hname.2, fun _ => hright.confirmed⟩
  | resetPassword username password confirmation code => exact absurd trivial hreset

/-- A form for a new password of an account cannot be submitted. -/
theorem canSubmitForm_of_isReset {u e : String} (hu : denoted form.posted.userName = some u)
    (hright : form.IsRight w) (hreset : form.IsReset) :
    (validation form.fields (formErrs w form u e)).canSubmitForm = false := by
  cases form with
  | resetPassword username password confirmation code =>
    rw [Bool.eq_false_iff, ne_eq, canSubmitForm_formErrs]
    intro hall
    obtain ⟨-, huserName, -⟩ := hall ("username", username) (by simp [Form.fields])
    obtain ⟨hvalid, hunused⟩ := huserName rfl
    cases hu.symm.trans (denoted_userName hvalid)
    -- The account that the new password is for is reported as a duplicate.
    obtain ⟨a, ha, heq⟩ := hright.account
    exact hunused a ha heq
  | _ => exact absurd hreset id

/-- Of a form that does not make filters there is no verdict. -/
theorem verdict_iff_of_not_parses (hr : ∀ v, r ≠ .ok v) (hparses : ¬ form.Parses) :
    Verdict w form r ↔ ¬ (form.IsReset ∧ form.IsRight w) ∧
      (form.IsRight w ∨ form.IsWrong → form.Parses) := by
  constructor
  · intro h
    have hright : ¬ form.IsRight w := fun hright => by
      obtain ⟨v, hv, -⟩ := h.accepts hright
      exact hr v hv
    have hwrong : ¬ form.IsWrong := fun hwrong => by
      obtain ⟨v, hv, -⟩ := h.rejects hwrong
      exact hr v hv
    exact ⟨fun hreset => hright hreset.2, fun h => absurd h (not_or.2 ⟨hright, hwrong⟩)⟩
  · rintro ⟨-, h⟩
    exact ⟨fun hright => absurd (h (.inl hright)) hparses,
      fun hwrong => absurd (h (.inr hwrong)) hparses⟩

/-- The verdict on a form is the one that it is to be exactly if the form is no right one for
    a new password of an account, and makes filters if it is right or wrong. -/
theorem verdict_iff (h : Program.run serve w (validateForm form.fields) [.answered [.ok, .ok]] =
    some (r, w')) : Verdict w form r ↔ ¬ (form.IsReset ∧ form.IsRight w) ∧
      (form.IsRight w ∨ form.IsWrong → form.Parses) := by
  -- A value that does not parse in the filter ends the request, and there is no verdict.
  rw [run_validateForm] at h
  cases hu : denoted form.posted.userName with
  | none =>
    rw [hu] at h
    cases h
    exact verdict_iff_of_not_parses nofun (by simp [Form.Parses, hu])
  | some u =>
    cases he : denoted form.posted.email with
    | none =>
      rw [hu, he] at h
      cases h
      exact verdict_iff_of_not_parses nofun (by simp [Form.Parses, he])
    | some e =>
      rw [hu, he] at h
      cases h
      have hparses : form.Parses := by simp [Form.Parses, hu, he]
      constructor
      · -- A form that resets a password is refused for the account that it is about.
        intro hverdict
        refine ⟨fun ⟨hreset, hright⟩ => ?_, fun _ => hparses⟩
        obtain ⟨v, hv, hsubmit⟩ := hverdict.accepts hright
        cases hv
        rw [canSubmitForm_of_isReset hu hright hreset] at hsubmit
        cases hsubmit
      · rintro ⟨hreset, -⟩
        refine ⟨fun hright => ⟨_, rfl, canSubmitForm_of_isRight hu he hright fun h => ?_⟩,
          fun hwrong => ⟨_, rfl, canSubmitForm_of_isWrong hwrong⟩⟩
        exact hreset ⟨h, hright⟩

end

/-! A form for a new password, and one for a new password of an account. -/

section

attribute [local instance] validators

/-- The account of a user. -/
def accounts : Accounts := Keyed.Table.empty.put ⟨"alice", "alice@example.com"⟩

/-- The form in which a user gives a new password. -/
def updateForm : Form := .updatePassword "Passw0rd!" "Passw0rd!"

/-- The form in which the user with the account gives a new password. -/
def resetForm : Form := .resetPassword "alice" "Passw0rd!" "Passw0rd!" "123456"

/-- The form that resets the password of an account is a right one. -/
theorem resetForm_isRight : resetForm.IsRight accounts where
  filled := by decide
  password := by decide +kernel
  confirmed := rfl
  account := ⟨_, Keyed.Table.mem_put.2 (.inr rfl), rfl⟩

/-- The form to update a password has a verdict that is right. -/
theorem verdict_updateForm : ∃ r w', Program.run serve accounts (validateForm updateForm.fields)
    [.answered [.ok, .ok]] = some (r, w') ∧ Verdict accounts updateForm r :=
  ⟨_, _, run_validateForm, (verdict_iff run_validateForm).2 ⟨fun h => h.1.elim, fun _ => ⟨rfl, rfl⟩⟩⟩

/-- The form to reset a password has not: the user name exists, as it must, and is reported as
    taken. -/
theorem not_verdict_resetForm : ∃ r w', Program.run serve accounts (validateForm resetForm.fields)
    [.answered [.ok, .ok]] = some (r, w') ∧ ¬ Verdict accounts resetForm r := by
  refine ⟨_, _, run_validateForm, fun h => ?_⟩
  have hu : denoted resetForm.posted.userName = some "alice" := rfl
  have he : denoted resetForm.posted.email = some "" := rfl
  obtain ⟨v, hv, hsubmit⟩ := h.accepts resetForm_isRight
  rw [hu, he] at hv
  cases hv
  rw [canSubmitForm_of_isReset hu resetForm_isRight trivial] at hsubmit
  cases hsubmit

end

end Knowtfolio.Client
