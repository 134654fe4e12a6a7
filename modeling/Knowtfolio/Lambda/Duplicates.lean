import Knowtfolio.Lambda.SignUp

/-!
# The check for duplicates

`validate_sign_up_form` asks the user pool for the accounts that have the user name of the
form, and for those that have its e-mail address, by filters into which the two are pasted.
A value that a filter denotes as it is has no quotation marks, and no backslash before the
one that ends the filter (`readQuoted_eq_self`). Only such values are compared with those of
the accounts; others make a filter that is none, or one for another value
(`duplicates_iff`).

The reader of the quoted value is compared with the value by their lengths: what is read is never
longer than what is quoted, and shorter as soon as a character is escaped (`readQuoted_length`).
The function is then computed on a pool, by the answers of the two calls (`validateSignUpForm_eq`).
-/

namespace Knowtfolio.SignUp

open Interaction

/-! ## Values in filters -/

/-- A value that may stand between quotation marks as it is. -/
def Quotable (s : String) : Prop := '"' ∉ s.toList ∧ s.toList.getLast? ≠ some '\\'

instance (s : String) : Decidable (Quotable s) := inferInstanceAs (Decidable (_ ∧ _))

/-- A character that does not escape the next one stands for itself. -/
theorem readQuoted_cons {c : Char} {cs : List Char} (hquote : c ≠ '"')
    (hescape : ¬ (c = '\\' ∧ cs.head? = some '"')) :
    readQuoted (c :: cs) = (readQuoted cs).map (c :: ·) := by
  rw [readQuoted.eq_def]
  split <;> simp_all

/-- What is read is no longer than the value, and as long only if that is read as it is. -/
theorem readQuoted_length : ∀ {cs r : List Char}, readQuoted (cs ++ ['"']) = some r →
    r.length ≤ cs.length ∧ (r.length = cs.length → '"' ∉ cs ∧ cs.getLast? ≠ some '\\')
  | [], r, h => by
    cases h
    simp
  | c :: cs, r, h => by
    by_cases hquote : c = '"'
    · subst hquote
      cases cs <;> simp [readQuoted] at h
    by_cases hescape : c = '\\' ∧ (cs ++ ['"']).head? = some '"'
    · -- Two characters of the value are read as one.
      obtain ⟨rfl, hhead⟩ := hescape
      cases cs with
      | nil => simp [readQuoted] at h
      | cons c cs =>
        obtain rfl : c = '"' := by simpa using hhead
        obtain ⟨r, hr, rfl⟩ := Option.map_eq_some_iff.1 h
        obtain ⟨hlength, -⟩ := readQuoted_length hr
        simp only [List.length_cons]
        omega
    · rw [List.cons_append, readQuoted_cons hquote hescape] at h
      obtain ⟨r, hr, rfl⟩ := Option.map_eq_some_iff.1 h
      obtain ⟨hlength, hall⟩ := readQuoted_length hr
      refine ⟨by simpa using hlength, fun heq => ?_⟩
      obtain ⟨hmem, hlast⟩ := hall (by simpa using heq)
      refine ⟨by simp [hmem, Ne.symm hquote], ?_⟩
      cases cs with
      | nil => simpa using hescape
      | cons c' cs => simpa using hlast

/-- A value is read as it is exactly if it has no quotation marks and does not end with a
    backslash. -/
theorem readQuoted_eq_self {s : String} :
    readQuoted (s.toList ++ ['"']) = some s.toList ↔ Quotable s := by
  constructor
  · exact fun h => (readQuoted_length h).2 rfl
  · rintro ⟨hmem, hlast⟩
    generalize s.toList = cs at hmem hlast
    induction cs with
    | nil => rfl
    | cons c cs ih =>
      rw [List.mem_cons, not_or] at hmem
      -- Only the last character could escape a quotation mark: the one at the end.
      have hescape : ¬ (c = '\\' ∧ (cs ++ ['"']).head? = some '"') := by
        cases cs with
        | nil => simpa using hlast
        | cons c' cs =>
          rintro ⟨-, hhead⟩
          exact hmem.2 (by simp_all)
      have hlast' : cs.getLast? ≠ some '\\' := by
        cases cs with
        | nil => simp
        | cons c' cs => simpa using hlast
      rw [List.cons_append, readQuoted_cons (Ne.symm hmem.1) hescape, ih hmem.2 hlast']
      rfl

/-- The value that the filter denotes into which a value is pasted, if it is a filter. -/
def denoted (value : String) : Option String :=
  (readQuoted (value.toList ++ ['"'])).map String.ofList

/-- A value that is pasted into the filter stands for itself if it may be quoted. -/
theorem denoted_eq_self {value : String} : denoted value = some value ↔ Quotable value := by
  rw [← readQuoted_eq_self, denoted, Option.map_eq_some_iff]
  constructor
  · rintro ⟨cs, hcs, rfl⟩
    rw [hcs, String.toList_ofList]
  · exact fun h => ⟨_, h, String.ofList_toList⟩

/-! ## The handler -/

/-- The error of a field, if an account of the pool has the value in it. -/
def existing (w : Accounts) (field value : String) : List FieldError :=
  if w.rows.any fun a => a.attribute field = some value then [⟨field, .alreadyExists⟩] else []

/-- A duplicate is found if an account has the value. -/
theorem mem_existing {w : Accounts} {field field' value : String} :
    ⟨field', .alreadyExists⟩ ∈ existing w field value ↔
      field' = field ∧ ∃ a ∈ w.rows, a.attribute field = some value := by
  have hany : (w.rows.any fun a => a.attribute field = some value) = true ↔
      ∃ a ∈ w.rows, a.attribute field = some value := by
    simp
  unfold existing
  split_ifs with h
  · simp [hany.1 h]
  · simp [mt hany.2 h]

section

variable [SignUpEnvironment] {w w' : Accounts} {form : SignUpForm} {body field value : String}
  {fieldErrs : List FieldError}

omit [SignUpEnvironment] in
/-- The accounts are asked for that have the value that the filter denotes. -/
theorem runLeaving_checkDuplicateValueForField (hfield : field = "username" ∨ field = "email")
    (chs : List PoolChoice) :
    Program.runLeaving Accounts.exec w (checkDuplicateValueForField field value fieldErrs)
      (.ok :: chs) = some ((match denoted value with
        | none => .error (.err (.external "InvalidParameterException"))
        | some v => .ok (fieldErrs ++ existing w field v), w), chs) := by
  have hexec : w.exec (.listUsers (userFilter field value)) .ok = match denoted value with
      | none => some (.error (.external "InvalidParameterException"), w)
      | some v => some (.ok (w.rows.filter fun a => a.attribute field = some v), w) := by
    simp only [Accounts.exec, parseFilter_userFilter hfield, denoted]
    cases readQuoted (value.toList ++ ['"']) <;> rfl
  show (w.exec (.listUsers (userFilter field value)) .ok).bind _ = _
  rw [hexec]
  cases denoted value with
  | none =>
    show Program.runLeaving (S := poolCalls) Accounts.exec w (.throw _) chs = _
    rw [Program.runLeaving_throw]
  | some v =>
    show Program.runLeaving (S := poolCalls) Accounts.exec w (.ret _) chs = _
    rw [Program.runLeaving_ret]
    have hlength : 0 < (w.rows.filter fun a => a.attribute field = some v).length ↔
        (w.rows.any fun a => a.attribute field = some v) = true := by
      rw [List.length_pos_iff, ne_eq, List.filter_eq_nil_iff, List.any_eq_true]
      push Not
      rfl
    simp only [existing, hlength]
    split_ifs <;> simp

omit [SignUpEnvironment] in
/-- Both fields are checked. -/
theorem run_checkDuplicates : Program.run Accounts.exec w (checkDuplicates form fieldErrs)
    [.ok, .ok] = some (match denoted form.userName, denoted form.email with
      | some u, some e =>
        .ok ⟨200, marshalFieldErrs (fieldErrs ++ existing w "username" u ++ existing w "email" e)⟩
      | _, _ => .error (.err (.external "InvalidParameterException")), w) := by
  rw [checkDuplicates, Program.run_bind, runLeaving_checkDuplicateValueForField (.inl rfl)]
  cases denoted form.userName with
  | none => rfl
  | some u =>
    show Program.run Accounts.exec w (checkDuplicateValueForField "email" form.email _ >>= _)
      [.ok] = _
    rw [Program.run_bind, runLeaving_checkDuplicateValueForField (.inr rfl)]
    cases denoted form.email <;> rfl

omit [SignUpEnvironment] in
/-- A check that comes to an end without an error was answered. -/
theorem runLeaving_checkDuplicateValueForField_eq_ok (hfield : field = "username" ∨ field = "email")
    {fieldErrs' : List FieldError} {chs chs' : List PoolChoice}
    (h : Program.runLeaving Accounts.exec w (checkDuplicateValueForField field value fieldErrs) chs =
      some ((.ok fieldErrs', w'), chs')) : w' = w ∧
      ∃ v, denoted value = some v ∧ fieldErrs' = fieldErrs ++ existing w field v := by
  cases chs with
  | nil => cases h
  | cons ch chs =>
    cases ch with
    | ok =>
      rw [runLeaving_checkDuplicateValueForField hfield] at h
      cases hv : denoted value with
      | none =>
        rw [hv] at h
        cases h
      | some v =>
        rw [hv] at h
        cases h
        exact ⟨rfl, v, rfl, rfl⟩
    | fail message =>
      have hfail : Program.runLeaving Accounts.exec w
          (checkDuplicateValueForField field value fieldErrs) (.fail message :: chs) =
          some ((.error (.err (.external message)), w), chs) := by
        show Program.runLeaving (S := poolCalls) Accounts.exec w (.throw _) chs = _
        rw [Program.runLeaving_throw]
      cases hfail.symm.trans h

omit [SignUpEnvironment] in
/-- If the checks come to an end without an error, both values have been looked for. -/
theorem run_checkDuplicates_eq_ok {chs : List PoolChoice} {resp : APIGatewayProxyResponse}
    (h : Program.run Accounts.exec w (checkDuplicates form fieldErrs) chs = some (.ok resp, w')) :
    ∃ u e, denoted form.userName = some u ∧ denoted form.email = some e ∧
      resp = ⟨200, marshalFieldErrs
        (fieldErrs ++ existing w "username" u ++ existing w "email" e)⟩ := by
  rw [checkDuplicates, Program.run_bind] at h
  obtain ⟨⟨⟨r, w₁⟩, chs₁⟩, husername, h⟩ := Option.bind_eq_some_iff.1 h
  cases r with
  | error e => cases h
  | ok errs =>
    obtain ⟨rfl, u, hu, rfl⟩ := runLeaving_checkDuplicateValueForField_eq_ok (.inl rfl) husername
    dsimp only at h
    rw [Program.run_bind] at h
    obtain ⟨⟨⟨r, w₂⟩, chs₂⟩, hemail, h⟩ := Option.bind_eq_some_iff.1 h
    cases r with
    | error e => cases h
    | ok errs =>
      obtain ⟨rfl, e, he, rfl⟩ := runLeaving_checkDuplicateValueForField_eq_ok (.inr rfl) hemail
      cases h
      exact ⟨u, e, hu, he, rfl⟩

/-- The errors of the fields of which a tag does not hold. -/
def invalid (form : SignUpForm) : List FieldError :=
  ((taggedFields .signUpForm form).filterMap (Field.error "SignUpForm")).map fun valErr =>
    ⟨valErr.field, .invalidFormat⟩

/-- A form is valid if the tags of all its fields hold. -/
theorem invalid_eq_nil : invalid form = [] ↔ TagsHold .signUpForm form := by
  rw [invalid, List.map_eq_nil_iff]
  exact @errors_eq_nil _ _ .signUpForm form

/-- That a value is taken is no matter of its format. -/
theorem not_mem_invalid : ⟨field, .alreadyExists⟩ ∉ invalid form := by
  intro h
  obtain ⟨valErr, -, heq⟩ := List.mem_map.1 h
  cases heq

/-- The errors of the tags come first. -/
theorem validateSignUpForm_eq (h : Decoders.unmarshal .signUpForm body = .ok form) :
    validateSignUpForm body = checkDuplicates form (invalid form) := by
  have hform : decodedForm body = form := by
    rw [decodedForm, h]
    rfl
  rw [validateSignUpForm, validateJSONRequest_of_unmarshal h]
  split_ifs with htags
  · rw [invalid_eq_nil.2 htags]
  · dsimp only
    rw [hform]
    rfl

/-- The response is a list of errors of fields, of which one is that a value exists already
    exactly if an account has it. -/
def ReportsDuplicates (w : Accounts) (form : SignUpForm)
    (r : Except Fault APIGatewayProxyResponse) : Prop :=
  ∃ fieldErrs, r = .ok ⟨200, marshalFieldErrs fieldErrs⟩ ∧
    (⟨"username", .alreadyExists⟩ ∈ fieldErrs ↔ ∃ a ∈ w.rows, a.userName = form.userName) ∧
    (⟨"email", .alreadyExists⟩ ∈ fieldErrs ↔ ∃ a ∈ w.rows, a.email = form.email)

/-- The errors can be read off the response. -/
theorem marshalFieldErrs_injective {errs errs' : List FieldError}
    (h : marshalFieldErrs errs = marshalFieldErrs errs') : errs = errs' := by
  have herrs := SignUpEnvironment.unmarshal_marshalFieldErrs errs
  rw [h, SignUpEnvironment.unmarshal_marshalFieldErrs, Except.ok.injEq] at herrs
  exact herrs.symm

/-- The response is the one to the values that the filters denote. -/
theorem reportsDuplicates_iff (h : Decoders.unmarshal .signUpForm body = .ok form)
    {r : Except Fault APIGatewayProxyResponse}
    (hrun : Program.run Accounts.exec w (validateSignUpForm body) [.ok, .ok] = some (r, w')) :
    ReportsDuplicates w form r ↔ ∃ u e, denoted form.userName = some u ∧
      denoted form.email = some e ∧
      ((∃ a ∈ w.rows, a.userName = u) ↔ ∃ a ∈ w.rows, a.userName = form.userName) ∧
      ((∃ a ∈ w.rows, a.email = e) ↔ ∃ a ∈ w.rows, a.email = form.email) := by
  -- A filter that does not parse makes an error, which reports nothing.
  rw [validateSignUpForm_eq h, run_checkDuplicates] at hrun
  cases hu : denoted form.userName with
  | none =>
    rw [hu] at hrun
    cases hrun
    simp [ReportsDuplicates]
  | some u =>
    cases he : denoted form.email with
    | none =>
      rw [hu, he] at hrun
      cases hrun
      simp [ReportsDuplicates]
    | some e =>
      rw [hu, he] at hrun
      cases hrun
      -- What is reported is what has been found; the validation of the form does not report these.
      have husername : ⟨"username", .alreadyExists⟩ ∈ invalid form ++ existing w "username" u ++
          existing w "email" e ↔ ∃ a ∈ w.rows, a.userName = u := by
        simp [mem_existing, not_mem_invalid, Account.attribute]
      have hemail : ⟨"email", .alreadyExists⟩ ∈ invalid form ++ existing w "username" u ++
          existing w "email" e ↔ ∃ a ∈ w.rows, a.email = e := by
        simp [mem_existing, not_mem_invalid, Account.attribute]
      constructor
      · -- The response determines the errors in it.
        rintro ⟨fieldErrs, hresp, hfields⟩
        injection hresp with hresp
        injection hresp with _ hbody
        rw [← marshalFieldErrs_injective hbody, husername, hemail] at hfields
        exact ⟨u, e, rfl, rfl, hfields⟩
      · rintro ⟨_, _, ⟨⟩, ⟨⟩, hfields⟩
        refine ⟨_, rfl, ?_⟩
        rw [husername, hemail]
        exact hfields

/-- Whatever the accounts are, the response tells which values exist already, exactly if both
    values may stand between quotation marks as they are. -/
theorem duplicates_iff (h : Decoders.unmarshal .signUpForm body = .ok form) :
    (∀ w r w', Program.run Accounts.exec w (validateSignUpForm body) [.ok, .ok] = some (r, w') →
      ReportsDuplicates w form r) ↔ Quotable form.userName ∧ Quotable form.email := by
  have hrun : ∀ w, ∃ r, Program.run Accounts.exec w (validateSignUpForm body) [.ok, .ok] =
      some (r, w) := fun w => ⟨_, by rw [validateSignUpForm_eq h, run_checkDuplicates]⟩
  constructor
  · intro hall
    have hreports : ∀ w : Accounts, ∃ u e, denoted form.userName = some u ∧
        denoted form.email = some e ∧
        ((∃ a ∈ w.rows, a.userName = u) ↔ ∃ a ∈ w.rows, a.userName = form.userName) ∧
        ((∃ a ∈ w.rows, a.email = e) ↔ ∃ a ∈ w.rows, a.email = form.email) := by
      intro w
      obtain ⟨r, hr⟩ := hrun w
      exact (reportsDuplicates_iff h hr).1 (hall w r w hr)
    obtain ⟨u, e, hu, he, -⟩ := hreports .empty
    -- The pool with the account that the filters find.
    obtain ⟨_, _, hu', he', husername, hemail⟩ := hreports (Keyed.Table.empty.put ⟨u, e⟩)
    cases hu.symm.trans hu'
    cases he.symm.trans he'
    have hmem : ⟨u, e⟩ ∈ (Keyed.Table.empty.put (⟨u, e⟩ : Account) : Accounts).rows := by simp
    obtain ⟨a, ha, hua⟩ := husername.1 ⟨_, hmem, rfl⟩
    obtain ⟨b, hb, heb⟩ := hemail.1 ⟨_, hmem, rfl⟩
    obtain rfl : a = ⟨u, e⟩ := by simpa using ha
    obtain rfl : b = ⟨u, e⟩ := by simpa using hb
    exact ⟨denoted_eq_self.1 (hua ▸ hu), denoted_eq_self.1 (heb ▸ he)⟩
  · rintro ⟨husername, hemail⟩ w r w' hr
    exact (reportsDuplicates_iff h hr).2
      ⟨_, _, denoted_eq_self.2 husername, denoted_eq_self.2 hemail, Iff.rfl, Iff.rfl⟩

end

/-! A form with a quotation mark in its user name, and one without. -/

section

attribute [local instance] signUpEnvironment

/-- The form of somebody with the user name given. -/
def formFor (userName : String) : SignUpForm := ⟨userName, "Passw0rd!", "alice@example.com"⟩

/-- The pool with an account that has the user name, and another e-mail address. -/
def takenPool : Accounts := Keyed.Table.empty.put ⟨"alice", "alice@example.org"⟩

/-- The name is one of the pool, and is reported. -/
theorem duplicates_plain : ∃ r, Program.run Accounts.exec takenPool
    (validateSignUpForm (marshalForm (formFor "alice"))) [.ok, .ok] = some (r, takenPool) ∧
      ReportsDuplicates takenPool (formFor "alice") r := by
  have hrun : ∃ r, Program.run Accounts.exec takenPool
      (validateSignUpForm (marshalForm (formFor "alice"))) [.ok, .ok] = some (r, takenPool) :=
    ⟨_, by rw [validateSignUpForm_eq (SignUpEnvironment.unmarshal_marshalForm _),
      run_checkDuplicates]⟩
  obtain ⟨r, hrun⟩ := hrun
  exact ⟨r, hrun, (duplicates_iff (SignUpEnvironment.unmarshal_marshalForm _)).2
    (by decide +kernel) _ _ _ hrun⟩

/-- A quotation mark in the name ends the value in the filter. -/
theorem not_duplicates_quote : ¬ ∀ w r w', Program.run Accounts.exec w
    (validateSignUpForm (marshalForm (formFor "al\"ice"))) [.ok, .ok] = some (r, w') →
      ReportsDuplicates w (formFor "al\"ice") r := by
  intro h
  have hrun : Program.run Accounts.exec .empty
      (validateSignUpForm (marshalForm (formFor "al\"ice"))) [.ok, .ok] =
        some (.error (.err (.external "InvalidParameterException")), .empty) := by
    rw [validateSignUpForm_eq (SignUpEnvironment.unmarshal_marshalForm _), run_checkDuplicates]
    rfl
  obtain ⟨fieldErrs, herror, -⟩ := h _ _ _ hrun
  cases herror

end

end Knowtfolio.SignUp
