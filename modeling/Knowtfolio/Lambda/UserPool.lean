import Knowtfolio.Data.Keyed
import Knowtfolio.Errors
import Knowtfolio.Interaction.Program

/-!
# The pool of users

The accounts of the user pool, and the calls of Cognito that the Lambda functions of a
sign-up make, or are followed by. Accounts are listed by a filter: an attribute, an
operator and a value in quotation marks, in which a quotation mark has a backslash
before it. A value that is not escaped, and has no such characters, is found as it is
(`parseFilter_plain`), and one with a quotation mark in front is refused
(`parseFilter_quote`).

Assumed is of Cognito that it lists the accounts that there are and match the filter,
that it refuses a filter that is none, and that it creates no two accounts with one user
name.
-/

namespace Knowtfolio.SignUp

open Interaction

/-- An account. -/
structure Account where
  userName : String
  email : String
  deriving DecidableEq

/-- An attribute that accounts can be listed by. -/
def Account.attribute (a : Account) (name : String) : Option String :=
  if name = "username" then some a.userName else if name = "email" then some a.email else none

/-! ## Filters -/

/-- The filter of `checkDuplicateValueForField`. -/
def userFilter (field value : String) : String := field ++ " = \"" ++ value ++ "\""

/-- A value up to its closing quotation mark, which is the end of the filter. -/
def readQuoted : List Char → Option (List Char)
  | [] => none
  | ['"'] => some []
  | '"' :: _ => none
  | '\\' :: '"' :: cs => (readQuoted cs).map ('"' :: ·)
  | c :: cs => (readQuoted cs).map (c :: ·)

/-- The attribute and the value of a filter for equality. -/
def parseFilter (filter : String) : Option (String × String) :=
  let name := filter.toList.takeWhile (· ≠ ' ')
  match filter.toList.dropWhile (· ≠ ' ') with
  | ' ' :: '=' :: ' ' :: '"' :: cs =>
    (readQuoted cs).map fun value => (String.ofList name, String.ofList value)
  | _ => none

/-- A text without quotation marks and backslashes. -/
def Plain (s : String) : Prop := ∀ c ∈ s.toList, c ≠ '"' ∧ c ≠ '\\'

/-- A value without quotation marks and backslashes is read as it is. -/
theorem readQuoted_plain {cs : List Char} (h : ∀ c ∈ cs, c ≠ '"' ∧ c ≠ '\\') :
    readQuoted (cs ++ ['"']) = some cs := by
  induction cs with
  | nil => rfl
  | cons c cs ih =>
    obtain ⟨hquote, hbackslash⟩ := h c List.mem_cons_self
    rw [List.cons_append, readQuoted.eq_def]
    split <;> simp_all

/-- What a filter asks for is the value as it is read up to a quotation mark. -/
theorem parseFilter_userFilter {field value : String}
    (hfield : field = "username" ∨ field = "email") :
    parseFilter (userFilter field value) =
      (readQuoted (value.toList ++ ['"'])).map fun v => (field, String.ofList v) := by
  have htext : (userFilter field value).toList =
      field.toList ++ ' ' :: '=' :: ' ' :: '"' :: (value.toList ++ ['"']) := by
    simp [userFilter]
  have hname : ∀ c ∈ field.toList, decide (c ≠ ' ') = true := by
    rcases hfield with rfl | rfl <;> exact List.all_eq_true.1 rfl
  rw [parseFilter, htext, List.takeWhile_append_of_pos hname, List.dropWhile_append_of_pos hname]
  simp

/-- A value without quotation marks and backslashes is looked for as it is. -/
theorem parseFilter_plain {field value : String} (hfield : field = "username" ∨ field = "email")
    (hvalue : Plain value) : parseFilter (userFilter field value) = some (field, value) := by
  rw [parseFilter_userFilter hfield, readQuoted_plain hvalue, Option.map_some, String.ofList_toList]

/-- A value with a quotation mark in front makes a filter that is none. -/
theorem parseFilter_quote {field value : String} (hfield : field = "username" ∨ field = "email") :
    parseFilter (userFilter field ("\"" ++ value)) = none := by
  rw [parseFilter_userFilter hfield, String.toList_append]
  cases h : value.toList <;> simp [readQuoted]

/-! ## Calls -/

/-- The calls of a sign-up. -/
inductive PoolOp
  /-- The invocation of another function. -/
  | invoke (functionName : String)
  | listUsers (filter : String)
  /-- The creation of the account, by Cognito. -/
  | createUser (account : Account)

/-- The value of a call that succeeds. -/
def PoolOp.Val : PoolOp → Type
  | listUsers _ => List Account
  | invoke _ | createUser _ => Unit

/-- The calls, each answered by its value or an error. -/
abbrev poolCalls : Signature := ⟨PoolOp, fun o => Except Err o.Val⟩

/-- A function of a sign-up. -/
abbrev PoolProg := Program poolCalls Fault

/-- A call answered by a value. -/
abbrev poolAnswered (o : PoolOp) (v : o.Val) : poolCalls.Entry := ⟨o, .ok v⟩

/-- The value of a call, or its error. -/
def poolCall (o : PoolOp) : PoolProg o.Val :=
  Program.ask (S := poolCalls) o fun r => Program.ofExcept (r.mapError .err)

/-- Whether a call is answered, or fails. -/
inductive PoolChoice
  | ok
  | fail (message : String)

/-- The accounts by their user names. -/
abbrev Accounts := Keyed.Table Account.userName

/-- A call on the pool. -/
def Accounts.exec (w : Accounts) (o : PoolOp) :
    PoolChoice → Option (Except Err o.Val × Accounts)
  | .fail message => some (.error (.external message), w)
  | .ok =>
    match o with
    | .invoke _ => some (.ok (), w)
    | .listUsers filter =>
      match parseFilter filter with
      | none => some (.error (.external "InvalidParameterException"), w)
      | some (name, value) => some (.ok (w.rows.filter fun a => a.attribute name = some value), w)
    | .createUser account =>
      if (w.get account.userName).isSome then
        some (.error (.external "UsernameExistsException"), w)
      else some (.ok (), w.put account)

/-! ## What a call does -/

namespace Accounts

variable {w w' : Accounts} {o : PoolOp} {ch : PoolChoice} {r : Except Err o.Val} {a : Account}

/-- `w'` are the accounts after the call, answered by a value, on `w`. -/
def Effect (w : Accounts) : (o : PoolOp) → o.Val → Accounts → Prop
  | .invoke _, _, w' => w' = w
  | .listUsers filter, users, w' => w' = w ∧ ∃ name value,
      parseFilter filter = some (name, value) ∧
      users = w.rows.filter fun a => a.attribute name = some value
  | .createUser a, _, w' => w.get a.userName = none ∧ w' = w.put a

/-- A call fails and changes nothing, or it is answered by a value. -/
theorem exec_cases (h : w.exec o ch = some (r, w')) :
    (∃ e, r = .error e ∧ w' = w) ∨ ∃ v, r = .ok v ∧ ch = .ok ∧ Effect w o v w' := by
  -- A call that fails changes nothing; of the others, each is looked at by itself.
  cases ch with
  | fail message =>
    cases h
    exact .inl ⟨_, rfl, rfl⟩
  | ok =>
    cases o with
    | invoke functionName =>
      cases h
      exact .inr ⟨(), rfl, rfl, rfl⟩
    | listUsers filter =>
      simp only [exec] at h
      split at h
      next =>
        cases h
        exact .inl ⟨_, rfl, rfl⟩
      next name value hfilter =>
        cases h
        exact .inr ⟨_, rfl, rfl, rfl, name, value, hfilter, rfl⟩
    | createUser a =>
      simp only [exec] at h
      split_ifs at h with hget
      · cases h
        exact .inl ⟨_, rfl, rfl⟩
      · cases h
        exact .inr ⟨(), rfl, rfl, Option.not_isSome_iff_eq_none.1 hget, rfl⟩

/-- The accounts after a call are those before, and the one that it creates. -/
theorem mem_of_effect {v : o.Val} (h : Effect w o v w') :
    a ∈ w'.rows ↔ a ∈ w.rows ∨ o = .createUser a := by
  cases o with
  | invoke functionName =>
    cases h
    simp
  | listUsers filter =>
    obtain ⟨rfl, -⟩ := h
    simp
  | createUser b =>
    obtain ⟨hnone, rfl⟩ := h
    rw [Keyed.Table.mem_put, PoolOp.createUser.injEq, eq_comm (a := b)]
    refine or_congr_left ⟨fun h => h.1, fun ha => ⟨ha, ?_⟩⟩
    exact Keyed.Table.get_eq_none.1 hnone a ha

/-- Nobody has an e-mail address of which no account was found. -/
theorem email_ne_of_effect {email : String} (hemail : Plain email)
    (h : Effect w (.listUsers (userFilter "email" email)) [] w') (ha : a ∈ w.rows) :
    a.email ≠ email := by
  obtain ⟨-, name, value, hfilter, husers⟩ := h
  rw [parseFilter_plain (.inr rfl) hemail] at hfilter
  cases hfilter
  rintro rfl
  have hmem : a ∈ w.rows.filter fun b => b.attribute "email" = some a.email := by
    simp [ha, Account.attribute]
  rw [← husers] at hmem
  exact List.not_mem_nil hmem

end Accounts

end Knowtfolio.SignUp
