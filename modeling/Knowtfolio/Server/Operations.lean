import Knowtfolio.Errors
import Knowtfolio.Ethereum.Address
import Knowtfolio.Interaction.Program
import Knowtfolio.Server.Models

/-!
# Calls out of the server

What the functions of the server ask of the outside (`Op`): random values, the
address table in DynamoDB, the contract, S3 and MySQL. Every call is answered
by a value (`Op.Val`) or by an error, and a Go function is a program of such
calls (`Prog`), which ends with a value, an error or a panic.

A transaction of MySQL is the calls `begin`, `first`, `save` and `commit`; what
is saved is only written at the commit, which therefore carries it. A
transaction reads one snapshot, so `First` loads an article there with its
document by one call. Outside of a transaction, `Preload` is a query of its own
that comes after the one for the article (`preload`).
-/

namespace Knowtfolio

open Interaction

/-- An item of the address table: `value` for the key `(type, key)`. -/
structure Item where
  type : KeyValueType
  key : String
  value : String
  deriving DecidableEq

/-- An action of a transaction of DynamoDB: to put an item, on the condition
    that there is none of its key, or to delete one. -/
inductive TransactWriteItem
  | put (item : Item)
  | delete (type : KeyValueType) (key : String)
  deriving DecidableEq

/-- A transaction submitted to the chain. -/
structure MintTx where
  hash : Hash
  cost : ℕ
  deriving DecidableEq

/-- The columns that search results are sorted by. -/
inductive SortBy
  | createdAt
  | updatedAt
  deriving DecidableEq

/-- The conditions of a search: `articles.id IN ids OR is_tokenized = 0 AND
    original_author_id = user`, and `raw_text LIKE` each pattern. -/
structure Query where
  ownedBy : Option (List String × String)
  likes : List String
  deriving DecidableEq

/-- The calls. -/
inductive Op
  /-- `ethereum.GenerateNonce`. -/
  | generateNonce
  /-- `nanoid.GenerateString`, with its default alphabet. -/
  | generateString (size : ℕ)
  /-- `GetItem`, of the attribute `value`. -/
  | getItem (type : KeyValueType) (key : String)
  /-- `PutItem`, returning all old attributes. -/
  | putItem (item : Item)
  | transactWriteItems (items : List TransactWriteItem)
  | getOwnerOfArticle (articleId : String)
  | getArticleIdsOwnedBy (user : Address)
  | suggestGasPrice
  /-- The submission of a transaction calling `mintNFT`. -/
  | mintNFT (gasPrice : ℕ) (recipient : Address) (articleId : String)
  /-- `json.Marshal`. -/
  | marshal (metadata : NFTMetadata)
  /-- The upload of a JSON object to S3. -/
  | upload (key body : String)
  | begin
  /-- `First`, with the document or without it. -/
  | first (id : String) (preload : Bool)
  /-- The query of `Preload("Document")` for an article that has been loaded. -/
  | preload (ownerID : String)
  | create (article : Article)
  | save (article : Article)
  /-- The commit of what has been saved. -/
  | commit (article : Article)
  | delete (id : String)
  | find (query : Query) (offset limit : ℤ) (sortBy : SortBy)
  | count (query : Query)

/-- The value of a call that succeeds. An item that there is may lack the
    attribute asked for. -/
def Op.Val : Op → Type
  | generateNonce => Hash
  | generateString _ => String
  | getItem _ _ => Option (Option String)
  | putItem _ => Option String
  | getOwnerOfArticle _ => Address
  | getArticleIdsOwnedBy _ => List String
  | suggestGasPrice => ℕ
  | mintNFT _ _ _ => MintTx
  | marshal _ => String
  | first _ _ => Article
  | preload _ => Document
  | find _ _ _ _ => List Article
  | count _ => ℕ
  | transactWriteItems _ | upload _ _ | begin | create _ | save _ | commit _ | delete _ => Unit

/-- The calls, each answered by its value or an error. -/
abbrev calls : Signature := ⟨Op, fun o => Except Err o.Val⟩

/-- A Go function. -/
abbrev Prog := Program calls Fault

/-- The answers to the calls so far. -/
abbrev Log := calls.Log

/-- A call answered by a value. -/
abbrev answered (o : Op) (v : o.Val) : calls.Entry := ⟨o, .ok v⟩

/-- The value of a call, or its error. -/
def call (o : Op) : Prog o.Val :=
  Program.ask (S := calls) o fun r => Program.ofExcept (r.mapError .err)

/-- An error of the program replaced by another one; a panic goes on. -/
def mapErr {α : Type} (f : Err → Err) (p : Prog α) : Prog α :=
  Program.handle (fun e => .throw (e.mapErr f)) p

section

variable {α : Type} {q : Op → Prop}

/-- A call asks only what it asks. -/
theorem asksOnly_call {o : Op} (h : q o) : Program.AsksOnly (S := calls) q (call o) :=
  Program.asksOnly_ask.2 ⟨h, fun _ => Program.asksOnly_ofExcept⟩

/-- Another error makes no difference to what is asked. -/
theorem asksOnly_mapErr {f : Err → Err} {p : Prog α} (h : Program.AsksOnly (S := calls) q p) :
    Program.AsksOnly (S := calls) q (mapErr f p) :=
  h.handle fun _ => Program.asksOnly_throw

end

section

variable {α : Type} {P : Log → Op → Prop} {Q : Log → Except Fault α → Prop} {l : Log}

/-- The rule of calls: an error ends the program. -/
theorem wp_call_bind {o : Op} {f : o.Val → Prog α} :
    Program.wp P Q l (call o >>= f) ↔
      P l o ∧ (∀ e, Q (l ++ [⟨o, .error e⟩]) (.error (.err e))) ∧
        ∀ v, Program.wp P Q (l ++ [answered o v]) (f v) := by
  rw [call, Program.ask_bind, Program.wp_ask]
  refine and_congr Iff.rfl ⟨fun h => ⟨fun e => ?_, fun v => h (.ok v)⟩, fun h a => ?_⟩
  · simpa [Except.mapError] using h (.error e)
  · cases a with
    | error e => simpa [Except.mapError] using h.1 e
    | ok v => exact h.2 v

/-- The rule of a call at the end of a program. -/
theorem wp_call {o : Op} {Q : Log → Except Fault o.Val → Prop} :
    Program.wp P Q l (call o) ↔
      P l o ∧ (∀ e, Q (l ++ [⟨o, .error e⟩]) (.error (.err e))) ∧
        ∀ v, Q (l ++ [answered o v]) (.ok v) := by
  rw [call, Program.wp_ask]
  refine and_congr Iff.rfl ⟨fun h => ⟨fun e => ?_, fun v => ?_⟩, fun h a => ?_⟩
  · simpa [Except.mapError] using h (.error e)
  · simpa [Except.mapError] using h (.ok v)
  · cases a with
    | error e => simpa [Except.mapError] using h.1 e
    | ok v => simpa [Except.mapError] using h.2 v

/-- The rule of errors that are turned into others. -/
theorem wp_mapErr {f : Err → Err} {p : Prog α} :
    Program.wp P Q l (mapErr f p) ↔
      Program.wp P (fun l r => Q l (r.mapError (Fault.mapErr f))) l p := by
  rw [mapErr, Program.wp_handle]
  refine iff_of_eq (congrArg (fun Q' => Program.wp P Q' l p) (funext fun l => funext fun r => ?_))
  cases r with
  | ok a => rfl
  | error e => simp [Except.mapError]

end

/-! ## Runs -/

section

variable {W C α : Type} {exec : W → (o : Op) → C → Option (Except Err o.Val × W)} {w w' : W}

/-- A program that begins with a call goes on with its value, or ends with its error. -/
theorem runs_call_bind {o : Op} {f : o.Val → Prog α} {r : Except Fault α}
    (h : Program.Runs exec w (call o >>= f) r w') :
    ∃ ch a w₁, exec w o ch = some (a, w₁) ∧
      ((∃ v, a = .ok v ∧ Program.Runs exec w₁ (f v) r w') ∨
        ∃ e, a = .error e ∧ r = .error (.err e) ∧ w' = w₁) := by
  rw [call, Program.ask_bind] at h
  obtain ⟨ch, a, w₁, he, h⟩ := Program.runs_ask.1 h
  refine ⟨ch, a, w₁, he, ?_⟩
  cases a with
  | ok v => exact .inl ⟨v, rfl, h⟩
  | error e => exact .inr ⟨e, rfl, Program.runs_throw.1 h⟩

/-- A call ends with its answer. -/
theorem runs_call {o : Op} {r : Except Fault o.Val} (h : Program.Runs exec w (call o) r w') :
    ∃ ch a, exec w o ch = some (a, w') ∧ r = a.mapError .err := by
  obtain ⟨ch, a, w₁, he, h⟩ := Program.runs_ask.1 h
  refine ⟨ch, a, ?_⟩
  cases a with
  | ok v =>
    obtain ⟨rfl, rfl⟩ := Program.runs_ret.1 h
    exact ⟨he, rfl⟩
  | error e =>
    obtain ⟨rfl, rfl⟩ := Program.runs_throw.1 h
    exact ⟨he, rfl⟩

/-- A call that can be answered by a value can end with it. -/
theorem runs_call_of_exec {o : Op} {c : C} {v : o.Val} (h : exec w o c = some (.ok v, w')) :
    Program.Runs exec w (call o) (.ok v) w' :=
  .ask h .ret

/-- Another error makes no difference to a program that ends without one. -/
theorem runs_mapErr {f : Err → Err} {p : Prog α} {a : α} (h : Program.Runs exec w p (.ok a) w') :
    Program.Runs exec w (mapErr f p) (.ok a) w' :=
  Program.runs_handle.2 (.inl ⟨a, h, rfl⟩)

/-- A call that is answered by a value, whatever its error would become. -/
theorem runs_mapErr_call {f : Err → Err} {o : Op} {ch : C} {v : o.Val}
    (h : exec w o ch = some (.ok v, w')) : Program.Runs exec w (mapErr f (call o)) (.ok v) w' :=
  Program.runs_handle.2 (.inl ⟨v, .ask h .ret, rfl⟩)

/-- Replacing errors changes nothing of the world. -/
theorem runs_of_mapErr {f : Err → Err} {p : Prog α} {r : Except Fault α}
    (h : Program.Runs exec w (mapErr f p) r w') :
    ∃ r', Program.Runs exec w p r' w' ∧ r = r'.mapError (Fault.mapErr f) := by
  rcases Program.runs_handle.1 h with ⟨a, hp, rfl⟩ | ⟨e, w₁, hp, hf⟩
  · exact ⟨.ok a, hp, rfl⟩
  · obtain ⟨rfl, rfl⟩ := Program.runs_throw.1 hf
    exact ⟨.error e, hp, rfl⟩

end

end Knowtfolio
