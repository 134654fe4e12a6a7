import Mathlib.Data.List.Basic

/-!
# Interaction programs

A program that talks to the outside world is a tree: it returns, it fails, or
it asks an operation and goes on with whatever the operation answers
(`Program`). Which operations there are, and the type of the answer of each,
is a `Signature`. Nothing is said here of what the world answers: the same
program can be

* reasoned about under *every* answer, by weakest preconditions over the log
  of the operations asked so far and their answers (`Program.wp`);
* evaluated against fixed answers, when it only reads (`Program.eval`);
* run to its end on a world that every operation may change
  (`Program.Runs`);
* interleaved with others (`Interaction.Pool`).

The rules for `bind` (`wp_bind`, `eval_bind`, `runs_bind`) are those a proof
uses: a program is walked once, its callees being replaced by their own rules.
-/

namespace Interaction

/-- The operations a program may ask, and the type of the answer of each. -/
structure Signature where
  /-- The operations. -/
  Op : Type
  /-- The answers to an operation. -/
  Ans : Op → Type

/-- The operations of either signature. -/
abbrev Signature.sum (S T : Signature) : Signature := ⟨S.Op ⊕ T.Op, Sum.elim S.Ans T.Ans⟩

/-- An operation asked, with its answer. -/
abbrev Signature.Entry (S : Signature) := (o : S.Op) × S.Ans o

/-- The operations asked so far, the last one at the end. -/
abbrev Signature.Log (S : Signature) := List S.Entry

/-- A program asking operations of `S`, failing with an `ε` or returning an `α`. -/
inductive Program (S : Signature) (ε α : Type)
  | ret (a : α)
  | throw (e : ε)
  | ask (o : S.Op) (k : S.Ans o → Program S ε α)

namespace Program

variable {S : Signature} {ε α β : Type}

/-- Sequencing: a failure of the first program is the failure of both. -/
protected def bind : Program S ε α → (α → Program S ε β) → Program S ε β
  | ret a, f => f a
  | throw e, _ => throw e
  | ask o k, f => ask o fun a => (k a).bind f

instance : Monad (Program S ε) where
  pure := ret
  bind := Program.bind

/-- A failure of the program, replaced by what `f` does of it. -/
def handle (f : ε → Program S ε α) : Program S ε α → Program S ε α
  | ret a => ret a
  | throw e => f e
  | ask o k => ask o fun a => (k a).handle f

/-- A value, or a failure, already computed. -/
def ofExcept : Except ε α → Program S ε α
  | .ok a => ret a
  | .error e => throw e

@[simp] theorem pure_eq (a : α) : (pure a : Program S ε α) = ret a := rfl
@[simp] theorem ret_bind (a : α) (f : α → Program S ε β) : ret a >>= f = f a := rfl
@[simp] theorem throw_bind (e : ε) (f : α → Program S ε β) : throw e >>= f = throw e := rfl
@[simp] theorem ask_bind (o : S.Op) (k : S.Ans o → Program S ε α) (f : α → Program S ε β) :
    ask o k >>= f = ask o fun a => k a >>= f := rfl

/-- Sequencing is associative. -/
theorem bind_assoc {γ : Type} (p : Program S ε α) (f : α → Program S ε β)
    (g : β → Program S ε γ) : p >>= f >>= g = p >>= fun a => f a >>= g := by
  induction p with
  | ret a => rfl
  | throw e => rfl
  | ask o k ih => exact congrArg (ask o) (funext ih)

@[simp] theorem ofExcept_ok (a : α) : (ofExcept (.ok a) : Program S ε α) = ret a := rfl
@[simp] theorem ofExcept_error (e : ε) : (ofExcept (.error e) : Program S ε α) = throw e := rfl
@[simp] theorem handle_ret (f : ε → Program S ε α) (a : α) : handle f (ret a) = ret a := rfl
@[simp] theorem handle_throw (f : ε → Program S ε α) (e : ε) : handle f (throw e) = f e := rfl
@[simp] theorem handle_ask (f : ε → Program S ε α) (o : S.Op) (k : S.Ans o → Program S ε α) :
    handle f (ask o k) = ask o fun a => handle f (k a) := rfl

/-- A program that has ended asks nothing any more. -/
def Done : Program S ε α → Prop
  | ask _ _ => False
  | _ => True

instance : DecidablePred (Done : Program S ε α → Prop)
  | ret _ | throw _ => isTrue trivial
  | ask _ _ => isFalse id

/-- The program, where there are other operations besides its own. -/
def inl {T : Signature} : Program S ε α → Program (S.sum T) ε α
  | ret a => ret a
  | throw e => throw e
  | ask o k => ask (S := S.sum T) (.inl o) fun a => (k a).inl

/-! ## Weakest preconditions -/

/-- Whatever the answers are, every operation the program asks satisfies `P`,
    given the log before it, and its end satisfies `Q`, given the whole log.
    The program is entered with the log `l`. -/
def wp (P : S.Log → S.Op → Prop) (Q : S.Log → Except ε α → Prop) : S.Log → Program S ε α → Prop
  | l, ret a => Q l (.ok a)
  | l, throw e => Q l (.error e)
  | l, ask o k => P l o ∧ ∀ a, wp P Q (l ++ [⟨o, a⟩]) (k a)

section wp

variable {P P' : S.Log → S.Op → Prop} {Q Q' : S.Log → Except ε α → Prop} {l : S.Log}

/-- The rule of returning: the log is complete. -/
@[simp] theorem wp_ret {a : α} : wp P Q l (ret a) ↔ Q l (.ok a) := Iff.rfl

/-- The rule of throwing. -/
@[simp] theorem wp_throw {e : ε} : wp P Q l (throw e : Program S ε α) ↔ Q l (.error e) := Iff.rfl

/-- The rule of asking: the operation must be permitted, and whatever is answered must do. -/
@[simp] theorem wp_ask {o : S.Op} {k : S.Ans o → Program S ε α} :
    wp P Q l (ask o k) ↔ P l o ∧ ∀ a, wp P Q (l ++ [⟨o, a⟩]) (k a) := Iff.rfl

/-- The rule of consequence. -/
theorem wp_mono (hP : ∀ l o, P l o → P' l o) (hQ : ∀ l r, Q l r → Q' l r)
    {p : Program S ε α} (h : wp P Q l p) : wp P' Q' l p := by
  induction p generalizing l with
  | ret a => exact hQ _ _ h
  | throw e => exact hQ _ _ h
  | ask o k ih => exact ⟨hP _ _ h.1, fun a => ih a (h.2 a)⟩

/-- The rule of sequencing. -/
theorem wp_bind {Q : S.Log → Except ε β → Prop} {p : Program S ε α} {f : α → Program S ε β} :
    wp P Q l (p >>= f) ↔ wp P (fun l r => match r with
      | .ok a => wp P Q l (f a)
      | .error e => Q l (.error e)) l p := by
  induction p generalizing l with
  | ret a => exact Iff.rfl
  | throw e => exact Iff.rfl
  | ask o k ih => exact and_congr Iff.rfl (forall_congr' fun a => ih a)

/-- A program whose result is only wrapped. -/
theorem wp_bind_ret {Q : S.Log → Except ε α → Prop} {Q' : S.Log → Except ε β → Prop}
    {p : Program S ε α} {f : α → β} (hp : wp P Q l p) (hok : ∀ l a, Q l (.ok a) → Q' l (.ok (f a)))
    (herror : ∀ l e, Q l (.error e) → Q' l (.error e)) : wp P Q' l (p >>= fun a => ret (f a)) := by
  refine wp_bind.2 (wp_mono (fun _ _ h => h) ?_ hp)
  rintro l (e | a) h
  · exact herror l e h
  · exact hok l a h

/-- The rule of handlers. -/
theorem wp_handle {f : ε → Program S ε α} {p : Program S ε α} :
    wp P Q l (handle f p) ↔ wp P (fun l r => match r with
      | .ok a => Q l (.ok a)
      | .error e => wp P Q l (f e)) l p := by
  induction p generalizing l with
  | ret a => exact Iff.rfl
  | throw e => exact Iff.rfl
  | ask o k ih => exact and_congr Iff.rfl (forall_congr' fun a => ih a)

/-- The rule of results. -/
theorem wp_ofExcept {r : Except ε α} : wp P Q l (ofExcept r) ↔ Q l r := by
  cases r <;> exact Iff.rfl

/-- What holds of everything holds of the result. -/
theorem wp_trivial (hQ : ∀ l r, Q l r) (p : Program S ε α) : wp (fun _ _ => True) Q l p := by
  induction p generalizing l with
  | ret a => exact hQ _ _
  | throw e => exact hQ _ _
  | ask o k ih => exact ⟨trivial, fun a => ih a⟩

/-- The log only gets longer. -/
theorem wp_prefix {p : Program S ε α} (h : wp P Q l p) :
    wp P (fun l' r => l <+: l' ∧ Q l' r) l p := by
  induction p generalizing l with
  | ret a => exact ⟨List.prefix_refl l, h⟩
  | throw e => exact ⟨List.prefix_refl l, h⟩
  | ask o k ih =>
    exact ⟨h.1, fun a => wp_mono (fun _ _ h => h)
      (fun _ _ h => ⟨(List.prefix_append _ _).trans h.1, h.2⟩) (ih a (h.2 a))⟩

/-- The rule of conditionals. -/
theorem wp_ite {c : Prop} [Decidable c] {p p' : Program S ε α} :
    wp P Q l (if c then p else p') ↔ (c → wp P Q l p) ∧ (¬c → wp P Q l p') := by
  split
  next hc => simp [hc]
  next hc => simp [hc]

end wp

/-! ## Programs of some operations only -/

/-- Every operation that the program may ask satisfies `q`. -/
def AsksOnly (q : S.Op → Prop) : Program S ε α → Prop
  | ask o k => q o ∧ ∀ a, AsksOnly q (k a)
  | _ => True

section AsksOnly

variable {q : S.Op → Prop}

/-- Returning asks nothing. -/
@[simp] theorem asksOnly_ret {a : α} : AsksOnly q (ret a : Program S ε α) := trivial

/-- Nor does throwing. -/
@[simp] theorem asksOnly_throw {e : ε} : AsksOnly q (throw e : Program S ε α) := trivial

@[simp] theorem asksOnly_ask {o : S.Op} {k : S.Ans o → Program S ε α} :
    AsksOnly q (ask o k) ↔ q o ∧ ∀ a, AsksOnly q (k a) := Iff.rfl

/-- The parts of a program ask only what it may. -/
theorem AsksOnly.bind {p : Program S ε α} {f : α → Program S ε β} (hp : AsksOnly q p)
    (hf : ∀ a, AsksOnly q (f a)) : AsksOnly q (p >>= f) := by
  induction p with
  | ret a => exact hf a
  | throw e => trivial
  | ask o k ih => exact ⟨hp.1, fun a => ih a (hp.2 a)⟩

/-- So do the handlers of its errors. -/
theorem AsksOnly.handle {f : ε → Program S ε α} {p : Program S ε α} (hp : AsksOnly q p)
    (hf : ∀ e, AsksOnly q (f e)) : AsksOnly q (handle f p) := by
  induction p with
  | ret a => trivial
  | throw e => exact hf e
  | ask o k ih => exact ⟨hp.1, fun a => ih a (hp.2 a)⟩

/-- A program that asks less asks what it may. -/
theorem AsksOnly.mono {q' : S.Op → Prop} (h : ∀ o, q o → q' o) {p : Program S ε α}
    (hp : AsksOnly q p) : AsksOnly q' p := by
  induction p with
  | ret a => trivial
  | throw e => trivial
  | ask o k ih => exact ⟨h o hp.1, fun a => ih a (hp.2 a)⟩

/-- A result asks nothing. -/
@[simp] theorem asksOnly_ofExcept {r : Except ε α} : AsksOnly q (ofExcept r) := by
  cases r <;> trivial

/-- Either part may ask, each under its condition. -/
theorem AsksOnly.ite {c : Prop} [Decidable c] {p p' : Program S ε α} (h : c → AsksOnly q p)
    (h' : ¬c → AsksOnly q p') : AsksOnly q (if c then p else p') := by
  split
  next hc => exact h hc
  next hc => exact h' hc

/-- The rule of such programs: all that is known of the log after them is that
    it has got longer by operations of the kind. -/
theorem AsksOnly.wp {P : S.Log → S.Op → Prop} {Q : S.Log → Except ε α → Prop} {l : S.Log}
    {p : Program S ε α} (hp : AsksOnly q p) (hP : ∀ l' o, q o → P l' o)
    (hQ : ∀ l' r, (∀ e ∈ l', q e.1) → Q (l ++ l') r) : wp P Q l p := by
  induction p generalizing l with
  | ret a => simpa using hQ [] (.ok a) (by simp)
  | throw e => simpa using hQ [] (.error e) (by simp)
  | ask o k ih =>
    refine ⟨hP _ _ hp.1, fun a => ih a (hp.2 a) fun l' r hl' => ?_⟩
    rw [List.append_assoc]
    refine hQ _ r fun e he => ?_
    rcases List.mem_cons.1 he with rfl | he
    · exact hp.1
    · exact hl' e he

end AsksOnly

/-! ## Evaluation against fixed answers -/

/-- The result of the program when every operation `o` is answered `h o`. -/
def eval (h : ∀ o, S.Ans o) : Program S ε α → Except ε α
  | ret a => .ok a
  | throw e => .error e
  | ask o k => (k (h o)).eval h

section eval

variable (h : ∀ o, S.Ans o)

@[simp] theorem ok_bind (a : α) (f : α → Except ε β) : (Except.ok a >>= f) = f a := rfl
@[simp] theorem error_bind (e : ε) (f : α → Except ε β) :
    ((Except.error e : Except ε α) >>= f) = .error e := rfl

/-- A value that is there is the value of the result. -/
theorem eq_ok_of_toOption {r : Except ε α} {a : α} (h : r.toOption = some a) : r = .ok a := by
  cases r with
  | error e => cases h
  | ok a' =>
    cases h
    rfl

@[simp] theorem eval_ret (a : α) : eval h (ret a : Program S ε α) = .ok a := rfl
@[simp] theorem eval_throw (e : ε) : eval h (throw e : Program S ε α) = .error e := rfl
@[simp] theorem eval_ask (o : S.Op) (k : S.Ans o → Program S ε α) :
    eval h (ask o k) = eval h (k (h o)) := rfl

/-- A program is evaluated part by part. -/
@[simp] theorem eval_bind (p : Program S ε α) (f : α → Program S ε β) :
    eval h (p >>= f) = eval h p >>= fun a => eval h (f a) := by
  induction p with
  | ret a => rfl
  | throw e => rfl
  | ask o k ih => exact ih (h o)

/-- Only errors are handled. -/
@[simp] theorem eval_handle (f : ε → Program S ε α) (p : Program S ε α) :
    eval h (handle f p) = match eval h p with
      | .ok a => .ok a
      | .error e => eval h (f e) := by
  induction p with
  | ret a => rfl
  | throw e => rfl
  | ask o k ih => exact ih (h o)

@[simp] theorem eval_ofExcept (r : Except ε α) : eval h (ofExcept r : Program S ε α) = r := by
  cases r <;> rfl

end eval

-- From here on programs are walked by the rules only, and never unfolded.
attribute [irreducible] AsksOnly wp

/-! ## Runs on a world -/

/-- `p`, run alone from the world `w`, ends with the result `r` in the world
    `w'`. An operation is executed by `exec`, which resolves what is open in
    its answer by a choice. -/
inductive Runs {W C : Type} (exec : W → (o : S.Op) → C → Option (S.Ans o × W)) :
    W → Program S ε α → Except ε α → W → Prop
  | ret {w : W} {a : α} : Runs exec w (ret a) (.ok a) w
  | throw {w : W} {e : ε} : Runs exec w (throw e) (.error e) w
  | ask {w w' w'' : W} {o : S.Op} {c : C} {a : S.Ans o} {k : S.Ans o → Program S ε α}
      {r : Except ε α} : exec w o c = some (a, w') → Runs exec w' (k a) r w'' →
      Runs exec w (ask o k) r w''

section runs

variable {W C : Type} {exec : W → (o : S.Op) → C → Option (S.Ans o × W)} {w w' : W}

/-- A program that returns leaves the world as it is. -/
@[simp] theorem runs_ret {a : α} {r : Except ε α} :
    Runs exec w (ret a) r w' ↔ r = .ok a ∧ w' = w :=
  ⟨fun h => by cases h; exact ⟨rfl, rfl⟩, fun ⟨hr, hw⟩ => hr ▸ hw ▸ .ret⟩

/-- So does one that throws. -/
@[simp] theorem runs_throw {e : ε} {r : Except ε α} :
    Runs exec w (throw e) r w' ↔ r = .error e ∧ w' = w :=
  ⟨fun h => by cases h; exact ⟨rfl, rfl⟩, fun ⟨hr, hw⟩ => hr ▸ hw ▸ .throw⟩

/-- So does a result. -/
@[simp] theorem runs_ofExcept {r r' : Except ε α} :
    Runs exec w (ofExcept r') r w' ↔ r = r' ∧ w' = w := by
  cases r' with
  | ok a => exact runs_ret
  | error e => exact runs_throw

/-- A run asks its first operation first. -/
theorem runs_ask {o : S.Op} {k : S.Ans o → Program S ε α} {r : Except ε α} :
    Runs exec w (ask o k) r w' ↔
      ∃ c a w₁, exec w o c = some (a, w₁) ∧ Runs exec w₁ (k a) r w' :=
  ⟨fun h => by cases h with | ask he hk => exact ⟨_, _, _, he, hk⟩,
    fun ⟨_, _, _, he, hk⟩ => .ask he hk⟩

/-- The rule of sequencing. -/
theorem runs_bind {p : Program S ε α} {f : α → Program S ε β} {r : Except ε β} :
    Runs exec w (p >>= f) r w' ↔
      (∃ a w₁, Runs exec w p (.ok a) w₁ ∧ Runs exec w₁ (f a) r w') ∨
        (∃ e, Runs exec w p (.error e) w' ∧ r = .error e) := by
  induction p generalizing w with
  | ret a => simp
  | throw e => simp [and_comm]
  | ask o k ih =>
    rw [ask_bind, runs_ask]
    constructor
    · rintro ⟨c, a, w₁, he, hk⟩
      rcases (ih a).1 hk with ⟨b, w₂, hp, hf⟩ | ⟨e, hp, hr⟩
      · exact .inl ⟨b, w₂, .ask he hp, hf⟩
      · exact .inr ⟨e, .ask he hp, hr⟩
    · rintro (⟨b, w₂, hp, hf⟩ | ⟨e, hp, hr⟩)
      · obtain ⟨c, a, w₁, he, hk⟩ := runs_ask.1 hp
        exact ⟨c, a, w₁, he, (ih a).2 (.inl ⟨b, w₂, hk, hf⟩)⟩
      · obtain ⟨c, a, w₁, he, hk⟩ := runs_ask.1 hp
        exact ⟨c, a, w₁, he, (ih a).2 (.inr ⟨e, hk, hr⟩)⟩

/-- A run of the first part goes on with one of the second. -/
theorem Runs.bind {p : Program S ε α} {f : α → Program S ε β} {a : α} {w₁ : W} {r : Except ε β}
    (hp : Runs exec w p (.ok a) w₁) (hf : Runs exec w₁ (f a) r w') : Runs exec w (p >>= f) r w' :=
  runs_bind.2 (.inl ⟨a, w₁, hp, hf⟩)

/-- The rule of handlers. -/
theorem runs_handle {f : ε → Program S ε α} {p : Program S ε α} {r : Except ε α} :
    Runs exec w (handle f p) r w' ↔
      (∃ a, Runs exec w p (.ok a) w' ∧ r = .ok a) ∨
        ∃ e w₁, Runs exec w p (.error e) w₁ ∧ Runs exec w₁ (f e) r w' := by
  induction p generalizing w with
  | ret a => simp [and_comm]
  | throw e => simp
  | ask o k ih =>
    rw [handle_ask, runs_ask]
    constructor
    · rintro ⟨c, a, w₁, he, hk⟩
      rcases (ih a).1 hk with ⟨b, hp, hr⟩ | ⟨e, w₂, hp, hf⟩
      · exact .inl ⟨b, .ask he hp, hr⟩
      · exact .inr ⟨e, w₂, .ask he hp, hf⟩
    · rintro (⟨b, hp, hr⟩ | ⟨e, w₂, hp, hf⟩)
      · obtain ⟨c, a, w₁, he, hk⟩ := runs_ask.1 hp
        exact ⟨c, a, w₁, he, (ih a).2 (.inl ⟨b, hk, hr⟩)⟩
      · obtain ⟨c, a, w₁, he, hk⟩ := runs_ask.1 hp
        exact ⟨c, a, w₁, he, (ih a).2 (.inr ⟨e, w₂, hk, hf⟩)⟩

/-- A run is one on every world that may answer the same. -/
theorem Runs.mono {C' : Type} {exec' : W → (o : S.Op) → C' → Option (S.Ans o × W)}
    (h : ∀ {w o c a w₁}, exec w o c = some (a, w₁) → ∃ c', exec' w o c' = some (a, w₁))
    {p : Program S ε α} {r : Except ε α} (hr : Runs exec w p r w') : Runs exec' w p r w' := by
  induction hr with
  | ret => exact .ret
  | throw => exact .throw
  | ask he _ ih =>
    obtain ⟨c', he'⟩ := h he
    exact .ask he' ih

/-- A program of operations that only read, and are answered as `h` says, changes
    nothing, and its result is that of its evaluation. -/
theorem Runs.eval {q : S.Op → Prop} {h : ∀ o, S.Ans o}
    (hread : ∀ {o c a w₁}, q o → exec w o c = some (a, w₁) → a = h o ∧ w₁ = w)
    {p : Program S ε α} {r : Except ε α} (hp : AsksOnly q p) (hr : Runs exec w p r w') :
    r = p.eval h ∧ w' = w := by
  induction p with
  | ret a => simpa using hr
  | throw e => simpa using hr
  | ask o k ih =>
    rw [asksOnly_ask] at hp
    obtain ⟨c, a, w₁, he, hk⟩ := runs_ask.1 hr
    obtain ⟨rfl, rfl⟩ := hread hp.1 he
    exact ih _ (hp.2 _) hk

/-- The run of a program with the choices given. -/
def run (exec : W → (o : S.Op) → C → Option (S.Ans o × W)) :
    W → Program S ε α → List C → Option (Except ε α × W)
  | w, ret a, _ => some (.ok a, w)
  | w, throw e, _ => some (.error e, w)
  | _, ask _ _, [] => none
  | w, ask o k, c :: cs => (exec w o c).bind fun aw => run exec aw.2 (k aw.1) cs

/-- The run of a program with the choices given, and the choices that it leaves. -/
def runLeaving (exec : W → (o : S.Op) → C → Option (S.Ans o × W)) :
    W → Program S ε α → List C → Option ((Except ε α × W) × List C)
  | w, ret a, cs => some ((.ok a, w), cs)
  | w, throw e, cs => some ((.error e, w), cs)
  | _, ask _ _, [] => none
  | w, ask o k, c :: cs => (exec w o c).bind fun aw => runLeaving exec aw.2 (k aw.1) cs

/-- Returning uses up no choice. -/
@[simp] theorem runLeaving_ret {a : α} {cs : List C} :
    runLeaving exec w (ret a : Program S ε α) cs = some ((.ok a, w), cs) := by
  cases cs <;> rfl

/-- Nor does throwing. -/
@[simp] theorem runLeaving_throw {e : ε} {cs : List C} :
    runLeaving exec w (throw e : Program S ε α) cs = some ((.error e, w), cs) := by
  cases cs <;> rfl

/-- The second part takes the choices that the first one leaves. -/
theorem runLeaving_bind {p : Program S ε α} {f : α → Program S ε β} {cs : List C} :
    runLeaving exec w (p >>= f) cs = (runLeaving exec w p cs).bind fun rest =>
      match rest.1.1 with
      | .ok a => runLeaving exec rest.1.2 (f a) rest.2
      | .error e => some ((.error e, rest.1.2), rest.2) := by
  induction p generalizing w cs with
  | ret a => simp
  | throw e => simp
  | ask o k ih =>
    cases cs with
    | nil => rfl
    | cons c cs =>
      show (exec w o c).bind _ = ((exec w o c).bind _).bind _
      rw [Option.bind_assoc]
      exact congrArg ((exec w o c).bind) (funext fun aw => ih aw.1)

/-- So does a handler. -/
theorem runLeaving_handle {f : ε → Program S ε α} {p : Program S ε α} {cs : List C} :
    runLeaving exec w (handle f p) cs = (runLeaving exec w p cs).bind fun rest =>
      match rest.1.1 with
      | .ok a => some ((.ok a, rest.1.2), rest.2)
      | .error e => runLeaving exec rest.1.2 (f e) rest.2 := by
  induction p generalizing w cs with
  | ret a => simp
  | throw e => simp
  | ask o k ih =>
    cases cs with
    | nil => rfl
    | cons c cs =>
      show (exec w o c).bind _ = ((exec w o c).bind _).bind _
      rw [Option.bind_assoc]
      exact congrArg ((exec w o c).bind) (funext fun aw => ih aw.1)

/-- A result uses up no choice. -/
theorem runLeaving_ofExcept {r : Except ε α} {cs : List C} :
    runLeaving exec w (ofExcept r) cs = some ((r, w), cs) := by
  cases r <;> cases cs <;> rfl

/-- A run is one that forgets the choices that are left. -/
theorem run_eq {p : Program S ε α} {cs : List C} :
    run exec w p cs = (runLeaving exec w p cs).map Prod.fst := by
  induction p generalizing w cs with
  | ret a => cases cs <;> rfl
  | throw e => cases cs <;> rfl
  | ask o k ih =>
    cases cs with
    | nil => rfl
    | cons c cs =>
      show (exec w o c).bind _ = ((exec w o c).bind _).map _
      rw [Option.map_bind]
      exact congrArg ((exec w o c).bind) (funext fun aw => ih aw.1)

/-- The second program is run with the choices that the first one leaves. -/
theorem run_bind {p : Program S ε α} {f : α → Program S ε β} {cs : List C} :
    run exec w (p >>= f) cs = (runLeaving exec w p cs).bind fun rest =>
      match rest.1.1 with
      | .ok a => run exec rest.1.2 (f a) rest.2
      | .error e => some (.error e, rest.1.2) := by
  rw [run_eq, runLeaving_bind, Option.map_bind]
  refine congrArg ((runLeaving exec w p cs).bind) (funext fun rest => ?_)
  obtain ⟨⟨r, w'⟩, cs'⟩ := rest
  cases r with
  | ok a => exact run_eq.symm
  | error e => rfl

/-- A result runs without any choice. -/
theorem run_ofExcept {r : Except ε α} {cs : List C} :
    run exec w (ofExcept r) cs = some (r, w) := by
  cases r <;> cases cs <;> rfl

/-- A run that is computed is a run. -/
theorem Runs.of_run {p : Program S ε α} {cs : List C} {r : Except ε α}
    (h : run exec w p cs = some (r, w')) : Runs exec w p r w' := by
  induction p generalizing w cs with
  | ret a => cases h; exact .ret
  | throw e => cases h; exact .throw
  | ask o k ih =>
    cases cs with
    | nil => cases h
    | cons c cs =>
      obtain ⟨⟨a, w₁⟩, he, hk⟩ := Option.bind_eq_some_iff.1 h
      exact .ask he (ih a hk)

end runs

/-! ## Results -/

/-- The result of a program that has ended. -/
def outcome : Program S ε α → Option (Except ε α)
  | ret a => some (.ok a)
  | throw e => some (.error e)
  | ask _ _ => none

@[simp] theorem outcome_ret (a : α) : (ret a : Program S ε α).outcome = some (.ok a) := rfl
@[simp] theorem outcome_throw (e : ε) : (throw e : Program S ε α).outcome = some (.error e) := rfl
@[simp] theorem outcome_ask (o : S.Op) (k : S.Ans o → Program S ε α) :
    (ask o k).outcome = none := rfl

/-- What is done has a result. -/
theorem Done.exists_outcome {p : Program S ε α} (h : p.Done) : ∃ r, p.outcome = some r := by
  cases p with
  | ret a => exact ⟨_, rfl⟩
  | throw e => exact ⟨_, rfl⟩
  | ask o k => exact h.elim

/-- What has a result is done. -/
theorem done_of_outcome {p : Program S ε α} {r : Except ε α} (h : p.outcome = some r) : p.Done := by
  cases p with
  | ask o k => cases h
  | _ => trivial

/-- A program that has no outcome is not done. -/
theorem not_done_of_outcome {p : Program S ε α} (h : p.outcome = none) : ¬ p.Done := fun hdone => by
  obtain ⟨r, hr⟩ := hdone.exists_outcome
  cases h.symm.trans hr

/-- What is done runs without asking anything. -/
theorem runs_of_outcome {W C : Type} {exec : W → (o : S.Op) → C → Option (S.Ans o × W)} {w : W}
    {p : Program S ε α} {r : Except ε α} (h : p.outcome = some r) : Runs exec w p r w := by
  cases p with
  | ret a =>
    cases h
    exact .ret
  | throw e =>
    cases h
    exact .throw
  | ask o k => cases h

/-- The result of what is done is as the postcondition says. -/
theorem wp_of_outcome {P : S.Log → S.Op → Prop} {Q : S.Log → Except ε α → Prop} {l : S.Log}
    {p : Program S ε α} {r : Except ε α} (hwp : p.wp P Q l) (h : p.outcome = some r) : Q l r := by
  cases p with
  | ret a =>
    cases h
    exact wp_ret.1 hwp
  | throw e =>
    cases h
    exact wp_throw.1 hwp
  | ask o k => cases h

end Program

end Interaction
