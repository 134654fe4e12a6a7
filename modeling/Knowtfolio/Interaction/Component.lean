import Knowtfolio.Interaction.Program
import Knowtfolio.Interaction.Trace

/-!
# Components with calls under way

A `Component` has a state, which *events* change, and from which they may start a *call*: a
program, whose operations are answered some time later. When a call ends, the state learns
its result. An event is handled to its end before anything else happens, and so is what a
call does between two answers; but any number of calls may be under way, and they are
answered in any order.

* A configuration (`Component.Config`) is the state, the calls that were started, and the
  results, in the order in which the calls have ended.
* Proofs about runs go by `Reaches.induction`. Calls and results belong together
  (`Reaches.books`), whatever the state does with them.
* If every change of what a state is about starts a call for it, the last call is for the
  state as it is (`Reaches.calls_getLast?`). If results overwrite what they set, it is the
  last of them that remains (`Reaches.view_eq`). That these are not of one call is what
  goes wrong when calls overlap.
-/

namespace Interaction

/-- What handles events, and has calls under way. -/
structure Component (S : Signature) (ε : Type) where
  /-- What events change, and results. -/
  State : Type
  /-- What happens to the component. -/
  Event : Type
  /-- What is called for. -/
  Call : Type
  /-- What a call returns. -/
  Result : Type
  /-- What is open in an answer. -/
  Choice : Type
  /-- The state after an event, if it is possible, and the call that is started. -/
  handle : State → Event → Option (State × Option Call)
  /-- The program of a call. -/
  program : Call → Program S ε Result
  /-- The state after the end of a call. -/
  finish : State → Call → Except ε Result → State
  /-- The answer of an operation, given a choice; `none` if there is no such answer. -/
  answer : (o : S.Op) → Choice → Option (S.Ans o)

namespace Component

variable {S : Signature} {ε : Type} (C : Component S ε)

/-- A call that was started, with what is left of its program. -/
structure Task where
  call : C.Call
  rest : Program S ε C.Result

/-- The end of a call. -/
structure End where
  number : ℕ
  call : C.Call
  result : Except ε C.Result

/-- The state, the calls, and the ends. Calls are numbered in the order of their starts, and
    stay when they have ended. -/
structure Config where
  state : C.State
  tasks : List C.Task
  ended : List C.End

/-- What may happen next: an event, or an answer to the call `i`. -/
inductive Move
  | event (e : C.Event)
  | resume (i : ℕ) (ch : C.Choice)

/-- The answers, as those of a world that never changes. -/
def exec (_ : Unit) (o : S.Op) (ch : C.Choice) : Option (S.Ans o × Unit) :=
  (C.answer o ch).map fun a => (a, ())

variable {C}

namespace Config

/-- The call `i` goes on with `p`. If this has ended, the state learns the result. -/
def settle (c : C.Config) (i : ℕ) (call : C.Call) (p : Program S ε C.Result) : C.Config :=
  match p.outcome with
  | some r => ⟨C.finish c.state call r, c.tasks, c.ended ++ [⟨i, call, r⟩]⟩
  | none => c

/-- A call is started, and goes on to its first operation. -/
def start (c : C.Config) (call : C.Call) : C.Config :=
  settle ⟨c.state, c.tasks ++ [⟨call, C.program call⟩], c.ended⟩ c.tasks.length call
    (C.program call)

/-- An event was handled, after which the state is `s`. -/
def handled (c : C.Config) (s : C.State) : Option C.Call → C.Config
  | none => ⟨s, c.tasks, c.ended⟩
  | some call => start ⟨s, c.tasks, c.ended⟩ call

/-- The call `i` was answered, and goes on with `p` to its next operation. -/
def resume (c : C.Config) (i : ℕ) (call : C.Call) (p : Program S ε C.Result) : C.Config :=
  settle ⟨c.state, c.tasks.set i ⟨call, p⟩, c.ended⟩ i call p

/-- The configuration after a move, if the move is possible. -/
def next (c : C.Config) : C.Move → Option C.Config
  | .event e => (C.handle c.state e).map fun sc => c.handled sc.1 sc.2
  | .resume i ch =>
    match c.tasks[i]? with
    | some ⟨call, .ask o k⟩ => (C.answer o ch).map fun a => c.resume i call (k a)
    | _ => none

/-- The component as it starts, with its first call. -/
def mount (s : C.State) (call : C.Call) : C.Config := start ⟨s, [], []⟩ call

/-- No call is under way. -/
def Quiet (c : C.Config) : Prop := ∀ t ∈ c.tasks, t.rest.Done

instance (c : C.Config) : Decidable c.Quiet :=
  inferInstanceAs (Decidable (∀ t ∈ c.tasks, t.rest.Done))

/-- The calls, in the order of their starts. -/
def calls (c : C.Config) : List C.Call := c.tasks.map Task.call

section

variable {c : C.Config} {i : ℕ} {call : C.Call} {p : Program S ε C.Result}

/-- A call that has ended is finished. -/
theorem settle_of_outcome {r : Except ε C.Result} (h : p.outcome = some r) :
    c.settle i call p = ⟨C.finish c.state call r, c.tasks, c.ended ++ [⟨i, call, r⟩]⟩ := by
  rw [settle, h]

/-- A call that goes on is left as it is. -/
theorem settle_of_none (h : p.outcome = none) : c.settle i call p = c := by
  rw [settle, h]

@[simp] theorem tasks_settle : (c.settle i call p).tasks = c.tasks := by
  cases h : p.outcome with
  | none => rw [settle_of_none h]
  | some r => rw [settle_of_outcome h]

/-- What no result changes is as it was. -/
theorem view_settle {α : Type} (view : C.State → α)
    (h : ∀ s call r, view (C.finish s call r) = view s) :
    view (c.settle i call p).state = view c.state := by
  cases hp : p.outcome with
  | none => rw [settle_of_none hp]
  | some r =>
    rw [settle_of_outcome hp]
    exact h c.state call r

/-- A call that is started is recorded. -/
theorem calls_start : (c.start call).calls = c.calls ++ [call] := by
  simp [calls, start]

/-- A call that goes on stays the call that it is. -/
theorem calls_resume {rest : Program S ε C.Result} (h : c.tasks[i]? = some ⟨call, rest⟩) :
    (c.resume i call p).calls = c.calls := by
  rw [calls, resume, tasks_settle, List.map_set]
  refine List.ext_getElem? fun j => ?_
  rw [List.getElem?_set]
  split
  next hij =>
    subst hij
    have hi : i < (c.tasks.map Task.call).length := by
      rw [List.length_map]
      exact (List.getElem?_eq_some_iff.1 h).1
    rw [if_pos hi, calls, List.getElem?_map, h]
    rfl
  next => rfl

/-- An event is handled at once, and may start a call. -/
theorem next_event {c' : C.Config} {e : C.Event} (h : c.next (.event e) = some c') :
    ∃ s call, C.handle c.state e = some (s, call) ∧ c' = c.handled s call := by
  obtain ⟨⟨s, call⟩, hs, rfl⟩ := Option.map_eq_some_iff.1 h
  exact ⟨s, call, hs, rfl⟩

/-- An answer goes to the call that waits for it. -/
theorem next_resume {c' : C.Config} {ch : C.Choice} (h : c.next (.resume i ch) = some c') :
    ∃ call o k a, c.tasks[i]? = some ⟨call, .ask o k⟩ ∧ C.answer o ch = some a ∧
      c' = c.resume i call (k a) := by
  simp only [next] at h
  split at h
  next call o k ht =>
    obtain ⟨a, ha, rfl⟩ := Option.map_eq_some_iff.1 h
    exact ⟨call, o, k, a, ht, ha, rfl⟩
  next => cases h

end

end Config

/-! ## Runs -/

/-- The configurations that a run from `c₀` gets to by moves that `ok` allows. -/
abbrev Reaches (ok : C.Config → C.Move → Prop) (c₀ : C.Config) : C.Config → Prop :=
  Trace.Reaches Config.next ok c₀

/-- Calls are answered, and nothing else happens. -/
def OnlyAnswers (_ : C.Config) : C.Move → Prop
  | .event _ => False
  | .resume _ _ => True

namespace Reaches

variable {ok : C.Config → C.Move → Prop} {c₀ c : C.Config}

/-- Proofs about runs: what holds at the start, and is kept by an event and by an answer,
    holds in the end. -/
theorem induction (I : C.Config → Prop) (h : Reaches ok c₀ c) (init : I c₀)
    (event : ∀ c e s call, Reaches ok c₀ c → I c → ok c (.event e) →
      C.handle c.state e = some (s, call) → I (c.handled s call))
    (resume : ∀ c i ch call o k a, Reaches ok c₀ c → I c → ok c (.resume i ch) →
      c.tasks[i]? = some ⟨call, .ask o k⟩ → C.answer o ch = some a →
      I (c.resume i call (k a))) : I c := by
  refine Trace.Reaches.invariant I h init fun c m c' hr ih hm hn => ?_
  cases m with
  | event e =>
    obtain ⟨s, call, hs, rfl⟩ := Config.next_event hn
    exact event _ _ _ _ hr ih hm hs
  | resume i ch =>
    obtain ⟨call, o, k, a, ht, ha, rfl⟩ := Config.next_resume hn
    exact resume _ _ _ _ _ _ _ hr ih hm ht ha

end Reaches

/-! ## The books -/

/-- The ends are those of the calls that have ended. -/
structure Books (c : C.Config) : Prop where
  task_of_end : ∀ e ∈ c.ended, ∃ rest : Program S ε C.Result,
    c.tasks[e.number]? = some ⟨e.call, rest⟩ ∧ rest.outcome = some e.result
  end_of_task : ∀ (i : ℕ) (call : C.Call) (rest : Program S ε C.Result) (r : Except ε C.Result),
    c.tasks[i]? = some ⟨call, rest⟩ → rest.outcome = some r → ⟨i, call, r⟩ ∈ c.ended

namespace Books

variable {c : C.Config} {i : ℕ} {call : C.Call} {p : Program S ε C.Result}

/-- Nothing has been started, and nothing has ended. -/
theorem nil {s : C.State} : Books (C := C) ⟨s, [], []⟩ where
  task_of_end _ he := absurd he List.not_mem_nil
  end_of_task _ _ _ _ ht _ := by simp at ht

/-- Only calls and ends are in the books. -/
theorem of_state (h : Books c) (s : C.State) : Books (C := C) ⟨s, c.tasks, c.ended⟩ :=
  ⟨h.task_of_end, h.end_of_task⟩

/-- A call that has not ended goes on, while the others stay. -/
theorem settle {s : C.State} {tasks : List C.Task} (h : Books c)
    (hother : ∀ j, j ≠ i → tasks[j]? = c.tasks[j]?) (hself : tasks[i]? = some ⟨call, p⟩)
    (hend : ∀ e ∈ c.ended, e.number ≠ i) :
    Books (Config.settle (C := C) ⟨s, tasks, c.ended⟩ i call p) := by
  have hold : ∀ e ∈ c.ended, ∃ rest : Program S ε C.Result,
      tasks[e.number]? = some ⟨e.call, rest⟩ ∧ rest.outcome = some e.result := by
    intro e he
    rw [hother _ (hend e he)]
    exact h.task_of_end e he
  have hmoved : ∀ (j : ℕ) (call' : C.Call) (rest : Program S ε C.Result),
      tasks[j]? = some ⟨call', rest⟩ →
        (j = i ∧ call' = call ∧ rest = p) ∨ c.tasks[j]? = some ⟨call', rest⟩ := by
    intro j call' rest ht
    by_cases hij : j = i
    · subst hij
      cases hself.symm.trans ht
      exact .inl ⟨rfl, rfl, rfl⟩
    · exact .inr (hother j hij ▸ ht)
  -- A call that goes on has not ended; one that is done is added to those that have.
  cases hp : p.outcome with
  | none =>
    rw [Config.settle_of_none hp]
    refine ⟨hold, fun j call' rest r ht hr => ?_⟩
    rcases hmoved j call' rest ht with ⟨rfl, rfl, rfl⟩ | ht
    · cases hp.symm.trans hr
    · exact h.end_of_task j call' rest r ht hr
  | some r₀ =>
    rw [Config.settle_of_outcome hp]
    refine ⟨fun e he => ?_, fun j call' rest r ht hr => ?_⟩
    · rcases List.mem_append.1 he with he | he
      · exact hold e he
      · rw [List.mem_singleton.1 he]
        exact ⟨p, hself, hp⟩
    · rcases hmoved j call' rest ht with ⟨rfl, rfl, rfl⟩ | ht
      · cases hp.symm.trans hr
        exact List.mem_append_right _ (List.mem_singleton.2 rfl)
      · exact List.mem_append_left _ (h.end_of_task j call' rest r ht hr)

/-- The books are kept when a call is started. -/
theorem start (h : Books c) (call : C.Call) : Books (c.start call) := by
  refine h.settle (fun j hj => ?_) (by simp) fun e he => ?_
  · rcases Nat.lt_or_gt_of_ne hj with hlt | hlt
    · exact List.getElem?_append_left hlt
    · rw [List.getElem?_eq_none (by simp; omega), List.getElem?_eq_none (by omega)]
  · -- The call of an end is among those that were started before.
    obtain ⟨rest, ht, -⟩ := h.task_of_end e he
    exact Nat.ne_of_lt (List.getElem?_eq_some_iff.1 ht).1

/-- They are kept when an event is handled. -/
theorem handled (h : Books c) (s : C.State) (call : Option C.Call) :
    Books (c.handled s call) := by
  cases call with
  | none => exact h.of_state s
  | some call => exact (h.of_state s).start call

/-- They are kept when a call gets an answer. -/
theorem resume (h : Books c) {o : S.Op} {k : S.Ans o → Program S ε C.Result}
    (ht : c.tasks[i]? = some ⟨call, .ask o k⟩) : Books (c.resume i call p) := by
  have hi : i < c.tasks.length := (List.getElem?_eq_some_iff.1 ht).1
  refine h.settle (fun j hj => ?_) ?_ fun e he hei => ?_
  · rw [List.getElem?_set, if_neg fun hij => hj hij.symm]
  · rw [List.getElem?_set, if_pos rfl, if_pos hi]
  · -- A call that has ended asks nothing.
    obtain ⟨rest, ht', hrest⟩ := h.task_of_end e he
    rw [hei, ht] at ht'
    cases ht'
    cases hrest

end Books

namespace Reaches

variable {ok : C.Config → C.Move → Prop} {c : C.Config} {s₀ : C.State} {call₀ : C.Call}

/-- In every run, the books are right. -/
theorem books (h : Reaches ok (.mount s₀ call₀) c) : Books c :=
  h.induction Books (Books.nil.start call₀) (fun _ _ s call _ hc _ _ => hc.handled s call)
    fun _ _ _ _ _ _ _ _ hc _ ht _ => hc.resume ht

/-- What holds of a program, and is kept by an answer, holds of what is left of it. -/
theorem of_task {P : C.Call → Program S ε C.Result → Prop}
    (hprogram : ∀ call, P call (C.program call))
    (hanswer : ∀ call o k ch a, P call (.ask o k) → C.answer o ch = some a → P call (k a))
    (h : Reaches ok (.mount s₀ call₀) c) : ∀ t ∈ c.tasks, P t.call t.rest := by
  -- A call starts with its program, and goes on by its answers.
  have hstart : ∀ (c : C.Config) (call : C.Call), (∀ t ∈ c.tasks, P t.call t.rest) →
      ∀ t ∈ (c.start call).tasks, P t.call t.rest := by
    intro c call hc t ht
    rw [Config.start, Config.tasks_settle] at ht
    rcases List.mem_append.1 ht with ht | ht
    · exact hc t ht
    · rw [List.mem_singleton.1 ht]
      exact hprogram call
  refine h.induction (fun c => ∀ t ∈ c.tasks, P t.call t.rest)
    (hstart _ _ fun t ht => absurd ht List.not_mem_nil) ?_ ?_
  · intro c e s call _ hc _ _
    cases call with
    | none => exact hc
    | some call => exact hstart ⟨s, c.tasks, c.ended⟩ call hc
  · intro c i ch call o k a _ hc _ ht ha t hmem
    rw [Config.resume, Config.tasks_settle] at hmem
    rcases List.mem_or_eq_of_mem_set hmem with hmem | rfl
    · exact hc t hmem
    · exact hanswer call o k ch a (hc _ (List.mem_of_getElem? ht)) ha

/-- What is left of a program has results that the program may have. -/
theorem runs_of_task (h : Reaches ok (.mount s₀ call₀) c) : ∀ t ∈ c.tasks,
    ∀ r, Program.Runs C.exec () t.rest r () → Program.Runs C.exec () (C.program t.call) r () := by
  refine h.of_task (P := fun call p => ∀ r, Program.Runs C.exec () p r () →
    Program.Runs C.exec () (C.program call) r ()) (fun call r hr => hr) ?_
  intro call o k ch a hk ha r hr
  have hexec : C.exec () o ch = some (a, ()) := by
    rw [exec, ha]
    rfl
  exact hk r (.ask hexec hr)

/-- The result of a call is one that its program may have. -/
theorem runs_of_end (h : Reaches ok (.mount s₀ call₀) c) {e : C.End} (he : e ∈ c.ended) :
    Program.Runs C.exec () (C.program e.call) e.result () := by
  obtain ⟨rest, ht, hrest⟩ := h.books.task_of_end e he
  exact h.runs_of_task _ (List.mem_of_getElem? ht) _ (Program.runs_of_outcome hrest)

/-- If no call is under way, all have ended. -/
theorem exists_end (h : Reaches ok (.mount s₀ call₀) c) (hquiet : c.Quiet) {i : ℕ}
    {call : C.Call} (hcall : c.calls[i]? = some call) : ∃ r, (⟨i, call, r⟩ : C.End) ∈ c.ended := by
  rw [Config.calls, List.getElem?_map] at hcall
  obtain ⟨⟨call, rest⟩, ht, rfl⟩ := Option.map_eq_some_iff.1 hcall
  obtain ⟨r, hr⟩ := (hquiet _ (List.mem_of_getElem? ht)).exists_outcome
  exact ⟨r, h.books.end_of_task i _ _ r ht hr⟩

/-- The calls of ends are those that were started. -/
theorem call_of_end (h : Reaches ok (.mount s₀ call₀) c) {e : C.End} (he : e ∈ c.ended) :
    c.calls[e.number]? = some e.call := by
  obtain ⟨rest, ht, -⟩ := h.books.task_of_end e he
  rw [Config.calls, List.getElem?_map, ht]
  rfl

end Reaches

/-! ## Calls that follow the state -/

/-- There is one call for each state. An event after which another one is due starts it. -/
structure Follows (C : Component S ε) (current : C.State → C.Call) : Prop where
  handle : ∀ {s e s' call}, C.handle s e = some (s', call) →
    call = some (current s') ∨ (call = none ∧ current s' = current s)
  finish : ∀ {s call r}, current (C.finish s call r) = current s

/-- The last call is for the state as it is, whatever has ended meanwhile. -/
theorem Reaches.calls_getLast? {current : C.State → C.Call} (hfollows : C.Follows current)
    {ok : C.Config → C.Move → Prop} {s₀ : C.State} {c : C.Config}
    (h : Reaches ok (.mount s₀ (current s₀)) c) :
    c.calls.getLast? = some (current c.state) := by
  have hfinish : ∀ s call r, current (C.finish s call r) = current s := fun _ _ _ => hfollows.finish
  have hstart : ∀ c : C.Config, (c.start (current c.state)).calls.getLast? =
      some (current (c.start (current c.state)).state) := by
    intro c
    rw [Config.calls_start, List.getLast?_concat, Config.start, Config.view_settle current hfinish]
  refine h.induction (fun c : C.Config => c.calls.getLast? = some (current c.state))
    (hstart ⟨s₀, [], []⟩) ?_ ?_
  · intro c e s call _ hc _ hs
    rcases hfollows.handle hs with rfl | ⟨rfl, hcurrent⟩
    · exact hstart ⟨s, c.tasks, c.ended⟩
    · exact hc.trans (congrArg some hcurrent.symm)
  · intro c i ch call o k a _ hc _ ht _
    rw [Config.calls_resume ht, hc, Config.resume, Config.view_settle current hfinish]

/-! ## Results that overwrite -/

/-- Results set a part of the state, which nothing else changes. -/
structure Overwrites (C : Component S ε) {α : Type} (view : C.State → α)
    (set : C.Call → Except ε C.Result → Option α) : Prop where
  handle : ∀ {s e s' call}, C.handle s e = some (s', call) → view s' = view s
  finish : ∀ {s call r}, view (C.finish s call r) = (set call r).getD (view s)

/-- What the results set, one after the other. -/
def written {α : Type} (set : C.Call → Except ε C.Result → Option α) (ended : List C.End) :
    List α :=
  ended.filterMap fun e => set e.call e.result

/-- The last call to end writes last. -/
theorem written_concat {α : Type} {set : C.Call → Except ε C.Result → Option α}
    {ended : List C.End} {e : C.End} :
    written set (ended ++ [e]) = written set ended ++ (set e.call e.result).toList := by
  rw [written, List.filterMap_append]
  cases h : set e.call e.result <;> simp [h, written]

/-- What was set last remains. -/
theorem Reaches.view_eq {α : Type} {view : C.State → α}
    {set : C.Call → Except ε C.Result → Option α} (hview : C.Overwrites view set)
    {ok : C.Config → C.Move → Prop} {s₀ : C.State} {call₀ : C.Call} {c : C.Config}
    (h : Reaches ok (.mount s₀ call₀) c) :
    view c.state = ((written set c.ended).getLast?).getD (view s₀) := by
  have hsettle : ∀ (c : C.Config) (i : ℕ) (call : C.Call) (p : Program S ε C.Result),
      view c.state = ((written set c.ended).getLast?).getD (view s₀) →
        view (c.settle i call p).state =
          ((written set (c.settle i call p).ended).getLast?).getD (view s₀) := by
    intro c i call p hc
    cases hp : p.outcome with
    | none => rwa [Config.settle_of_none hp]
    | some r =>
      rw [Config.settle_of_outcome hp, written_concat, hview.finish]
      cases hset : set call r with
      | none => simpa using hc
      | some a => simp
  -- The state changes where a call ends, and there the last one to set the view decides.
  refine h.induction (fun c : C.Config =>
    view c.state = ((written set c.ended).getLast?).getD (view s₀)) (hsettle _ _ _ _ rfl) ?_ ?_
  · intro c e s call _ hc _ hs
    have hstate : view s = ((written set c.ended).getLast?).getD (view s₀) :=
      (hview.handle hs).trans hc
    cases call with
    | none => exact hstate
    | some call => exact hsettle ⟨s, _, c.ended⟩ _ _ _ hstate
  · intro c i ch call o k a _ hc _ _ _
    exact hsettle ⟨c.state, _, c.ended⟩ _ _ _ hc

/-! ## Calls under way -/

namespace Config

/-- The call is under way. -/
def UnderWay (c : C.Config) (call : C.Call) : Prop := ∃ t ∈ c.tasks, t.call = call ∧ ¬ t.rest.Done

/-- The call is under way, under another number than `i`. -/
def OtherUnderWay (c : C.Config) (i : ℕ) (call : C.Call) : Prop :=
  ∃ t ∈ c.tasks.eraseIdx i, t.call = call ∧ ¬ t.rest.Done

instance [DecidableEq C.Call] (c : C.Config) (i : ℕ) (call : C.Call) :
    Decidable (c.OtherUnderWay i call) :=
  inferInstanceAs (Decidable (∃ t ∈ c.tasks.eraseIdx i, t.call = call ∧ ¬ t.rest.Done))

/-- The end to which a move brings a call. -/
def ending (c : C.Config) : C.Move → Option C.End
  | .event _ => none
  | .resume i ch =>
    match c.tasks[i]? with
    | some ⟨call, .ask o k⟩ => (C.answer o ch).bind fun a => (k a).outcome.map (⟨i, call, ·⟩)
    | _ => none

section

variable {c : C.Config} {i : ℕ} {call call' : C.Call} {p : Program S ε C.Result}

/-- An answer ends the call if nothing is left to be asked. -/
theorem ending_resume {o : S.Op} {k : S.Ans o → Program S ε C.Result} {ch : C.Choice} {a : S.Ans o}
    (ht : c.tasks[i]? = some ⟨call, .ask o k⟩) (ha : C.answer o ch = some a) :
    c.ending (.resume i ch) = (k a).outcome.map (⟨i, call, ·⟩) := by
  simp [ending, ht, ha]

/-- Nothing is under way when all is quiet. -/
theorem not_underWay_of_quiet (h : c.Quiet) : ¬ c.UnderWay call := by
  rintro ⟨t, ht, -, hdone⟩
  exact hdone (h t ht)

/-- A call that is started is under way, unless it has ended at once. -/
theorem underWay_start : (c.start call).UnderWay call' ↔
    c.UnderWay call' ∨ (call = call' ∧ ¬ (C.program call).Done) := by
  simp [UnderWay, start, or_and_right, exists_or]

/-- A call is under way if it is the one that goes on, or it is another one. -/
theorem underWay_resume {rest : Program S ε C.Result} (ht : c.tasks[i]? = some ⟨call, rest⟩) :
    (c.resume i call p).UnderWay call' ↔ (call = call' ∧ ¬ p.Done) ∨ c.OtherUnderWay i call' := by
  have hi : i < c.tasks.length := (List.getElem?_eq_some_iff.1 ht).1
  rw [UnderWay, OtherUnderWay, resume, tasks_settle, List.set_eq_take_append_cons_drop, if_pos hi,
    List.eraseIdx_eq_take_drop_succ]
  simp only [List.mem_append, List.mem_cons, or_and_right, exists_or, exists_eq_left]
  exact or_left_comm

/-- What is under way beside a call is under way. -/
theorem underWay_of_other {i : ℕ} (h : c.OtherUnderWay i call) : c.UnderWay call := by
  obtain ⟨t, ht, hcall⟩ := h
  exact ⟨t, List.mem_of_mem_eraseIdx ht, hcall⟩

/-- What is under way is this call or one beside it. -/
theorem underWay_cases {rest : Program S ε C.Result} (ht : c.tasks[i]? = some ⟨call, rest⟩)
    (h : c.UnderWay call') : call = call' ∨ c.OtherUnderWay i call' := by
  obtain ⟨t, hmem, hcall, hdone⟩ := h
  obtain ⟨j, hj⟩ := List.mem_iff_getElem?.1 hmem
  by_cases hij : j = i
  · subst hij
    cases ht.symm.trans hj
    exact .inl hcall
  · exact .inr ⟨t, List.mem_eraseIdx_iff_getElem?.2 ⟨j, hij, hj⟩, hcall, hdone⟩

end

end Config

end Component

end Interaction
