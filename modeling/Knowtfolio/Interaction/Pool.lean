import Knowtfolio.Data.Lists
import Knowtfolio.Interaction.Program

/-!
# Pools of interleaved programs

A `Machine` serves requests: each request starts a thread running its program,
and the threads share a world that their operations read and change, one at a
time, in any order. Between two operations of a thread anything may happen:
operations of other threads, new requests, and *actions* of the world itself,
which no request asked for.

* A configuration (`Machine.Config`) is the world, the threads, and the history
  of everything that happened; a thread keeps the log of its own operations,
  which is its part of the history (`Reaches.log_eq`).
* A run is a sequence of `Move`s, each allowed by a condition on the
  configuration before it (`Machine.Reaches`). With the condition `True`, it is
  any run whatever.
* Proofs go by `Reaches.induction`, whose cases are those of a move; what a
  thread may ask next is known from the weakest precondition of its program
  (`Reaches.wp`).
* Values that the world hands out once only are handed to one thread only
  (`Reaches.asked_unique`).
-/

namespace Interaction

/-- What serves requests: their programs, and the world they run in. -/
structure Machine (S : Signature) (ε : Type) where
  /-- What the threads share. -/
  World : Type
  /-- What a client sends. -/
  Request : Type
  /-- What a client gets back. -/
  Reply : Type
  /-- What is open in the answer of the world. -/
  Choice : Type
  /-- What the world does by itself. -/
  Action : Type
  /-- The program serving a request. -/
  program : Request → Program S ε Reply
  /-- An operation on the world, given a choice; `none` if the choice is none of
      those the world has. -/
  exec : World → (o : S.Op) → Choice → Option (S.Ans o × World)
  /-- An action of the world, if it is possible. -/
  act : World → Action → Option World

namespace Machine

variable {S : Signature} {ε : Type} (M : Machine S ε)

/-- A request being served, with the operations asked for it so far. -/
structure Thread where
  request : M.Request
  log : S.Log
  rest : Program S ε M.Reply

/-- What has happened: a request arrived, a thread asked an operation and got
    its answer, or the world acted. -/
inductive Event
  | arrived (i : ℕ) (r : M.Request)
  | asked (i : ℕ) (e : S.Entry)
  | acted (x : M.Action)

/-- The world, the threads and the history. Threads are numbered in the order
    of their arrival, and stay when they have ended. -/
structure Config where
  world : M.World
  threads : List M.Thread
  history : List M.Event

/-- What may happen next: a request arrives, the thread `i` asks its next
    operation, or the world acts. -/
inductive Move
  | arrive (r : M.Request)
  | step (i : ℕ) (c : M.Choice)
  | act (x : M.Action)

variable {M}

namespace Config

/-- Nothing has been asked yet. -/
def initial (w : M.World) : M.Config := ⟨w, [], []⟩

/-- The request `r` arrives. -/
def arrive (c : M.Config) (r : M.Request) : M.Config where
  world := c.world
  threads := c.threads ++ [⟨r, [], M.program r⟩]
  history := c.history ++ [.arrived c.threads.length r]

/-- The thread `i`, being `t`, has asked `e` and goes on with `p`, in the world `w`. -/
def step (c : M.Config) (i : ℕ) (t : M.Thread) (e : S.Entry) (p : Program S ε M.Reply)
    (w : M.World) : M.Config where
  world := w
  threads := c.threads.set i ⟨t.request, t.log ++ [e], p⟩
  history := c.history ++ [.asked i e]

/-- The world has acted, and is now `w`. -/
def act (c : M.Config) (x : M.Action) (w : M.World) : M.Config where
  world := w
  threads := c.threads
  history := c.history ++ [.acted x]

/-- The configuration after a move, if the move is possible. -/
def next (c : M.Config) : M.Move → Option M.Config
  | .arrive r => some (c.arrive r)
  | .step i ch =>
    match c.threads[i]? with
    | some ⟨r, l, .ask o k⟩ =>
      (M.exec c.world o ch).map fun aw => c.step i ⟨r, l, .ask o k⟩ ⟨o, aw.1⟩ (k aw.1) aw.2
    | _ => none
  | .act x => (M.act c.world x).map fun w => c.act x w

/-- No request is in progress. -/
def Quiet (c : M.Config) : Prop := ∀ t ∈ c.threads, t.rest.Done

instance (c : M.Config) : Decidable c.Quiet :=
  inferInstanceAs (Decidable (∀ t ∈ c.threads, t.rest.Done))

/-- The operation that the thread `i` asks next, with its request and its log. -/
def asking (c : M.Config) (i : ℕ) : Option (M.Request × S.Log × S.Op) :=
  match c.threads[i]? with
  | some ⟨r, l, .ask o _⟩ => some (r, l, o)
  | _ => none

/-- What a thread asks is its next operation. -/
theorem asking_of_rest {c : M.Config} {i : ℕ} {t : M.Thread} (ht : c.threads[i]? = some t)
    {o : S.Op} {k : S.Ans o → Program S ε M.Reply} (hk : t.rest = .ask o k) :
    c.asking i = some (t.request, t.log, o) := by
  obtain ⟨r, l, p⟩ := t
  cases hk
  simp [asking, ht]

/-- A step answers the operation of a thread. -/
theorem next_step {c c' : M.Config} {i : ℕ} {ch : M.Choice} (h : c.next (.step i ch) = some c') :
    ∃ t o k a w, c.threads[i]? = some t ∧ t.rest = .ask o k ∧ M.exec c.world o ch = some (a, w) ∧
      c' = c.step i t ⟨o, a⟩ (k a) w := by
  simp only [next] at h
  split at h
  next r l o k ht =>
    obtain ⟨⟨a, w⟩, he, rfl⟩ := Option.map_eq_some_iff.1 h
    exact ⟨_, o, k, a, w, ht, rfl, he, rfl⟩
  next => exact absurd h (by simp)

/-- A thread can move if its operation can be answered. -/
theorem next_of_exec {c : M.Config} {i : ℕ} {ch : M.Choice} {t : M.Thread} {o : S.Op}
    {k : S.Ans o → Program S ε M.Reply} {a : S.Ans o} {w : M.World} (ht : c.threads[i]? = some t)
    (hk : t.rest = .ask o k) (he : M.exec c.world o ch = some (a, w)) :
    c.next (.step i ch) = some (c.step i t ⟨o, a⟩ (k a) w) := by
  obtain ⟨r, l, p⟩ := t
  cases hk
  simp [next, ht, he]

/-- An action changes the world only. -/
theorem next_act {c c' : M.Config} {x : M.Action} (h : c.next (.act x) = some c') :
    ∃ w, M.act c.world x = some w ∧ c' = c.act x w := by
  obtain ⟨w, hw, rfl⟩ := Option.map_eq_some_iff.1 h
  exact ⟨w, hw, rfl⟩

@[simp] theorem mem_history_arrive {c : M.Config} {r : M.Request} {x : M.Event} :
    x ∈ (c.arrive r).history ↔ x ∈ c.history ∨ x = .arrived c.threads.length r := by
  simp [arrive]

@[simp] theorem mem_history_step {c : M.Config} {i : ℕ} {t : M.Thread} {e : S.Entry}
    {p : Program S ε M.Reply} {w : M.World} {x : M.Event} :
    x ∈ (c.step i t e p w).history ↔ x ∈ c.history ∨ x = .asked i e := by
  simp [step]

@[simp] theorem mem_history_act {c : M.Config} {a : M.Action} {w : M.World} {x : M.Event} :
    x ∈ (c.act a w).history ↔ x ∈ c.history ∨ x = .acted a := by
  simp [act]

section threads

variable {c : M.Config} {i j : ℕ} {t u : M.Thread}

/-- The threads after an arrival: those before, and the one just started. -/
theorem getElem?_arrive {r : M.Request} (h : (c.arrive r).threads[j]? = some u) :
    c.threads[j]? = some u ∨ (j = c.threads.length ∧ u = ⟨r, [], M.program r⟩) := by
  simp only [arrive] at h
  rcases Nat.lt_trichotomy j c.threads.length with hj | rfl | hj
  · exact .inl (by rwa [List.getElem?_append_left hj] at h)
  · exact .inr ⟨rfl, by simpa using h.symm⟩
  · rw [List.getElem?_append_right (Nat.le_of_lt hj), List.getElem?_eq_none (by simp; omega)] at h
    cases h

/-- The threads after a step: the one that has stepped, and the others as before. -/
theorem getElem?_step {e : S.Entry} {p : Program S ε M.Reply} {w : M.World}
    (h : (c.step i t e p w).threads[j]? = some u) :
    (j = i ∧ u = ⟨t.request, t.log ++ [e], p⟩) ∨ (j ≠ i ∧ c.threads[j]? = some u) := by
  simp only [step, List.getElem?_set] at h
  split at h
  next hij =>
    split at h
    · exact .inl ⟨hij.symm, by simpa using h.symm⟩
    · cases h
  next hij => exact .inr ⟨fun hji => hij hji.symm, h⟩

/-- The thread that moves has logged the answer. -/
theorem getElem?_step_self {e : S.Entry} {p : Program S ε M.Reply} {w : M.World}
    (h : c.threads[i]? = some t) :
    (c.step i t e p w).threads[i]? = some ⟨t.request, t.log ++ [e], p⟩ := by
  have hi : i < c.threads.length := by
    by_contra hi
    rw [List.getElem?_eq_none (Nat.not_lt.1 hi)] at h
    cases h
  simp [step, hi]

/-- The other threads stay where they are. -/
theorem getElem?_step_of_ne {e : S.Entry} {p : Program S ε M.Reply} {w : M.World} (hji : j ≠ i) :
    (c.step i t e p w).threads[j]? = c.threads[j]? := by
  simp only [step, List.getElem?_set, if_neg fun h => hji (Eq.symm h)]

/-- So do all threads when a request arrives. -/
theorem getElem?_arrive_of_some {r : M.Request} (h : c.threads[j]? = some u) :
    (c.arrive r).threads[j]? = some u := by
  have hj : j < c.threads.length := by
    by_contra hj
    rw [List.getElem?_eq_none (Nat.not_lt.1 hj)] at h
    cases h
  rw [arrive, List.getElem?_append_left hj, h]

end threads

end Config

/-! ## Runs -/

/-- The configurations that a run from `c₀` gets to by moves that `ok` allows. -/
inductive Reaches (ok : M.Config → M.Move → Prop) (c₀ : M.Config) : M.Config → Prop
  | refl : Reaches ok c₀ c₀
  | move {c c' : M.Config} {m : M.Move} :
      Reaches ok c₀ c → ok c m → c.next m = some c' → Reaches ok c₀ c'

/-- Every move is allowed. -/
def Any (_ : M.Config) (_ : M.Move) : Prop := True

namespace Reaches

variable {ok ok' : M.Config → M.Move → Prop} {c₀ c₁ c : M.Config}

/-- A run that keeps to a condition keeps to a weaker one. -/
theorem mono (hok : ∀ c m, ok c m → ok' c m) (h : Reaches ok c₀ c) : Reaches ok' c₀ c := by
  induction h with
  | refl => exact .refl
  | move _ hm hn ih => exact .move ih (hok _ _ hm) hn

/-- Every run is one without a condition. -/
theorem any (h : Reaches ok c₀ c) : Reaches Any c₀ c := h.mono fun _ _ _ => trivial

/-- Runs go on from where others have ended. -/
theorem trans (h₁ : Reaches ok c₀ c₁) (h₂ : Reaches ok c₁ c) : Reaches ok c₀ c := by
  induction h₂ with
  | refl => exact h₁
  | move _ hm hn ih => exact .move ih hm hn

/-- Proofs about runs: what holds at the start, and is kept by an arrival, by an
    operation and by an action, holds in the end. -/
theorem induction (I : M.Config → Prop) (h : Reaches ok c₀ c) (init : I c₀)
    (arrive : ∀ c r, Reaches ok c₀ c → I c → ok c (.arrive r) → I (c.arrive r))
    (step : ∀ c i ch t o k a w, Reaches ok c₀ c → I c → ok c (.step i ch) →
      c.threads[i]? = some t → t.rest = .ask o k → M.exec c.world o ch = some (a, w) →
      I (c.step i t ⟨o, a⟩ (k a) w))
    (act : ∀ c x w, Reaches ok c₀ c → I c → ok c (.act x) → M.act c.world x = some w →
      I (c.act x w)) : I c := by
  induction h with
  | refl => exact init
  | @move c c' m hr hm hn ih =>
    cases m with
    | arrive r => cases hn; exact arrive _ _ hr ih hm
    | step i ch =>
      obtain ⟨t, o, k, a, w, ht, hk, he, rfl⟩ := Config.next_step hn
      exact step _ _ _ _ _ _ _ _ hr ih hm ht hk he
    | act x =>
      obtain ⟨w, hw, rfl⟩ := Config.next_act hn
      exact act _ _ _ hr ih hm hw

/-- The requests of the threads are those that were allowed to arrive. -/
theorem request {p : M.Request → Prop} {w : M.World} (hok : ∀ c r, ok c (.arrive r) → p r)
    (h : Reaches ok (.initial w) c) {i : ℕ} {t : M.Thread} (ht : c.threads[i]? = some t) :
    p t.request := by
  refine h.induction
    (fun c : M.Config => ∀ i (t : M.Thread), c.threads[i]? = some t → p t.request)
    (fun i t ht => by simp [Config.initial] at ht) ?_ ?_ (fun _ _ _ _ ih _ _ => ih) i t ht
  · intro c r _ ih hm i t ht
    rcases Config.getElem?_arrive ht with ht | ⟨-, rfl⟩
    · exact ih i t ht
    · exact hok c r hm
  · intro c i _ t _ _ _ _ _ ih _ ht _ _ j u hu
    rcases Config.getElem?_step hu with ⟨rfl, rfl⟩ | ⟨-, hu⟩
    · exact ih j t ht
    · exact ih j u hu

/-- A run goes on by an operation of a thread. -/
theorem step (h : Reaches ok c₀ c) {i : ℕ} {ch : M.Choice} {t : M.Thread} {o : S.Op}
    {k : S.Ans o → Program S ε M.Reply} {a : S.Ans o} {w : M.World} (hok : ok c (.step i ch))
    (ht : c.threads[i]? = some t) (hk : t.rest = .ask o k)
    (he : M.exec c.world o ch = some (a, w)) : Reaches ok c₀ (c.step i t ⟨o, a⟩ (k a) w) :=
  .move h hok (Config.next_of_exec ht hk he)

/-- A thread stays, serving its request; when it has ended, it stays as it is. -/
theorem thread_mono (h : Reaches ok c₀ c) {i : ℕ} {t₀ : M.Thread}
    (ht₀ : c₀.threads[i]? = some t₀) :
    ∃ t, c.threads[i]? = some t ∧ t.request = t₀.request ∧ (t₀.rest.Done → t = t₀) := by
  refine h.induction (fun c => ∃ t, c.threads[i]? = some t ∧ t.request = t₀.request ∧
    (t₀.rest.Done → t = t₀)) ⟨t₀, ht₀, rfl, fun _ => rfl⟩ ?_ ?_ (fun c x w _ ih _ _ => ih)
  · rintro c r _ ⟨t, ht, ih⟩ _
    exact ⟨t, Config.getElem?_arrive_of_some ht, ih⟩
  · rintro c j ch u o k a w _ ⟨t, ht, hreq, hdone⟩ _ hu hk _
    by_cases hij : i = j
    · subst hij
      cases ht.symm.trans hu
      refine ⟨_, Config.getElem?_step_self ht, hreq, fun h => ?_⟩
      -- A thread that has ended asks nothing.
      rw [← hdone h, hk] at h
      exact h.elim
    · exact ⟨t, by rwa [Config.getElem?_step_of_ne hij], hreq, hdone⟩

/-- A thread has what its program promises, whatever it has been answered. -/
theorem wp {P : M.Request → S.Log → S.Op → Prop}
    {Q : M.Request → S.Log → Except ε M.Reply → Prop}
    (hP : ∀ r, (M.program r).wp (P r) (Q r) []) (h : Reaches ok c₀ c)
    (h₀ : ∀ (i : ℕ) (t : M.Thread), c₀.threads[i]? = some t →
      t.rest.wp (P t.request) (Q t.request) t.log) :
    ∀ (i : ℕ) (t : M.Thread), c.threads[i]? = some t →
      t.rest.wp (P t.request) (Q t.request) t.log := by
  refine h.induction (fun c => ∀ (i : ℕ) (t : M.Thread), c.threads[i]? = some t →
    t.rest.wp (P t.request) (Q t.request) t.log) h₀ ?_ ?_ ?_
  · intro c r _ ih _ i t ht
    rcases Config.getElem?_arrive ht with ht | ⟨_, rfl⟩
    · exact ih i t ht
    · exact hP r
  · intro c i ch t o k a w _ ih _ ht hk _ j u hu
    rcases Config.getElem?_step hu with ⟨_, rfl⟩ | ⟨_, hu⟩
    · have := ih i t ht
      rw [hk] at this
      exact (Program.wp_ask.1 this).2 a
    · exact ih j u hu
  · exact fun c x w _ ih _ _ => ih

/-- Every operation in the log of a thread was, when it was asked, one that its
    program may ask. -/
theorem asked_wp {P : M.Request → S.Log → S.Op → Prop}
    {Q : M.Request → S.Log → Except ε M.Reply → Prop}
    (hP : ∀ r, (M.program r).wp (P r) (Q r) []) {w : M.World} (h : Reaches ok (.initial w) c) :
    ∀ (i : ℕ) (t : M.Thread), c.threads[i]? = some t →
      ∀ (l₁ : S.Log) (e : S.Entry) (l₂ : S.Log), t.log = l₁ ++ e :: l₂ → P t.request l₁ e.1 := by
  refine h.induction (fun c => ∀ (i : ℕ) (t : M.Thread), c.threads[i]? = some t →
    ∀ (l₁ : S.Log) (e : S.Entry) (l₂ : S.Log), t.log = l₁ ++ e :: l₂ → P t.request l₁ e.1)
    (fun i t ht => by simp [Config.initial] at ht) ?_ ?_ (fun c x w _ ih _ _ => ih)
  · intro c r _ ih _ i t ht
    rcases Config.getElem?_arrive ht with ht | ⟨_, rfl⟩
    · exact ih i t ht
    · intro l₁ e l₂ hl
      simp at hl
  · intro c i ch t o k a w' hr ih _ ht hk _ j u hu
    rcases Config.getElem?_step hu with ⟨_, rfl⟩ | ⟨_, hu⟩
    · intro l₁ e l₂ hl
      -- The last operation of the log is the one just asked.
      rcases List.eq_nil_or_concat' l₂ with rfl | ⟨l₂', e', rfl⟩
      · obtain ⟨rfl, he⟩ := List.append_inj' hl rfl
        have hwp := hr.wp hP (fun i t ht => by simp [Config.initial] at ht) i t ht
        rw [hk] at hwp
        rw [← List.singleton_inj.1 he]
        exact (Program.wp_ask.1 hwp).1
      · have hl' : t.log ++ [⟨o, a⟩] = (l₁ ++ e :: l₂') ++ [e'] := by simpa using hl
        exact ih i t ht l₁ e l₂' (List.append_inj' hl' rfl).1
    · exact ih j u hu

/-- The log of the thread `i`, as a part of the history. -/
def logOf (i : ℕ) (h : List M.Event) : S.Log :=
  h.filterMap fun
    | .asked j e => if j = i then some e else none
    | _ => none

/-- The log of a thread is what it has asked in the history. -/
theorem mem_logOf {i : ℕ} {h : List M.Event} {e : S.Entry} :
    e ∈ logOf i h ↔ .asked i e ∈ h := by
  simp only [logOf, List.mem_filterMap]
  constructor
  · rintro ⟨x, hx, he⟩
    split at he
    · split_ifs at he with hj
      cases he
      exact hj ▸ hx
    · cases he
  · exact fun he => ⟨_, he, by simp⟩

/-- A log is made of its parts. -/
theorem logOf_append (i : ℕ) (h h' : List M.Event) :
    logOf i (h ++ h') = logOf i h ++ logOf i h' :=
  List.filterMap_append

/-- The last event of the thread is the last entry of its log. -/
theorem logOf_concat_self {i : ℕ} {h : List M.Event} {e : S.Entry} :
    logOf i (h ++ [.asked i e]) = logOf i h ++ [e] := by
  rw [logOf_append]
  simp [logOf]

/-- An event that is none of the thread is not in its log. -/
theorem logOf_concat_of_ne {i : ℕ} {h : List M.Event} {x : M.Event} (hx : ∀ e, x ≠ .asked i e) :
    logOf i (h ++ [x]) = logOf i h := by
  have hnil : logOf i [x] = [] := List.eq_nil_iff_forall_not_mem.2 fun e he =>
    hx e (List.mem_singleton.1 (mem_logOf.1 he)).symm
  rw [logOf_append, hnil, List.append_nil]

/-- The log of a thread is its part of the history; only threads that exist
    have one. -/
theorem log_eq {w : M.World} (h : Reaches ok (.initial w) c) :
    (∀ (i : ℕ) (t : M.Thread), c.threads[i]? = some t → t.log = logOf i c.history) ∧
      ∀ i, c.threads.length ≤ i → logOf i c.history = [] := by
  refine h.induction (fun c => (∀ (i : ℕ) (t : M.Thread), c.threads[i]? = some t →
    t.log = logOf i c.history) ∧ ∀ i, c.threads.length ≤ i → logOf i c.history = [])
    ⟨fun i t ht => by simp [Config.initial] at ht, fun i _ => rfl⟩ ?_ ?_ ?_
  · rintro c r _ ⟨ih, ih'⟩ _
    have hlog : ∀ i, logOf i (c.arrive r).history = logOf i c.history := fun i =>
      logOf_concat_of_ne nofun
    refine ⟨fun i t ht => ?_, fun i hi => ?_⟩
    · rw [hlog]
      rcases Config.getElem?_arrive ht with ht | ⟨rfl, rfl⟩
      · exact ih i t ht
      · exact (ih' _ (Nat.le_refl _)).symm
    · rw [hlog]
      exact ih' i (by simp [Config.arrive] at hi; omega)
  · -- The entry of a step is added to the log of its thread, and to the end of the history.
    rintro c i ch t o k a w _ ⟨ih, ih'⟩ _ ht _ _
    have hlog : ∀ j, j ≠ i →
        logOf j (c.step i t ⟨o, a⟩ (k a) w).history = logOf j c.history := fun j hji =>
      logOf_concat_of_ne fun e heq => by
        cases heq
        exact hji rfl
    refine ⟨fun j u hu => ?_, fun j hj => ?_⟩
    · rcases Config.getElem?_step hu with ⟨rfl, rfl⟩ | ⟨hji, hu⟩
      · rw [Config.step, logOf_concat_self, ih _ t ht]
      · rw [hlog j hji]
        exact ih j u hu
    · -- A thread that goes on is there.
      have hj' : c.threads.length ≤ j := by simpa [Config.step] using hj
      rw [hlog j fun hji => by
        subst hji
        rw [List.getElem?_eq_none hj'] at ht
        cases ht]
      exact ih' j hj'
  · rintro c x w _ ⟨ih, ih'⟩ _ _
    have hlog : ∀ i, logOf i (c.act x w).history = logOf i c.history := fun i =>
      logOf_concat_of_ne nofun
    refine ⟨fun i t ht => ?_, fun i hi => ?_⟩
    · rw [hlog]
      exact ih i t ht
    · rw [hlog]
      exact ih' i hi

/-- An operation is in the log of a thread exactly when it is in the history
    under the number of the thread. -/
theorem mem_log {w : M.World} (h : Reaches ok (.initial w) c) {i : ℕ} {t : M.Thread}
    (ht : c.threads[i]? = some t) {e : S.Entry} : e ∈ t.log ↔ .asked i e ∈ c.history := by
  rw [h.log_eq.1 i t ht, mem_logOf]

/-- What is in the history under the number of a thread is in the log of a thread
    of that number. -/
theorem exists_thread {w : M.World} (h : Reaches ok (.initial w) c) {i : ℕ} {e : S.Entry}
    (he : .asked i e ∈ c.history) : ∃ t : M.Thread, c.threads[i]? = some t ∧ e ∈ t.log := by
  have hmem := mem_logOf.2 he
  by_cases hi : i < c.threads.length
  · exact ⟨c.threads[i], by simp [hi], by rwa [h.log_eq.1 i _ (by simp [hi])]⟩
  · rw [h.log_eq.2 i (Nat.not_lt.1 hi)] at hmem
    cases hmem

/-- An operation of the history was, when it was asked, one that the program of its
    thread may ask after those of the thread before. -/
theorem asked_wp_at {P : M.Request → S.Log → S.Op → Prop}
    {Q : M.Request → S.Log → Except ε M.Reply → Prop}
    (hP : ∀ r, (M.program r).wp (P r) (Q r) []) {w : M.World} (h : Reaches ok (.initial w) c)
    {k i : ℕ} {e : S.Entry} (hk : c.history[k]? = some (.asked i e)) :
    ∃ t : M.Thread, c.threads[i]? = some t ∧ P t.request (logOf i (c.history.take k)) e.1 := by
  obtain ⟨t, ht, -⟩ := h.exists_thread (List.mem_of_getElem? hk)
  refine ⟨t, ht, h.asked_wp hP i t ht _ e (logOf i (c.history.drop (k + 1))) ?_⟩
  obtain ⟨hlt, hk⟩ := List.getElem?_eq_some_iff.1 hk
  have hsplit : c.history = c.history.take k ++ ([.asked i e] ++ c.history.drop (k + 1)) := by
    rw [← hk, List.singleton_append, ← List.drop_eq_getElem_cons hlt, List.take_append_drop]
  rw [h.log_eq.1 i t ht]
  conv_lhs => rw [hsplit]
  rw [logOf_append, logOf_append]
  simp [logOf]

/-- Every answer of the history is one that the world has given. -/
theorem asked_exec {w : M.World} (h : Reaches ok (.initial w) c) {i : ℕ} {e : S.Entry}
    (he : .asked i e ∈ c.history) : ∃ w₁ ch w₂, M.exec w₁ e.1 ch = some (e.2, w₂) := by
  refine h.induction (fun c => ∀ i e, .asked i e ∈ c.history →
    ∃ w₁ ch w₂, M.exec w₁ e.1 ch = some (e.2, w₂)) (fun i e he => absurd he List.not_mem_nil)
    ?_ ?_ ?_ i e he
  · intro c r _ ih _ i e he
    exact ih i e (by simpa [Config.arrive] using he)
  · intro c i ch t o k a w' _ ih _ _ _ hx j e he
    rcases List.mem_append.1 he with he | he
    · exact ih j e he
    · cases List.mem_singleton.1 he
      exact ⟨_, ch, _, hx⟩
  · intro c x w' _ ih _ _ i e he
    exact ih i e (by simpa [Config.act] using he)

/-- What has happened before stays in the history. -/
theorem history_prefix (h : Reaches ok c₀ c) : c₀.history <+: c.history := by
  refine h.induction (fun c => c₀.history <+: c.history) List.prefix_rfl ?_ ?_ ?_
  · exact fun c r _ ih _ => ih.trans (List.prefix_append _ _)
  · exact fun c i ch t o k a w _ ih _ _ _ _ => ih.trans (List.prefix_append _ _)
  · exact fun c x w _ ih _ _ => ih.trans (List.prefix_append _ _)

/-- What was asked in a step has its place in the history after it. -/
theorem getElem?_history_step {i : ℕ} {t : M.Thread} {e : S.Entry} {p : Program S ε M.Reply}
    {w : M.World} (h : Reaches ok (c₀.step i t e p w) c) :
    c.history[c₀.history.length]? = some (.asked i e) := by
  obtain ⟨es, hes⟩ := h.history_prefix
  rw [← hes]
  simp [Config.step]

/-- What is in the log of a thread was asked, after what is before it in the log, in a move
    that was allowed, and the run has gone on from there. -/
theorem logged_move {w : M.World} (h : Reaches ok (.initial w) c) {i : ℕ} {t : M.Thread}
    (ht : c.threads[i]? = some t) {l₁ l₂ : S.Log} {e : S.Entry} (hl : t.log = l₁ ++ e :: l₂) :
    ∃ (c₁ : M.Config) (t₁ : M.Thread) (k : S.Ans e.1 → Program S ε M.Reply) (ch : M.Choice)
      (w₁ : M.World), Reaches ok (.initial w) c₁ ∧ ok c₁ (.step i ch) ∧
      c₁.threads[i]? = some t₁ ∧ t₁.log = l₁ ∧ t₁.rest = .ask e.1 k ∧
      M.exec c₁.world e.1 ch = some (e.2, w₁) ∧
      Reaches ok (c₁.step i t₁ e (k e.2) w₁) c := by
  induction h generalizing t l₂ with
  | refl => simp [Config.initial] at ht
  | @move c c' m hr hm hn ih =>
    -- What was in the log before this move was asked in an earlier one.
    have hlater : ∀ {u : M.Thread} {l : S.Log}, c.threads[i]? = some u → u.log = l₁ ++ e :: l →
        ∃ (c₁ : M.Config) (t₁ : M.Thread) (k : S.Ans e.1 → Program S ε M.Reply) (ch : M.Choice)
          (w₁ : M.World), Reaches ok (.initial w) c₁ ∧ ok c₁ (.step i ch) ∧
          c₁.threads[i]? = some t₁ ∧ t₁.log = l₁ ∧ t₁.rest = .ask e.1 k ∧
          M.exec c₁.world e.1 ch = some (e.2, w₁) ∧
          Reaches ok (c₁.step i t₁ e (k e.2) w₁) c' := by
      intro u l hu hul
      obtain ⟨c₁, t₁, k, ch, w₁, hr₁, hm₁, ht₁, hl₁, hk, hx, hr'⟩ := ih hu hul
      exact ⟨c₁, t₁, k, ch, w₁, hr₁, hm₁, ht₁, hl₁, hk, hx, .move hr' hm hn⟩
    cases m with
    | arrive r =>
      cases hn
      rcases Config.getElem?_arrive ht with ht | ⟨-, rfl⟩
      · exact hlater ht hl
      · simp at hl
    | step j ch =>
      obtain ⟨u, o, k, a, w', hu, hk, hx, rfl⟩ := Config.next_step hn
      rcases Config.getElem?_step ht with ⟨rfl, rfl⟩ | ⟨-, ht⟩
      · -- The last operation of the log is the one just asked.
        rcases List.eq_nil_or_concat' l₂ with rfl | ⟨l₂', e', rfl⟩
        · obtain ⟨hlog, he⟩ := List.append_inj' hl rfl
          cases List.singleton_inj.1 he
          exact ⟨c, u, k, ch, w', hr, hm, hu, hlog, hk, hx, .refl⟩
        · have hl' : u.log ++ [⟨o, a⟩] = (l₁ ++ e :: l₂') ++ [e'] := by simpa using hl
          exact hlater hu (List.append_inj' hl' rfl).1
      · exact hlater ht hl
    | act x =>
      obtain ⟨w', hw, rfl⟩ := Config.next_act hn
      exact hlater ht hl

/-- So was what is in the history. -/
theorem asked_move {w : M.World} (h : Reaches ok (.initial w) c) {i : ℕ} {e : S.Entry}
    (he : .asked i e ∈ c.history) : ∃ (c₁ : M.Config) (t : M.Thread)
      (k : S.Ans e.1 → Program S ε M.Reply) (ch : M.Choice) (w₁ : M.World),
      Reaches ok (.initial w) c₁ ∧ ok c₁ (.step i ch) ∧ c₁.threads[i]? = some t ∧
      t.rest = .ask e.1 k ∧ M.exec c₁.world e.1 ch = some (e.2, w₁) ∧
      Reaches ok (c₁.step i t e (k e.2) w₁) c := by
  obtain ⟨t, ht, hmem⟩ := h.exists_thread he
  obtain ⟨l₁, l₂, hl⟩ := List.append_of_mem hmem
  obtain ⟨c₁, t₁, k, ch, w₁, hr₁, hm₁, ht₁, -, hk, hx, hr'⟩ := h.logged_move ht hl
  exact ⟨c₁, t₁, k, ch, w₁, hr₁, hm₁, ht₁, hk, hx, hr'⟩

/-- What a thread has been answered since the start of a run is what the world has answered
    since. -/
theorem answered_since {P : S.Entry → Prop} (h : Reaches ok c₀ c)
    (hP : ∀ c₁ i ch t o k a w, Reaches ok c₀ c₁ → c₁.threads[i]? = some t → t.rest = .ask o k →
      ok c₁ (.step i ch) → M.exec c₁.world o ch = some (a, w) → P ⟨o, a⟩)
    {i : ℕ} {t : M.Thread} (ht : c.threads[i]? = some t) :
    ∀ e ∈ t.log, P e ∨ ∃ t₀, c₀.threads[i]? = some t₀ ∧ e ∈ t₀.log := by
  refine h.induction (fun c : M.Config => ∀ i (t : M.Thread), c.threads[i]? = some t →
    ∀ e ∈ t.log, P e ∨ ∃ t₀, c₀.threads[i]? = some t₀ ∧ e ∈ t₀.log)
    (fun i t ht e he => .inr ⟨t, ht, he⟩) ?_ ?_ (fun _ _ _ _ ih _ _ => ih) i t ht
  · intro c r _ ih _ i t ht
    rcases Config.getElem?_arrive ht with ht | ⟨-, rfl⟩
    · exact ih i t ht
    · exact fun e he => absurd he List.not_mem_nil
  · intro c i ch t o k a w hr ih hm ht hk hx j u hu
    rcases Config.getElem?_step hu with ⟨rfl, rfl⟩ | ⟨-, hu⟩
    · intro e he
      rcases List.mem_append.1 he with he | he
      · exact ih j t ht e he
      · rw [List.mem_singleton.1 he]
        exact .inl (hP c j ch t o k a w hr ht hk hm hx)
    · exact ih j u hu

/-- What the program of a thread may still do. -/
theorem rest_wp {P : M.Request → S.Log → S.Op → Prop}
    {Q : M.Request → S.Log → Except ε M.Reply → Prop}
    (hP : ∀ r, (M.program r).wp (P r) (Q r) []) {w : M.World} (h : Reaches ok (.initial w) c)
    {i : ℕ} {t : M.Thread} (ht : c.threads[i]? = some t) :
    t.rest.wp (P t.request) (Q t.request) t.log :=
  h.wp hP (fun i t ht => by simp [Config.initial] at ht) i t ht

/-! ### Values handed out once -/

/-- The values that the operations of a history were handed, in their order. -/
def drawn {δ : Type} (draw : S.Entry → Option δ) (h : List M.Event) : List δ :=
  h.filterMap fun
    | .asked _ e => draw e
    | _ => none

/-- The world only hands out, as `draw` reads it, values that it has not seen
    yet, and remembers them in `seen`. -/
structure HandsOut (M : Machine S ε) {δ : Type} (draw : S.Entry → Option δ)
    (seen : M.World → List δ) : Prop where
  fresh : ∀ {w o ch a w' d}, M.exec w o ch = some (a, w') → draw ⟨o, a⟩ = some d →
    d ∉ seen w ∧ seen w' = d :: seen w
  other : ∀ {w o ch a w'}, M.exec w o ch = some (a, w') → draw ⟨o, a⟩ = none → seen w' = seen w
  act : ∀ {w x w'}, M.act w x = some w' → seen w' = seen w

variable {δ : Type} {draw : S.Entry → Option δ} {seen : M.World → List δ}

/-- What is handed out is handed out once. -/
theorem nodup_drawn (hd : HandsOut M draw seen) {w : M.World} (h : Reaches ok (.initial w) c) :
    (drawn draw c.history).Nodup ∧ ∀ d ∈ drawn draw c.history, d ∈ seen c.world := by
  refine h.induction (fun c => (drawn draw c.history).Nodup ∧
    ∀ d ∈ drawn draw c.history, d ∈ seen c.world)
    ⟨List.nodup_nil, fun d hd => absurd hd List.not_mem_nil⟩ ?_ ?_ ?_
  · intro c r _ ih _
    simpa [Config.arrive, drawn] using ih
  · rintro c i ch t o k a w _ ⟨ih, ih'⟩ _ _ _ he
    simp only [Config.step, drawn, List.filterMap_append, List.filterMap_cons,
      List.filterMap_nil]
    cases hda : draw ⟨o, a⟩ with
    | none =>
      have hw := hd.other he hda
      simpa [drawn, hw] using And.intro ih ih'
    | some d =>
      -- What is drawn now was not seen before, while all that was drawn before was.
      obtain ⟨hfresh, hw⟩ := hd.fresh he hda
      refine ⟨List.nodup_append.2 ⟨ih, List.nodup_singleton d, ?_⟩, fun d' hd' => ?_⟩
      · rintro d' hd' d'' hd'' rfl
        rw [List.mem_singleton] at hd''
        exact hfresh (hd'' ▸ ih' _ hd')
      · rw [hw, List.mem_cons]
        rcases List.mem_append.1 hd' with hd' | hd'
        · exact .inr (ih' d' hd')
        · exact .inl (List.mem_singleton.1 hd')
  · rintro c x w _ ⟨ih, ih'⟩ _ hw
    simpa [Config.act, drawn, hd.act hw] using And.intro ih ih'

/-- A value that the world hands out once only is handed to one thread only, by
    one operation. -/
theorem asked_unique (hd : HandsOut M draw seen) {w : M.World} (h : Reaches ok (.initial w) c)
    {i j : ℕ} {e e' : S.Entry} (hi : .asked i e ∈ c.history) (hj : .asked j e' ∈ c.history)
    {d : δ} (he : draw e = some d) (he' : draw e' = some d) : i = j ∧ e = e' := by
  have := Lists.eq_of_nodup (h.nodup_drawn hd).1 hi hj (b := d) he he'
  injection this with h₁ h₂
  exact ⟨h₁, h₂⟩

end Reaches

/-! ## Threads that are not interrupted -/

/-- What a thread may do by itself, it may do from here, if its steps are allowed. -/
theorem exists_reaches_of_runs (ok : M.Config → M.Move → Prop)
    (hstep : ∀ c i ch, ok c (.step i ch)) {c : M.Config} {i : ℕ} {t : M.Thread}
    (ht : c.threads[i]? = some t) {r : Except ε M.Reply} {w : M.World}
    (h : Program.Runs M.exec c.world t.rest r w) :
    ∃ c' t', Reaches ok c c' ∧ c'.world = w ∧ c'.threads[i]? = some t' ∧
      t'.request = t.request ∧ t'.rest = Program.ofExcept r := by
  obtain ⟨request, log, p⟩ := t
  dsimp only at h
  generalize hw : c.world = w₀ at h
  induction h generalizing c log with
  | ret => exact ⟨c, _, .refl, hw, ht, rfl, rfl⟩
  | throw => exact ⟨c, _, .refl, hw, ht, rfl, rfl⟩
  | @ask w₀ w₁ w₂ o ch a k r he _ ih =>
    subst hw
    obtain ⟨c', t', hreaches, hrest⟩ := ih (log ++ [⟨o, a⟩])
      (c := c.step i ⟨request, log, .ask o k⟩ ⟨o, a⟩ (k a) w₁) (Config.getElem?_step_self ht) rfl
    exact ⟨c', t', (Reaches.refl.step (hstep _ _ _) ht rfl he).trans hreaches, hrest⟩

/-! ## Computed runs -/

/-- The configuration after the moves `ms`, as far as they are possible and
    satisfy `ok`. -/
def Config.run (ok : M.Config → M.Move → Bool) : List M.Move → M.Config → Option M.Config
  | [], c => some c
  | m :: ms, c => if ok c m then (c.next m).bind (run ok ms) else none

/-- A list of moves that is run reaches its result. -/
theorem Reaches.of_run {ok : M.Config → M.Move → Bool} {ms : List M.Move} {c c' : M.Config}
    (h : c.run ok ms = some c') : Reaches (fun c m => ok c m = true) c c' := by
  induction ms generalizing c with
  | nil => cases h; exact .refl
  | cons m ms ih =>
    simp only [Config.run] at h
    split_ifs at h with hm
    obtain ⟨c₁, hn, hr⟩ := Option.bind_eq_some_iff.1 h
    exact .trans (.move .refl hm hn) (ih hr)

/-- A run that is computed shows that what `p` checks can be reached. -/
theorem exists_reaches_of_run (ok : M.Config → M.Move → Bool) (ms : List M.Move) (c : M.Config)
    (p : M.Config → Bool) (h : (c.run ok ms).any p = true) :
    ∃ c', Reaches (fun c m => ok c m = true) c c' ∧ p c' = true := by
  cases hr : c.run ok ms with
  | none => simp [hr] at h
  | some c' => exact ⟨c', .of_run hr, by simpa [hr] using h⟩

end Machine

end Interaction
