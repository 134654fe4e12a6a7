import Knowtfolio.Interaction.Pool
import Knowtfolio.Interaction.Trace

/-!
# Sessions

Those who send requests to a machine run programs too. Some operations of such a program send a
request, and are answered by what the thread that serves it ends with; the others are answered by
something else. Which are which is said by a `Frontend`.

In a `Session`, such a program runs beside everything else that the machine serves. An operation
may get another answer before its request has arrived, which then never does; or while it waits for
the thread to end: then the response is lost, and the request goes on being served. So every answer
that is one to a request is the result of a thread that serves it (`Reaches.answered`); and if no
response is lost, every request that has arrived gives an answer (`Reaches.of_sent`).
-/

namespace Interaction

variable {S T : Signature} {ε δ β : Type} {M : Machine S ε}

/-- A program that runs beside what a machine serves. -/
structure Session (M : Machine S ε) (T : Signature) (δ β : Type) where
  server : M.Config
  /-- The threads of the requests that were sent. -/
  sent : List ℕ
  /-- The thread of the request that was sent for the operation which comes next. -/
  waiting : Option ℕ
  log : T.Log
  rest : Program T δ β

namespace Session

/-- A program starts. -/
def start (server : M.Config) (p : Program T δ β) : Session M T δ β := ⟨server, [], none, [], p⟩

/-- The request `r` is sent. -/
def send (c : Session M T δ β) (r : M.Request) : Session M T δ β where
  server := c.server.arrive r
  sent := c.sent ++ [c.server.threads.length]
  waiting := some c.server.threads.length
  log := c.log
  rest := c.rest

/-- The program has asked `e`, and goes on with `p`. -/
def goOn (c : Session M T δ β) (e : T.Entry) (p : Program T δ β) : Session M T δ β where
  server := c.server
  sent := c.sent
  waiting := none
  log := c.log ++ [e]
  rest := p

end Session

/-- How the operations of a program are answered. -/
structure Frontend (M : Machine S ε) (T : Signature) where
  /-- What is open in the answers that are not the results of a request. -/
  Choice : Type
  /-- The request that an operation sends, if it sends one. -/
  request : T.Op → Option M.Request
  /-- The answer to an operation whose request has ended. -/
  reply : (o : T.Op) → Except ε M.Reply → T.Ans o
  /-- The other answers; `none` if there is no such answer. -/
  answer : M.World → (o : T.Op) → Choice → Option (T.Ans o)

namespace Frontend

variable (K : Frontend M T)

/-- What may happen next: a move of the machine, or the program sends the request of its operation,
    receives the result of it, or gets another answer. -/
inductive Move
  | serve (m : M.Move)
  | send
  | receive
  | answer (ch : K.Choice)

/-- The session after a move, if the move is possible. -/
def next (c : Session M T δ β) : K.Move → Option (Session M T δ β)
  | .serve m => (c.server.next m).map fun s => { c with server := s }
  | .send =>
    match c.rest, c.waiting with
    | .ask o _, none => (K.request o).map c.send
    | _, _ => none
  | .receive =>
    match c.rest, c.waiting with
    | .ask o k, some i => ((c.server.threads[i]?).bind fun t => t.rest.outcome).map fun r =>
      c.goOn ⟨o, K.reply o r⟩ (k (K.reply o r))
    | _, _ => none
  | .answer ch =>
    match c.rest with
    | .ask o k => (K.answer c.server.world o ch).map fun a => c.goOn ⟨o, a⟩ (k a)
    | _ => none

variable {K} {c c' : Session M T δ β}

/-- The machine moves, and the program waits. -/
theorem next_serve {m : M.Move} (h : K.next c (.serve m) = some c') :
    ∃ s, c.server.next m = some s ∧ c' = { c with server := s } := by
  obtain ⟨s, hs, rfl⟩ := Option.map_eq_some_iff.1 h
  exact ⟨s, hs, rfl⟩

/-- A request is sent for the operation that comes next, once. -/
theorem next_send (h : K.next c .send = some c') :
    ∃ o k r, c.rest = .ask o k ∧ c.waiting = none ∧ K.request o = some r ∧ c' = c.send r := by
  simp only [next] at h
  split at h
  next o k hrest hwaiting =>
    obtain ⟨r, hr, rfl⟩ := Option.map_eq_some_iff.1 h
    exact ⟨o, k, r, hrest, hwaiting, hr, rfl⟩
  next => cases h

/-- What is received is the result of the thread that the program waits for. -/
theorem next_receive (h : K.next c .receive = some c') :
    ∃ o k i t r, c.rest = .ask o k ∧ c.waiting = some i ∧ c.server.threads[i]? = some t ∧
      t.rest.outcome = some r ∧ c' = c.goOn ⟨o, K.reply o r⟩ (k (K.reply o r)) := by
  simp only [next] at h
  split at h
  next o k i hrest hwaiting =>
    obtain ⟨r, hr, rfl⟩ := Option.map_eq_some_iff.1 h
    obtain ⟨t, ht, hr⟩ := Option.bind_eq_some_iff.1 hr
    exact ⟨o, k, i, t, r, hrest, hwaiting, ht, hr, rfl⟩
  next => cases h

/-- The program goes on with another answer. -/
theorem next_answer {ch : K.Choice} (h : K.next c (.answer ch) = some c') :
    ∃ o k a, c.rest = .ask o k ∧ K.answer c.server.world o ch = some a ∧
      c' = c.goOn ⟨o, a⟩ (k a) := by
  simp only [next] at h
  split at h
  next o k hrest =>
    obtain ⟨a, ha, rfl⟩ := Option.map_eq_some_iff.1 h
    exact ⟨o, k, a, hrest, ha, rfl⟩
  next => cases h

/-! ## Runs -/

variable (K) in
/-- The sessions that a run from `c₀` gets to by moves that `ok` allows. -/
abbrev Reaches (ok : Session M T δ β → K.Move → Prop) (c₀ : Session M T δ β) :
    Session M T δ β → Prop :=
  Trace.Reaches K.next ok c₀

/-- The machine moves, and gets requests, as `ok` allows. -/
def Allowed (ok : M.Config → M.Move → Prop) (c : Session M T δ β) : K.Move → Prop
  | .serve m => ok c.server m
  | .send => ∀ o k r, c.rest = .ask o k → K.request o = some r → ok c.server (.arrive r)
  | _ => True

/-- No response is lost: an operation whose request has arrived is answered by its result only. -/
def Lossless (c : Session M T δ β) : K.Move → Prop
  | .answer _ => c.waiting = none
  | _ => True

/-- The thread `i` serves the request of an operation, and has ended with what is its answer. -/
def Answers (K : Frontend M T) (s : M.Config) (i : ℕ) (e : T.Entry) : Prop :=
  ∃ t r, s.threads[i]? = some t ∧ K.request e.1 = some t.request ∧ t.rest.outcome = some r ∧
    e.2 = K.reply e.1 r

/-- The thread `i` serves the request of the operation that comes next. -/
def Serves (K : Frontend M T) (c : Session M T δ β) (i : ℕ) : Prop :=
  i ∈ c.sent ∧ ∃ o k t, c.rest = .ask o k ∧ c.server.threads[i]? = some t ∧
    K.request o = some t.request

/-- A move of the server is a run of it. -/
theorem reaches_of_next {m : M.Move} {s s' : M.Config} (h : s.next m = some s') :
    Machine.Reaches Machine.Any s s' :=
  .move .refl trivial h

/-- So is the arrival of a request. -/
theorem reaches_send {r : M.Request} : Machine.Reaches Machine.Any c.server (c.send r).server :=
  reaches_of_next (m := .arrive r) rfl

/-- A thread that has ended stays as it is. -/
theorem Answers.mono {ok : M.Config → M.Move → Prop} {s s' : M.Config} {i : ℕ} {e : T.Entry}
    (h : K.Answers s i e) (hs : Machine.Reaches ok s s') : K.Answers s' i e := by
  obtain ⟨t, r, ht, hrequest, hr, heq⟩ := h
  obtain ⟨t', ht', -, hdone⟩ := hs.thread_mono ht
  obtain rfl := hdone (Program.done_of_outcome hr)
  exact ⟨t', r, ht', hrequest, hr, heq⟩

/-- A thread keeps its request. -/
theorem Serves.mono {ok : M.Config → M.Move → Prop} {s : M.Config} {i : ℕ} (h : K.Serves c i)
    (hs : Machine.Reaches ok c.server s) : K.Serves { c with server := s } i := by
  obtain ⟨hi, o, k, t, hrest, ht, hrequest⟩ := h
  obtain ⟨t', ht', hsame, -⟩ := hs.thread_mono ht
  exact ⟨hi, o, k, t', hrest, ht', hsame ▸ hrequest⟩

/-- The request that is sent gets a thread of its own. -/
theorem serves_send {o : T.Op} {k : T.Ans o → Program T δ β} {r : M.Request}
    (hrest : c.rest = .ask o k) (hr : K.request o = some r) :
    K.Serves (c.send r) c.server.threads.length := by
  refine ⟨List.mem_append_right _ (List.mem_singleton.2 rfl), o, k, ⟨r, [], M.program r⟩, hrest, ?_,
    hr⟩
  simp [Session.send, Machine.Config.arrive]

namespace Reaches

variable {ok : Session M T δ β → K.Move → Prop} {c₀ : Session M T δ β} {s₀ : M.Config}
  {p : Program T δ β}

/-- Proofs about sessions: what is kept by a move of the machine, by a request that is sent, by a
    result that is received and by another answer. -/
theorem induction (I : Session M T δ β → Prop) (h : K.Reaches ok c₀ c) (init : I c₀)
    (serve : ∀ c m s, K.Reaches ok c₀ c → I c → ok c (.serve m) → c.server.next m = some s →
      I { c with server := s })
    (send : ∀ c o k r, K.Reaches ok c₀ c → I c → ok c .send → c.rest = .ask o k →
      c.waiting = none → K.request o = some r → I (c.send r))
    (receive : ∀ c o k i t r, K.Reaches ok c₀ c → I c → ok c .receive → c.rest = .ask o k →
      c.waiting = some i → c.server.threads[i]? = some t → t.rest.outcome = some r →
      I (c.goOn ⟨o, K.reply o r⟩ (k (K.reply o r))))
    (answer : ∀ c o k ch a, K.Reaches ok c₀ c → I c → ok c (.answer ch) → c.rest = .ask o k →
      K.answer c.server.world o ch = some a → I (c.goOn ⟨o, a⟩ (k a))) : I c := by
  refine Trace.Reaches.invariant I h init fun c m c' hr hc hm hn => ?_
  cases m with
  | serve m =>
    obtain ⟨s, hs, rfl⟩ := next_serve hn
    exact serve c m s hr hc hm hs
  | send =>
    obtain ⟨o, k, r, hrest, hwaiting, hrequest, rfl⟩ := next_send hn
    exact send c o k r hr hc hm hrest hwaiting hrequest
  | receive =>
    obtain ⟨o, k, i, t, r, hrest, hwaiting, ht, hresult, rfl⟩ := next_receive hn
    exact receive c o k i t r hr hc hm hrest hwaiting ht hresult
  | answer ch =>
    obtain ⟨o, k, a, hrest, ha, rfl⟩ := next_answer hn
    exact answer c o k ch a hr hc hm hrest ha

/-- The machine runs as it does for whoever else sends requests to it. -/
theorem server {okM : M.Config → M.Move → Prop} (hok : ∀ c m, ok c m → Allowed okM c m)
    (h : K.Reaches ok c₀ c) : Machine.Reaches okM c₀.server c.server := by
  refine h.induction (fun c => Machine.Reaches okM c₀.server c.server) .refl ?_ ?_ ?_ ?_
  · exact fun c m s _ hc hm hs => hc.move (hok _ _ hm) hs
  · exact fun c o k r _ hc hm hrest _ hr => hc.move (hok _ _ hm o k r hrest hr) rfl
  · exact fun _ _ _ _ _ _ _ hc _ _ _ _ _ => hc
  · exact fun _ _ _ _ _ _ hc _ _ _ => hc

/-- What is left of the program does what the program may do. -/
theorem wp {P : T.Log → T.Op → Prop} {Q : T.Log → Except δ β → Prop} (hp : p.wp P Q [])
    (h : K.Reaches ok (.start s₀ p) c) : c.rest.wp P Q c.log := by
  have hstep : ∀ {c : Session M T δ β} {o : T.Op} {k : T.Ans o → Program T δ β},
      c.rest.wp P Q c.log → c.rest = .ask o k → ∀ a, (k a).wp P Q (c.log ++ [⟨o, a⟩]) := by
    intro c o k hc hrest a
    rw [hrest] at hc
    exact (Program.wp_ask.1 hc).2 a
  refine h.induction (fun c => c.rest.wp P Q c.log) hp (fun _ _ _ _ hc _ _ => hc)
    (fun _ _ _ _ _ hc _ _ _ _ => hc) ?_ ?_
  · exact fun c o k i t r _ hc _ hrest _ _ _ => hstep hc hrest _
  · exact fun c o k ch a _ hc _ hrest _ => hstep hc hrest _

/-- The program waits for a thread which serves the request of its operation. -/
theorem waiting (h : K.Reaches ok (.start s₀ p) c) : ∀ i ∈ c.waiting, K.Serves c i := by
  refine h.induction (fun c => ∀ i ∈ c.waiting, K.Serves c i) (fun i hi => by cases hi) ?_ ?_
    (fun _ _ _ _ _ _ _ _ _ _ _ _ _ i hi => by cases hi)
    (fun _ _ _ _ _ _ _ _ _ _ i hi => by cases hi)
  · exact fun c m s _ hc _ hs i hi => (hc i hi).mono (reaches_of_next hs)
  · intro c o k r _ _ _ hrest _ hr i hi
    cases hi
    exact serves_send hrest hr

/-- What is received is the result of the thread that the program waits for. -/
theorem answers_of_waiting (h : K.Reaches ok (.start s₀ p) c) {i : ℕ} (hi : c.waiting = some i)
    {o : T.Op} {k : T.Ans o → Program T δ β} (hrest : c.rest = .ask o k) {t : M.Thread}
    {r : Except ε M.Reply} (ht : c.server.threads[i]? = some t) (hr : t.rest.outcome = some r) :
    i ∈ c.sent ∧ K.Answers c.server i ⟨o, K.reply o r⟩ := by
  obtain ⟨hsent, o', k', t', hrest', ht', hrequest⟩ := h.waiting i hi
  cases hrest.symm.trans hrest'
  cases ht.symm.trans ht'
  exact ⟨hsent, t, r, ht, hrequest, hr, rfl⟩

/-- Every answer is the result of a request that was sent for its operation, or another one. -/
theorem answered (h : K.Reaches ok (.start s₀ p) c) : ∀ e ∈ c.log,
    (∃ i ∈ c.sent, K.Answers c.server i e) ∨ ∃ w ch, K.answer w e.1 ch = some e.2 := by
  -- The log grows where a thread is received from, or where the answer comes from elsewhere.
  refine h.induction (fun c => ∀ e ∈ c.log, (∃ i ∈ c.sent, K.Answers c.server i e) ∨
    ∃ w ch, K.answer w e.1 ch = some e.2) (fun e he => absurd he List.not_mem_nil) ?_ ?_ ?_ ?_
  · intro c m s _ hc _ hs e he
    refine (hc e he).imp_left ?_
    rintro ⟨i, hi, hanswers⟩
    exact ⟨i, hi, hanswers.mono (reaches_of_next hs)⟩
  · intro c o k r _ hc _ _ _ _ e he
    refine (hc e he).imp_left ?_
    rintro ⟨i, hi, hanswers⟩
    exact ⟨i, List.mem_append_left _ hi, hanswers.mono reaches_send⟩
  · intro c o k i t r hrun hc _ hrest hwaiting ht hr e he
    rcases List.mem_append.1 he with he | he
    · exact hc e he
    · rw [List.mem_singleton.1 he]
      exact .inl ⟨i, hrun.answers_of_waiting hwaiting hrest ht hr⟩
  · intro c o k ch a _ hc _ _ ha e he
    rcases List.mem_append.1 he with he | he
    · exact hc e he
    · rw [List.mem_singleton.1 he]
      exact .inr ⟨_, ch, ha⟩

/-- If no response is lost, every request that has been sent gives an answer, unless the program
    waits for it. -/
theorem of_sent (hok : ∀ c m, ok c m → Lossless c m) (h : K.Reaches ok (.start s₀ p) c) :
    ∀ i ∈ c.sent, c.waiting = some i ∨ ∃ e ∈ c.log, K.Answers c.server i e := by
  -- An answer stays one, whatever the server and the program do after it.
  have hkeep : ∀ {l l' : T.Log} {s s' : M.Config} {i : ℕ}, (∃ e ∈ l, K.Answers s i e) → l ⊆ l' →
      Machine.Reaches Machine.Any s s' → ∃ e ∈ l', K.Answers s' i e :=
    fun ⟨e, he, hanswers⟩ hl hs => ⟨e, hl he, hanswers.mono hs⟩
  refine h.induction (fun c => ∀ i ∈ c.sent, c.waiting = some i ∨
    ∃ e ∈ c.log, K.Answers c.server i e) (fun i hi => absurd hi List.not_mem_nil) ?_ ?_ ?_ ?_
  · intro c m s _ hc _ hs i hi
    have hreaches := reaches_of_next hs
    exact (hc i hi).imp_right fun hanswers => hkeep hanswers (List.Subset.refl _) hreaches
  · intro c o k r _ hc _ _ hwaiting _ i hi
    rcases List.mem_append.1 hi with hi | hi
    · refine .inr (hkeep ((hc i hi).resolve_left fun h => ?_) (List.Subset.refl _) reaches_send)
      cases hwaiting.symm.trans h
    · rw [List.mem_singleton.1 hi]
      exact .inl rfl
  · intro c o k j t r hrun hc _ hrest hwaiting ht hr i hi
    rcases hc i hi with hi | hanswers
    · -- The program has waited for this one.
      cases hwaiting.symm.trans hi
      exact .inr ⟨_, List.mem_append_right _ (List.mem_singleton.2 rfl),
        (hrun.answers_of_waiting hwaiting hrest ht hr).2⟩
    · exact .inr (hkeep hanswers (List.subset_append_left _ _) .refl)
  · intro c o k ch a hrun hc hm hrest _ i hi
    rcases hc i hi with hi | hanswers
    · -- An answer that is given otherwise is to an operation whose request has not arrived.
      rw [show c.waiting = none from hok c _ hm] at hi
      cases hi
    · exact .inr (hkeep hanswers (List.subset_append_left _ _) .refl)

end Reaches

end Frontend

end Interaction
