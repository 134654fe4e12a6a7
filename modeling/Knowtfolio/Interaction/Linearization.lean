import Knowtfolio.Interaction.Pool

/-!
# Requests that seem to be served at once

To those who know nothing of the calls of a machine, its world is a state, which its requests
change: an `Abstraction` says what the state is, and which call of a request makes its change.

If every call that is allowed makes the change that it is said to make, and nothing else changes
the state (`Simulates`), then the state is at any time what comes of the changes made, in the
order of the calls that made them (`Simulates.state_eq`). Every call sees, and leaves behind, the
state that has come of the changes until then (`Simulates.asked`): a request, which is being
served for as long as others come and go, seems to be served at the moment of that call.
-/

namespace Interaction.Machine

variable {S : Signature} {ε : Type} {M : Machine S ε} {A L : Type}

/-- What the world of a machine is to those who know nothing of its calls. -/
structure Abstraction (M : Machine S ε) (A L : Type) where
  state : M.World → A
  /-- The change that a call makes for a request, given its answer. -/
  change : M.Request → S.Entry → Option L
  apply : A → L → A

namespace Abstraction

variable (R : Abstraction M A L)

/-- The change that an event makes, given who requests what. -/
def changeOf (c : M.Config) : M.Event → Option L
  | .asked i e => (c.threads[i]?).bind fun t => R.change t.request e
  | _ => none

/-- What comes of the events, given who requests what. -/
def replay (c : M.Config) (h : List M.Event) (a : A) : A :=
  (h.filterMap (R.changeOf c)).foldl R.apply a

/-- What a call makes of a state for a request. -/
def after (r : M.Request) (e : S.Entry) (a : A) : A := (R.change r e).elim a (R.apply a)

/-- The calls that are allowed make the changes that they are said to make, and nothing else
    makes any. -/
structure Simulates (ok : M.Config → M.Move → Prop) (w : M.World) : Prop where
  step : ∀ {c : M.Config} {i : ℕ} {ch : M.Choice} {t : M.Thread} {o : S.Op}
    {k : S.Ans o → Program S ε M.Reply} {x : S.Ans o} {w' : M.World},
    Reaches ok (.initial w) c → ok c (.step i ch) → c.threads[i]? = some t → t.rest = .ask o k →
    M.exec c.world o ch = some (x, w') → R.state w' = R.after t.request ⟨o, x⟩ (R.state c.world)
  act : ∀ {c : M.Config} {x : M.Action} {w' : M.World},
    Reaches ok (.initial w) c → ok c (.act x) → M.act c.world x = some w' →
    R.state w' = R.state c.world

variable {R} {ok : M.Config → M.Move → Prop} {c₀ c c' : M.Config} {w : M.World}

/-- The last event makes its change last. -/
theorem replay_concat (h : List M.Event) (x : M.Event) (a : A) :
    R.replay c (h ++ [x]) a = (R.changeOf c x).elim (R.replay c h a) (R.apply (R.replay c h a)) := by
  simp only [replay, List.filterMap_append, List.foldl_append]
  cases hx : R.changeOf c x <;> simp [hx]

/-- Who has requested what stays as it is. -/
theorem replay_congr (h : Reaches ok (.initial w) c) (h' : Reaches ok c c') {es : List M.Event}
    (hes : es ⊆ c.history) (a : A) : R.replay c' es a = R.replay c es a := by
  have hchange : es.filterMap (R.changeOf c') = es.filterMap (R.changeOf c) := by
    refine List.filterMap_congr fun x hx => ?_
    cases x with
    | asked i e =>
      obtain ⟨t, ht, -⟩ := h.exists_thread (hes hx)
      obtain ⟨t', ht', hrequest, -⟩ := h'.thread_mono ht
      rw [changeOf, changeOf, ht, ht', Option.bind_some, Option.bind_some, hrequest]
    | _ => rfl
  rw [replay, replay, hchange]

/-- The state is what comes of the changes, in the order of the calls that made them. -/
theorem Simulates.state_eq (hR : R.Simulates ok w) (h : Reaches ok (.initial w) c) :
    R.state c.world = R.replay c c.history (R.state w) := by
  -- Who made a change does not depend on what comes after it (`replay_congr`).
  refine h.induction (fun c => R.state c.world = R.replay c c.history (R.state w)) rfl ?_ ?_ ?_
  · intro c r hr hc hm
    have hcongr := replay_congr (R := R) hr (.move .refl hm rfl) (List.Subset.refl _) (R.state w)
    rw [Config.arrive, replay_concat]
    exact hc.trans hcongr.symm
  · intro c i ch t o k x w' hr hc hm ht hk hx
    have hcongr := replay_congr (R := R) hr (Reaches.refl.step hm ht hk hx) (List.Subset.refl _)
      (R.state w)
    have hstep := hR.step hr hm ht hk hx
    rw [hc, ← hcongr] at hstep
    show R.state w' = R.replay _ (c.history ++ [.asked i ⟨o, x⟩]) _
    rw [replay_concat, changeOf, Config.getElem?_step_self ht, Option.bind_some]
    exact hstep
  · intro c x w' hr hc hm hx
    have hcongr := replay_congr (R := R) hr (.move .refl hm (congrArg (Option.map _) hx))
      (List.Subset.refl _) (R.state w)
    show R.state w' = R.replay _ (c.history ++ [.acted x]) _
    rw [replay_concat, hR.act hr hm hx, hc]
    exact hcongr.symm

/-- Every call of a request sees the state that has come of the changes until then, and leaves
    behind what has come of them with its own. -/
theorem Simulates.asked (hR : R.Simulates ok w) (h : Reaches ok (.initial w) c) {i : ℕ}
    {t : M.Thread} (ht : c.threads[i]? = some t) {e : S.Entry} (he : e ∈ t.log) :
    ∃ (c₁ : M.Config) (t₁ : M.Thread) (k : S.Ans e.1 → Program S ε M.Reply) (ch : M.Choice)
      (w₁ : M.World) (h₂ : List M.Event), Reaches ok (.initial w) c₁ ∧ ok c₁ (.step i ch) ∧
      c₁.threads[i]? = some t₁ ∧ t₁.request = t.request ∧ t₁.rest = .ask e.1 k ∧
      M.exec c₁.world e.1 ch = some (e.2, w₁) ∧ c.history = c₁.history ++ .asked i e :: h₂ ∧
      R.state c₁.world = R.replay c c₁.history (R.state w) ∧
      R.state w₁ = R.replay c (c₁.history ++ [.asked i e]) (R.state w) := by
  obtain ⟨l₁, l₂, hl⟩ := List.append_of_mem he
  obtain ⟨c₁, t₁, k, ch, w₁, h₁, hm, ht₁, -, hk, hx, h₂⟩ := h.logged_move ht hl
  have hstep : Reaches ok (.initial w) (c₁.step i t₁ e (k e.2) w₁) := h₁.step hm ht₁ hk hx
  obtain ⟨t', ht', hrequest, -⟩ := h₂.thread_mono (Config.getElem?_step_self ht₁)
  obtain rfl : t = t' := Option.some.inj (ht.symm.trans ht')
  obtain ⟨es, hes⟩ := h₂.history_prefix
  refine ⟨c₁, t₁, k, ch, w₁, es, h₁, hm, ht₁, hrequest.symm, hk, hx, ?_, ?_, ?_⟩
  · rw [← hes, Config.step, List.append_assoc, List.singleton_append]
  · rw [hR.state_eq h₁]
    exact (replay_congr h₁ ((Reaches.refl.step hm ht₁ hk hx).trans h₂) (List.Subset.refl _) _).symm
  · exact (hR.state_eq hstep).trans (replay_congr hstep h₂ (List.Subset.refl _) _).symm

/-! ## Acknowledgements -/

/-- Every request makes the change that its reply tells of, and none if it fails. -/
def Acknowledges (R : Abstraction M A L) (tells : M.Request → M.Reply → Option L) : Prop :=
  ∀ r, (M.program r).wp (fun _ _ => True)
    (fun l res => l.filterMap (R.change r) = (res.toOption.bind (tells r)).toList) []

/-- The change that the reply of a thread tells of, when it has one. -/
def told (tells : M.Request → M.Reply → Option L) (c : M.Config) (i : ℕ) : Option L :=
  (c.threads[i]?).bind fun t => t.rest.outcome.bind fun res => res.toOption.bind (tells t.request)

/-- The number of the thread that makes a change by an event. -/
def changer (R : Abstraction M A L) (c : M.Config) : M.Event → Option ℕ
  | .asked i e => (R.changeOf c (.asked i e)).map fun _ => i
  | _ => none

/-- The order is that of requests which are served one by one. -/
structure Serial (R : Abstraction M A L) (tells : M.Request → M.Reply → Option L)
    (ok : M.Config → M.Move → Prop) (w : M.World) (c : M.Config) (order : List ℕ) : Prop where
  nodup : order.Nodup
  mem_iff : ∀ i, i ∈ order ↔ (told tells c i).isSome
  state_eq : R.state c.world = (order.filterMap (told tells c)).foldl R.apply (R.state w)
  /-- At any time, the first of them have been served: they have arrived, and the others have not
      been answered. -/
  split : ∀ c₁, Reaches ok (.initial w) c₁ → Reaches ok c₁ c → ∃ before after,
    order = before ++ after ∧
    R.state c₁.world = (before.filterMap (told tells c)).foldl R.apply (R.state w) ∧
    (∀ i ∈ before, i < c₁.threads.length) ∧
    ∀ i ∈ after, ∀ t : M.Thread, c₁.threads[i]? = some t → ¬ t.rest.Done

section

variable {tells : M.Request → M.Reply → Option L} {i : ℕ} {t : M.Thread}

/-- What a thread that has ended tells of. -/
theorem told_of_outcome (ht : c.threads[i]? = some t) {res : Except ε M.Reply}
    (hres : t.rest.outcome = some res) : told tells c i = res.toOption.bind (tells t.request) := by
  rw [told, ht, Option.bind_some, hres, Option.bind_some]

/-- The numbers of the changes of a thread are as many as its changes. -/
theorem count_changer (ht : c.threads[i]? = some t) (h : List M.Event) :
    (h.filterMap (R.changer c)).count i =
      ((Reaches.logOf i h).filterMap (R.change t.request)).length := by
  induction h with
  | nil => rfl
  | cons x h ih =>
    -- An event counts for the thread that it is of, if it is a change.
    have hcons : (R.changer c x).toList.count i =
        ((Reaches.logOf i [x]).filterMap (R.change t.request)).length := by
      cases x with
      | asked j e =>
        by_cases hj : j = i
        · subst hj
          cases hx : R.change t.request e <;> simp [changer, changeOf, ht, hx, Reaches.logOf]
        · have hnil : Reaches.logOf i [(.asked j e : M.Event)] = [] := by simp [Reaches.logOf, hj]
          cases hx : R.changeOf c (.asked j e) <;> simp [changer, hx, hnil, hj]
      | _ => rfl
    have hsplit : (x :: h).filterMap (R.changer c) =
        (R.changer c x).toList ++ h.filterMap (R.changer c) := by
      cases hx : R.changer c x <;> simp [hx]
    have hlog : Reaches.logOf i (x :: h) = Reaches.logOf i [x] ++ Reaches.logOf i h :=
      Reaches.logOf_append i [x] h
    rw [hsplit, List.count_append, ih, hcons, hlog, List.filterMap_append, List.length_append]

/-- A thread that changes something has asked something. -/
theorem exists_asked_of_changer {h : List M.Event} (hi : i ∈ h.filterMap (R.changer c)) :
    ∃ e, .asked i e ∈ h := by
  obtain ⟨x, hx, hchanger⟩ := List.mem_filterMap.1 hi
  cases x with
  | asked j e =>
    obtain ⟨y, -, rfl⟩ := Option.map_eq_some_iff.1 hchanger
    exact ⟨e, hx⟩
  | _ => cases hchanger

variable (hack : R.Acknowledges tells) (h : Reaches ok (.initial w) c)

include hack h

/-- What a thread has changed is what its reply tells of. -/
theorem changes_eq_told (ht : c.threads[i]? = some t) (hdone : t.rest.Done) :
    (Reaches.logOf i c.history).filterMap (R.change t.request) = (told tells c i).toList := by
  obtain ⟨res, hres⟩ := hdone.exists_outcome
  have hwp := Program.wp_of_outcome (h.rest_wp (P := fun _ _ _ => True) hack ht) hres
  rw [← h.log_eq.1 i t ht, told_of_outcome ht hres]
  exact hwp

/-- A thread which has ended has made the change that its reply tells of, and no other. -/
theorem told_eq_some (ht : c.threads[i]? = some t) (hdone : t.rest.Done) {x : L} :
    told tells c i = some x ↔ ∃ e, .asked i e ∈ c.history ∧ R.changeOf c (.asked i e) = some x := by
  rw [← Option.mem_toList, ← changes_eq_told hack h ht hdone, List.mem_filterMap]
  simp only [Reaches.mem_logOf, changeOf, ht, Option.bind_some]

/-- A thread has made a change if its reply tells of one, and not twice. -/
theorem count_changer_eq (hquiet : c.Quiet) (i : ℕ) :
    (c.history.filterMap (R.changer c)).count i = (told tells c i).toList.length := by
  cases ht : c.threads[i]? with
  | some t =>
    rw [count_changer ht, changes_eq_told hack h ht (hquiet t (List.mem_of_getElem? ht))]
  | none =>
    rw [told, ht]
    refine List.count_eq_zero.2 fun hi => ?_
    obtain ⟨e, he⟩ := exists_asked_of_changer hi
    obtain ⟨t, ht', -⟩ := h.exists_thread he
    cases ht.symm.trans ht'

/-- A change that was made is the one that the reply of its thread tells of. -/
theorem told_of_changeOf (hquiet : c.Quiet) {x : M.Event} (hx : x ∈ c.history) :
    (R.changer c x).bind (told tells c) = R.changeOf c x := by
  cases x with
  | asked i e =>
    obtain ⟨t, ht, hmem⟩ := h.exists_thread hx
    rw [changer, changeOf, ht, Option.bind_some]
    cases hchange : R.change t.request e with
    | none => rfl
    | some y =>
      have hy : y ∈ (Reaches.logOf i c.history).filterMap (R.change t.request) :=
        List.mem_filterMap.2 ⟨e, Reaches.mem_logOf.2 hx, hchange⟩
      rw [changes_eq_told hack h ht (hquiet t (List.mem_of_getElem? ht)), Option.mem_toList] at hy
      exact hy
  | _ => rfl

end

/-- When no request is in progress, the state is what comes of those that were answered without
    an error, served one by one: in an order which they might have been served in. -/
theorem Simulates.exists_serial {tells : M.Request → M.Reply → Option L} (hR : R.Simulates ok w)
    (hack : R.Acknowledges tells) (h : Reaches ok (.initial w) c) (hquiet : c.Quiet) :
    ∃ order, Serial R tells ok w c order := by
  have hcount := count_changer_eq hack h hquiet
  -- Without a request in progress, the changes that were made are those that are told of.
  have hreplay : ∀ es ⊆ c.history, R.replay c es (R.state w) =
      ((es.filterMap (R.changer c)).filterMap (told tells c)).foldl R.apply (R.state w) := by
    intro es hes
    rw [replay, List.filterMap_filterMap]
    exact congrArg (List.foldl R.apply (R.state w))
      (List.filterMap_congr fun x hx => (told_of_changeOf hack h hquiet (hes hx)).symm)
  refine ⟨c.history.filterMap (R.changer c), ?_, fun i => ?_, ?_, fun c₁ h₁ h₂ => ?_⟩
  · refine List.nodup_iff_count_le_one.2 fun i => ?_
    rw [hcount]
    exact Option.length_toList_le
  · rw [← List.count_pos_iff, hcount]
    cases told tells c i <;> simp
  · rw [hR.state_eq h, hreplay _ (List.Subset.refl _)]
  · -- What was told of earlier is a prefix of the order, whatever happened since.
    obtain ⟨es, hes⟩ := h₂.history_prefix
    refine ⟨c₁.history.filterMap (R.changer c), es.filterMap (R.changer c), ?_, ?_, fun i hi => ?_,
      fun i hi t ht hdone => ?_⟩
    · rw [← hes, List.filterMap_append]
    · rw [hR.state_eq h₁, ← replay_congr h₁ h₂ (List.Subset.refl _),
        hreplay _ h₂.history_prefix.subset]
    · obtain ⟨e, he⟩ := exists_asked_of_changer hi
      obtain ⟨t, ht, -⟩ := h₁.exists_thread he
      exact (List.getElem?_eq_some_iff.1 ht).1
    · -- A thread that has been answered asks nothing any more.
      obtain ⟨t', ht', -, heq⟩ := h₂.thread_mono ht
      obtain rfl := heq hdone
      have hlog : t'.log ++ Reaches.logOf i es = t'.log := by
        conv_lhs => rw [h₁.log_eq.1 i t' ht]
        rw [h.log_eq.1 i t' ht', ← hes, Reaches.logOf_append]
      obtain ⟨e, he⟩ := exists_asked_of_changer hi
      rw [← Reaches.mem_logOf, List.append_right_eq_self.1 hlog] at he
      cases he

end Abstraction

end Interaction.Machine
