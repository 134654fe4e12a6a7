import Knowtfolio.Server.Specs
import Knowtfolio.Server.Steps

/-!
# Runs of the server

Runs from the empty world, whatever is interleaved (`Run`). A request makes the
calls that its program may make (`asks_of_asked`), and the writing ones at most
once (`asked_once`). No two requests are given the same id or nonce
(`handsOut_ids`, `handsOut_nonces`).
-/

namespace Knowtfolio

open Interaction Machine

variable [Environment]

/-- The configurations that moves allowed by `ok` lead to from the empty world. -/
abbrev Run (ok : server.Config → server.Move → Prop) (c : server.Config) : Prop :=
  Reaches (M := server) ok (.initial World.initial) c

variable {ok : server.Config → server.Move → Prop} {c : server.Config}

/-- What a request asks next is what it may ask. -/
theorem asks_of_rest (h : Run ok c) {i : ℕ} {t : server.Thread} (ht : c.threads[i]? = some t)
    {o : Op} {k : calls.Ans o → Prog Reply} (hk : t.rest = .ask o k) : Asks t.request t.log o := by
  have hwp := h.rest_wp serve_asks ht
  rw [hk] at hwp
  exact (Program.wp_ask.1 hwp).1

/-- What a request has asked is what it might ask then. -/
theorem asks_of_asked (h : Run ok c) {i : ℕ} {e : calls.Entry} (he : .asked i e ∈ c.history) :
    ∃ t l₁ l₂, c.threads[i]? = some t ∧ t.log = l₁ ++ e :: l₂ ∧ Asks t.request l₁ e.1 := by
  obtain ⟨t, ht, he⟩ := h.exists_thread he
  obtain ⟨l₁, l₂, hl⟩ := List.append_of_mem he
  exact ⟨t, l₁, l₂, ht, hl, h.asked_wp serve_asks i t ht l₁ e l₂ hl⟩

/-- What a request has asked at a place of the history is what it might ask then. -/
theorem asks_at (h : Run ok c) {k i : ℕ} {e : calls.Entry}
    (hk : c.history[k]? = some (.asked i e)) : ∃ t, c.threads[i]? = some t ∧
      Asks t.request (Reaches.logOf (M := server) i (c.history.take k)) e.1 :=
  h.asked_wp_at serve_asks hk

omit [Environment] in
/-- To be of the same kind is symmetric. -/
theorem Op.sameKind_comm (o o' : Op) : o.sameKind o' = o'.sameKind o := by
  cases o <;> cases o' <;> rfl

/-- A request makes a writing call at most once. -/
theorem asked_once (h : Run ok c) {i : ℕ} {e e' : calls.Entry} (he : .asked i e ∈ c.history)
    (he' : .asked i e' ∈ c.history) (hkind : e.1.sameKind e'.1 = true) : e = e' := by
  obtain ⟨t, ht, hmem⟩ := h.exists_thread he
  have hmem' : e' ∈ t.log := (h.mem_log ht).2 he'
  obtain ⟨l₁, l₂, hl⟩ := List.append_of_mem hmem
  rw [hl, List.mem_append, List.mem_cons] at hmem'
  rcases hmem' with hmem' | rfl | hmem'
  · have := (h.asked_wp serve_asks i t ht l₁ e l₂ hl).1 e' hmem'
    rw [Op.sameKind_comm, hkind] at this
    cases this
  · rfl
  · obtain ⟨l₃, l₄, rfl⟩ := List.append_of_mem hmem'
    have := (h.asked_wp serve_asks i t ht (l₁ ++ e :: l₃) e' l₄ (by simp [hl])).1 e (by simp)
    rw [hkind] at this
    cases this

/-- The request that makes a call of a kind, if it is what happens. -/
def asker (kind : Op → Bool) : server.Event → Option ℕ
  | .asked i e => if kind e.1 then some i else none
  | _ => none

/-- Who has made a call of the kind, if the event is one. -/
theorem asker_eq_some {kind : Op → Bool} {x : server.Event} {i : ℕ} :
    asker kind x = some i ↔ ∃ e, x = .asked i e ∧ kind e.1 = true := by
  cases x with
  | asked j e =>
    by_cases hkind : kind e.1 = true
    · simp [asker, hkind, and_comm]
    · simp only [asker, hkind]
      exact ⟨nofun, fun ⟨_, he, hkind'⟩ => by cases he; exact absurd hkind' hkind⟩
  | _ => simp [asker]

/-- The requests that made a call of a kind that no request makes twice. -/
theorem nodup_askers {kind : Op → Bool}
    (hkind : ∀ o o', kind o = true → kind o' = true → o.sameKind o' = true) (h : Run ok c) :
    (c.history.filterMap (asker kind)).Nodup := by
  refine h.induction (fun c : server.Config => (c.history.filterMap (asker kind)).Nodup)
    List.nodup_nil ?_ ?_ ?_
  · intro c r _ hc _
    rw [Config.arrive, List.filterMap_append]
    exact (List.append_nil _).symm ▸ hc
  · intro c i ch t o k ans w' hrun hc _ ht hk _
    rw [Config.step, List.filterMap_append]
    cases ho : kind o with
    | false => simpa [asker, ho] using hc
    | true =>
      have hnew : [Event.asked i ⟨o, ans⟩].filterMap (asker kind) = [i] := by simp [asker, ho]
      rw [hnew]
      -- A request that makes the call now has not made one of its kind before.
      refine List.nodup_append.2 ⟨hc, List.nodup_singleton _, ?_⟩
      rintro j hj _ hj' rfl
      obtain ⟨x, hx, hasker⟩ := List.mem_filterMap.1 hj
      obtain ⟨e, rfl, he⟩ := asker_eq_some.1 hasker
      rw [List.mem_singleton.1 hj'] at hx
      have := (asks_of_rest hrun ht hk).1 _ ((hrun.mem_log ht).2 hx)
      rw [hkind _ _ he ho] at this
      cases this
  · intro c x w' _ hc _ _
    rw [Config.act, List.filterMap_append]
    exact (List.append_nil _).symm ▸ hc

/-! ## Values given once -/

/-- The id that a call was answered. -/
def drawID : calls.Entry → Option String
  | ⟨o, .ok v⟩ => o.drawnID v
  | _ => none

/-- The nonce that a call was answered. -/
def drawNonce : calls.Entry → Option Hash
  | ⟨o, .ok v⟩ => o.drawnNonce v
  | _ => none

/-- Ids are drawn without repetition. -/
theorem handsOut_ids : Reaches.HandsOut server drawID World.ids where
  fresh {w o ch a w' d} he hd := by
    rcases World.exec_cases he with ⟨e, rfl, -⟩ | ⟨v, rfl, heff⟩
    · cases hd
    · have hd : o.drawnID v = some d := hd
      exact ⟨heff.changes.ids_fresh d hd, by rw [heff.changes.ids, hd]; rfl⟩
  other {w o ch a w'} he hd := by
    rcases World.exec_cases he with ⟨e, rfl, rfl⟩ | ⟨v, rfl, heff⟩
    · rfl
    · have hd : o.drawnID v = none := hd
      rw [heff.changes.ids, hd]; rfl
  act h := by rw [World.act_eq h]

/-- So are nonces. -/
theorem handsOut_nonces : Reaches.HandsOut server drawNonce World.nonces where
  fresh {w o ch a w' d} he hd := by
    rcases World.exec_cases he with ⟨e, rfl, -⟩ | ⟨v, rfl, heff⟩
    · cases hd
    · have hd : o.drawnNonce v = some d := hd
      exact ⟨heff.changes.nonces_fresh d hd, by rw [heff.changes.nonces, hd]; rfl⟩
  other {w o ch a w'} he hd := by
    rcases World.exec_cases he with ⟨e, rfl, rfl⟩ | ⟨v, rfl, heff⟩
    · rfl
    · have hd : o.drawnNonce v = none := hd
      rw [heff.changes.nonces, hd]; rfl
  act h := by rw [World.act_eq h]

/-- Generating an id does not fail. -/
theorem not_asked_generateString_error (h : Run ok c) {i n : ℕ} {e : Err} :
    .asked i ⟨.generateString n, .error e⟩ ∉ c.history := fun he => by
  obtain ⟨w, ch, w', hx⟩ := h.asked_exec he
  cases ch with
  | id s =>
    simp only [World.exec] at hx
    split_ifs at hx
    cases hx
  | _ => cases hx

/-- The thread that used an id was given it. -/
theorem asked_of_generated (h : Run ok c) {i : ℕ} {t : server.Thread}
    (ht : c.threads[i]? = some t) {l : Log} (hl : l ⊆ t.log) {s : String} (hs : Generated l s) :
    .asked i (answered (.generateString 11) s) ∈ c.history := by
  rcases hs with hs | ⟨n, e, he⟩
  · exact (h.mem_log ht).1 (hl hs)
  · exact absurd ((h.mem_log ht).1 (hl he)) (not_asked_generateString_error h)

/-! ## Articles that were created -/

/-- An article was created in the run. -/
def Created (c : server.Config) (a : Article) : Prop :=
  ∃ i, .asked i (answered (.create a) ()) ∈ c.history

/-- Of two articles that were created with a common id, of themselves or of their
    documents, one is the other. -/
theorem Created.unique (h : Run ok c) {a a' : Article} (ha : Created c a) (ha' : Created c a')
    (hid : a.id = a'.id ∨ a.document.id = a'.document.id) : a = a' := by
  obtain ⟨i, hi⟩ := ha
  obtain ⟨j, hj⟩ := ha'
  obtain ⟨t, l₁, l₂, ht, hl, -, _, _, _, _, _, _, rfl, hg, hg'⟩ := asks_of_asked h hi
  obtain ⟨u, l₃, l₄, hu, hl', -, _, _, _, _, _, _, rfl, hd, hd'⟩ := asks_of_asked h hj
  have hij : i = j := by
    have hsub : l₁ ⊆ t.log := by rw [hl]; exact List.subset_append_left _ _
    have hsub' : l₃ ⊆ u.log := by rw [hl']; exact List.subset_append_left _ _
    rcases hid with hid | hid
    · exact (h.asked_unique handsOut_ids (asked_of_generated h ht hsub hg)
        (asked_of_generated h hu hsub' hd) (d := _) rfl (congrArg some hid.symm)).1
    · exact (h.asked_unique handsOut_ids (asked_of_generated h ht hsub hg')
        (asked_of_generated h hu hsub' hd') (d := _) rfl (congrArg some hid.symm)).1
  subst hij
  cases asked_once h hi hj rfl
  rfl

/-- The ids of an article about to be created are not those of one created before. -/
theorem not_created_of_rest (h : Run ok c) {i : ℕ} {t : server.Thread}
    (ht : c.threads[i]? = some t) {a : Article} {k : calls.Ans (.create a) → Prog Reply}
    (hk : t.rest = .ask (.create a) k) {a' : Article} (ha' : Created c a') :
    a'.id ≠ a.id ∧ a'.document.id ≠ a.document.id := by
  obtain ⟨honce, _, _, _, _, _, _, rfl, hg, hg'⟩ := asks_of_rest h ht hk
  obtain ⟨j, hj⟩ := ha'
  obtain ⟨u, l₃, l₄, hu, hl', -, _, _, _, _, _, _, rfl, hd, hd'⟩ := asks_of_asked h hj
  have hsub' : l₃ ⊆ u.log := by rw [hl']; exact List.subset_append_left _ _
  -- The thread would have created an article already.
  have hne : ¬ i = j := fun hij => by
    subst hij
    cases ht.symm.trans hu
    have := honce _ ((h.mem_log ht).2 hj)
    cases this
  refine ⟨fun hid => hne ?_, fun hid => hne ?_⟩
  · exact (h.asked_unique handsOut_ids (asked_of_generated h ht (List.Subset.refl _) hg)
      (asked_of_generated h hu hsub' hd) (d := _) rfl (congrArg some hid)).1
  · exact (h.asked_unique handsOut_ids (asked_of_generated h ht (List.Subset.refl _) hg')
      (asked_of_generated h hu hsub' hd') (d := _) rfl (congrArg some hid)).1

end Knowtfolio
