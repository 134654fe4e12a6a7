import Mathlib.Data.List.Induction
import Mathlib.Data.Option.Basic

/-!
# Traces of a step function

A step function gives, of a state and a move, the state after the move, if the move is
possible. A trace is a list of moves, taken one after the other (`Trace.run`). Unlike
what is known of a reachable state, what is known of a trace may speak of the order in
which its moves were taken: such facts are kept from one move to the next
(`Trace.induction`). `Trace.Reaches` is of what is reached by moves that are allowed.
-/

namespace Interaction.Trace

variable {σ μ : Type} {next : σ → μ → Option σ} {c₀ c c' : σ} {ms ms' : List μ} {m : μ}

/-- The state after a trace, if its moves are possible. -/
def run (next : σ → μ → Option σ) (c : σ) (ms : List μ) : Option σ := ms.foldlM next c

@[simp] theorem run_nil : run next c [] = some c := rfl

/-- The moves of a run are made one after the other. -/
theorem run_append : run next c₀ (ms ++ ms') = (run next c₀ ms).bind (run next · ms') :=
  List.foldlM_append

/-- The last move of a trace is taken in the state that the other moves lead to. -/
theorem run_concat : run next c₀ (ms ++ [m]) = some c' ↔
    ∃ c, run next c₀ ms = some c ∧ next c m = some c' := by
  have hm : ∀ c, run next c [m] = next c m := fun c => Option.bind_fun_some (next c m)
  rw [run_append, Option.bind_eq_some_iff]
  simp only [hm]

/-- What comes after a part of a trace is a trace from the state that this leads to. -/
theorem run_of_append (h : run next c₀ (ms ++ ms') = some c') (hms : run next c₀ ms = some c) :
    run next c ms' = some c' := by
  rw [run_append, hms] at h
  exact h

/-- What holds of the empty trace, and is kept when another move is taken, holds of every
    trace. -/
theorem induction (I : List μ → σ → Prop) (h : run next c₀ ms = some c) (nil : I [] c₀)
    (concat : ∀ ms c m c', run next c₀ ms = some c → I ms c → next c m = some c' →
      I (ms ++ [m]) c') : I ms c := by
  induction ms using List.reverseRecOn generalizing c with
  | nil =>
    cases h
    exact nil
  | append_singleton ms m ih =>
    obtain ⟨c₁, hms, hm⟩ := run_concat.1 h
    exact concat ms c₁ m c hms (ih hms) hm

/-- An invariant of the step function. -/
theorem invariant (I : σ → Prop) (h : run next c₀ ms = some c) (init : I c₀)
    (step : ∀ c m c', I c → next c m = some c' → I c') : I c :=
  induction (fun _ => I) h init fun _ c m c' _ hc hn => step c m c' hc hn

/-- What the moves of a trace keep, holds after it. -/
theorem invariant_of_forall (I : σ → Prop) {P : μ → Prop} (h : run next c₀ ms = some c)
    (hms : ∀ m ∈ ms, P m) (init : I c₀)
    (step : ∀ c m c', P m → I c → next c m = some c' → I c') : I c := by
  refine Trace.induction (fun ms c => (∀ m ∈ ms, P m) → I c) h (fun _ => init) ?_ hms
  intro ms c m c' _ ih hn hms
  rw [List.forall_mem_append, List.forall_mem_singleton] at hms
  exact step c m c' hms.2 (ih hms.1) hn

/-- A trace through a given move. -/
theorem run_append_cons (h : run next c₀ (ms ++ m :: ms') = some c') :
    ∃ c₁ c₂, run next c₀ ms = some c₁ ∧ next c₁ m = some c₂ ∧ run next c₂ ms' = some c' := by
  rw [run_append, Option.bind_eq_some_iff] at h
  obtain ⟨c₁, hms, hrest⟩ := h
  obtain ⟨c₂, hm, hms'⟩ := Option.bind_eq_some_iff.1 hrest
  exact ⟨c₁, c₂, hms, hm, hms'⟩

/-! ## What is reached -/

/-- The states that a trace from `c₀` leads to, by moves that `ok` allows. -/
inductive Reaches (next : σ → μ → Option σ) (ok : σ → μ → Prop) (c₀ : σ) : σ → Prop
  | refl : Reaches next ok c₀ c₀
  | move {c c' : σ} {m : μ} :
      Reaches next ok c₀ c → ok c m → next c m = some c' → Reaches next ok c₀ c'

/-- Every move is allowed. -/
def Any (_ : σ) (_ : μ) : Prop := True

namespace Reaches

variable {ok ok' : σ → μ → Prop} {c₁ : σ}

/-- A run that keeps to a condition keeps to a weaker one. -/
theorem mono (hok : ∀ c m, ok c m → ok' c m) (h : Reaches next ok c₀ c) :
    Reaches next ok' c₀ c := by
  induction h with
  | refl => exact .refl
  | move _ hm hn ih => exact .move ih (hok _ _ hm) hn

/-- Every run is one without a condition. -/
theorem any (h : Reaches next ok c₀ c) : Reaches next Any c₀ c := h.mono fun _ _ _ => trivial

/-- Runs go on from where others have ended. -/
theorem trans (h₁ : Reaches next ok c₀ c₁) (h₂ : Reaches next ok c₁ c) :
    Reaches next ok c₀ c := by
  induction h₂ with
  | refl => exact h₁
  | move _ hm hn ih => exact .move ih hm hn

/-- An invariant of the moves that are allowed. -/
theorem invariant (I : σ → Prop) (h : Reaches next ok c₀ c) (init : I c₀)
    (step : ∀ c m c', Reaches next ok c₀ c → I c → ok c m → next c m = some c' → I c') :
    I c := by
  induction h with
  | refl => exact init
  | move hr hm hn ih => exact step _ _ _ hr ih hm hn

/-- A trace of allowed moves that is computed leads to a state with the properties that it is
    computed to have. -/
theorem exists_of_run (next : σ → μ → Option σ) (ok : σ → μ → Bool) (ms : List μ) (c₀ : σ)
    (p : σ → Bool)
    (h : (run (fun c m => if ok c m then next c m else none) c₀ ms).any p = true) :
    ∃ c, Reaches next (fun c m => ok c m = true) c₀ c ∧ p c = true := by
  cases hr : run (fun c m => if ok c m then next c m else none) c₀ ms with
  | none => simp [hr] at h
  | some c =>
    refine ⟨c, ?_, by simpa [hr] using h⟩
    refine Trace.invariant (Reaches next (fun c m => ok c m = true) c₀) hr .refl ?_
    intro c₁ m c₂ hc₁ hn
    split_ifs at hn with hok
    exact .move hc₁ hok hn

end Reaches

end Interaction.Trace
