import Mathlib.Logic.Basic
import Mathlib.Data.List.Basic
import Mathlib.Data.List.Induction

/-!
# Runs of a partial step function

A component is a state and a step function that may refuse an input. A
`Run` feeds it a list of inputs, oldest first; a guard, which sees the
inputs so far and the current state, says which inputs the environment
may offer next. Runs are closed under prefixes by construction, so a
fact about the last state of every run is a fact about every state.

`Run.inv` is the one induction: an invariant of the pair (history,
state) that holds at the start and survives every permitted step holds
after every run.
-/

namespace StepSystem

variable {σ ι : Type*}

/-- `Run step guard init past s`: from `init`, the inputs `past` were
accepted one after another, each permitted by `guard`, and left `s`. -/
inductive Run (step : σ → ι → Option σ) (guard : List ι → σ → ι → Prop)
    (init : σ) : List ι → σ → Prop
  | nil : Run step guard init [] init
  | snoc {past : List ι} {s : σ} {i : ι} {s' : σ} :
      Run step guard init past s → guard past s i → step s i = some s' →
      Run step guard init (past ++ [i]) s'

variable {step : σ → ι → Option σ} {guard guard' : List ι → σ → ι → Prop}
  {init s : σ} {past : List ι}

/-- The invariant rule, over histories. The run itself is at hand in the
step case, so invariants proved earlier can be used there. -/
theorem Run.inv (I : List ι → σ → Prop) (h0 : I [] init)
    (hstep : ∀ past s i s', Run step guard init past s → I past s →
      guard past s i → step s i = some s' → I (past ++ [i]) s')
    (h : Run step guard init past s) : I past s := by
  induction h with
  | nil => exact h0
  | snoc hrun hg hs ih => exact hstep _ _ _ _ hrun ih hg hs

/-- The invariant rule for a property of states alone. -/
theorem Run.invariant (I : σ → Prop) (h0 : I init)
    (hstep : ∀ past s i s', I s → guard past s i → step s i = some s' → I s')
    (h : Run step guard init past s) : I s :=
  h.inv (fun _ => I) h0 fun past s i s' _ hI hg hs => hstep past s i s' hI hg hs

/-- A run of a narrower environment is a run of a wider one. -/
theorem Run.weaken (hg : ∀ past s i, guard past s i → guard' past s i)
    (h : Run step guard init past s) : Run step guard' init past s := by
  induction h with
  | nil => exact .nil
  | snoc _ hgi hs ih => exact ih.snoc (hg _ _ _ hgi) hs

/-- A condition on the inputs alone, joined to the guard. -/
theorem Run.withInputs {Q : ι → Prop} (h : Run step guard init past s) :
    (∀ i ∈ past, Q i) → Run step (fun past s i => Q i ∧ guard past s i) init past s := by
  induction h with
  | nil => exact fun _ => .nil
  | snoc _ hgi hs ih =>
      intro hQ
      exact (ih fun i hi => hQ i (List.mem_append_left _ hi)).snoc ⟨hQ _ (by simp), hgi⟩ hs

/-- Inputs the guard always permits, fed one after another. -/
theorem Run.ofFoldlM : ∀ {inputs : List ι} {s : σ}, (∀ i ∈ inputs, ∀ past s, guard past s i) →
    inputs.foldlM step init = some s → Run step guard init inputs s := by
  intro inputs
  induction inputs using List.reverseRecOn with
  | nil =>
      intro s _ h
      obtain rfl : init = s := Option.some.inj h
      exact .nil
  | append_singleton front i ih =>
      intro s hg h
      rw [List.foldlM_append] at h
      obtain ⟨t, ht, hlast⟩ := Option.bind_eq_some_iff.mp h
      have hi : step t i = some s := by simpa using hlast
      exact (ih (fun j hj => hg j (by simp [hj])) ht).snoc (hg i (by simp) _ _) hi

/-- Inputs fed one after another, each checked against a guard on the
state. -/
theorem Run.ofChecked {check : σ → ι → Prop} [∀ s i, Decidable (check s i)] :
    ∀ {inputs : List ι} {s : σ},
    inputs.foldlM (fun s i => if check s i then step s i else none) init = some s →
    Run step (fun _ s i => check s i) init inputs s := by
  intro inputs
  induction inputs using List.reverseRecOn with
  | nil =>
      intro s h
      obtain rfl : init = s := Option.some.inj h
      exact .nil
  | append_singleton front i ih =>
      intro s h
      rw [List.foldlM_append] at h
      obtain ⟨t, ht, hlast⟩ := Option.bind_eq_some_iff.mp h
      simp only [List.foldlM_cons, List.foldlM_nil] at hlast
      split at hlast
      · next hcheck => exact (ih ht).snoc hcheck (by simpa using hlast)
      · cases hlast

/-- The step function determines where a run ends. -/
theorem Run.deterministic {s' : σ} (h : Run step guard init past s)
    (h' : Run step guard' init past s') : s = s' := by
  induction h generalizing s' with
  | nil =>
      generalize hp : ([] : List ι) = p at h'
      cases h' with
      | nil => rfl
      | snoc _ _ _ => simp at hp
  | @snoc past s i t _ _ hs ih =>
      generalize hp : past ++ [i] = p at h'
      cases h' with
      | nil => simp at hp
      | snoc hrun' _ hs' =>
          obtain ⟨rfl, hi⟩ := List.append_inj' hp rfl
          obtain rfl : i = _ := by simpa using hi
          rw [ih hrun', hs'] at hs
          exact (Option.some.inj hs).symm

end StepSystem
