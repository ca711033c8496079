import Mathlib.Order.Bounds.Basic
import Mathlib.Order.Lattice
import MemPerf.Lib.Run

/-!
# Values seen along a run

An observation of a component takes a value in every state a run goes
through. `Seen` is the set of the values it has taken up to now, the first
state and the last included; a step adds the value after it. A running
maximum is a field that holds the greatest value seen: one comparison in
each step is enough for that, in any linear order (`isGreatest_snoc`).
-/

namespace StepSystem

variable {σ ι α : Type*} {step : σ → ι → Option σ} {guard : List ι → σ → ι → Prop} {init s s' : σ}
  {past : List ι} {i : ι}

/-- The values of `f` in the states of the run `past`. -/
def Seen (step : σ → ι → Option σ) (guard : List ι → σ → ι → Prop) (init : σ) (f : σ → α)
    (past : List ι) : Set α :=
  {u | ∃ past' s', past' <+: past ∧ Run step guard init past' s' ∧ f s' = u}

theorem seen_nil (f : σ → α) : Seen step guard init f [] = {f init} := by
  ext u
  constructor
  · rintro ⟨past', s', hprefix, hrun, rfl⟩
    obtain rfl := List.prefix_nil.mp hprefix
    rw [hrun.deterministic (.nil : Run step guard init [] init)]
    rfl
  · rintro rfl
    exact ⟨[], init, List.prefix_refl _, .nil, rfl⟩

/-- The last state is one of the states. -/
theorem Run.now (hrun : Run step guard init past s) (f : σ → α) :
    f s ∈ Seen step guard init f past :=
  ⟨past, s, List.prefix_refl _, hrun, rfl⟩

/-- A step adds the value it leads to. -/
theorem seen_snoc (f : σ → α) (hrun : Run step guard init (past ++ [i]) s') :
    Seen step guard init f (past ++ [i]) = insert (f s') (Seen step guard init f past) := by
  ext u
  constructor
  · rintro ⟨past', t, hprefix, ht, rfl⟩
    rcases List.prefix_concat_iff.mp hprefix with rfl | hshorter
    · rw [ht.deterministic hrun]
      exact Set.mem_insert _ _
    · exact Set.mem_insert_of_mem _ ⟨past', t, hshorter, ht, rfl⟩
  · rintro (rfl | ⟨past', t, hprefix, ht, rfl⟩)
    · exact hrun.now f
    · exact ⟨past', t, hprefix.trans (List.prefix_append _ _), ht, rfl⟩

theorem seen_mono (f : σ → α) (past rest : List ι) :
    Seen step guard init f past ⊆ Seen step guard init f (past ++ rest) := by
  rintro u ⟨past', s', hprefix, hrun, rfl⟩
  exact ⟨past', s', hprefix.trans (List.prefix_append _ _), hrun, rfl⟩

/-- A field that a step replaces by the larger of itself and the new value. -/
theorem isGreatest_snoc [LinearOrder α] {f : σ → α} {a b : α}
    (h : IsGreatest (Seen step guard init f past) a)
    (hrun : Run step guard init (past ++ [i]) s') (hb : b = max (f s') a) :
    IsGreatest (Seen step guard init f (past ++ [i])) b := by
  rw [seen_snoc f hrun, hb]
  exact h.insert _

end StepSystem
