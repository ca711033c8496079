import Mathlib.Data.List.Basic
import Mathlib.Data.Set.Insert

/-!
# Reachability by a worklist

A search keeps a set of marked nodes and a list of candidates. It takes
candidates off the list; one that is a node not marked yet is marked and
the candidates it refers to are put on the list. `Search` is the invariant
of such a loop over any graph, finite or not; with an empty list it says
that the marked nodes are the reachable ones.
-/

namespace Reach

variable {α : Type*}

/-- The nodes reached from a root along edges. -/
inductive Reachable (root : α → Prop) (edge : α → α → Prop) : α → Prop
  | root {a : α} : root a → Reachable root edge a
  | step {a b : α} : Reachable root edge a → edge a b → Reachable root edge b

variable {root root' : α → Prop} {edge edge' : α → α → Prop}

/-- A set that holds the roots and is closed under edges holds everything
reachable. -/
theorem Reachable.subset {S : α → Prop} (hroot : ∀ a, root a → S a)
    (hedge : ∀ a b, S a → edge a b → S b) {a : α} (h : Reachable root edge a) : S a := by
  induction h with
  | root hr => exact hroot _ hr
  | step _ he ih => exact hedge _ _ ih he

theorem Reachable.mono (hroot : ∀ a, root a → root' a) (hedge : ∀ a b, edge a b → edge' a b)
    {a : α} (h : Reachable root edge a) : Reachable root' edge' a :=
  h.subset (fun a hr => .root (hroot a hr)) fun a b ha he => .step ha (hedge a b he)

/-- Roots and the targets of edges are nodes, hence so is whatever is reached. -/
theorem Reachable.node {node : α → Prop} (hroot : ∀ a, root a → node a)
    (hedge : ∀ a b, edge a b → node b) {a : α} (h : Reachable root edge a) : node a :=
  h.subset hroot fun a b _ he => hedge a b he

/-- The loop invariant: marks are sound, candidates that are nodes are
reachable, and nothing a root or a marked node refers to has been missed. -/
structure Search (node root : α → Prop) (edge : α → α → Prop) (marked : α → Prop)
    (queue : List α) : Prop where
  sound : ∀ a, marked a → Reachable root edge a
  pending : ∀ a ∈ queue, node a → Reachable root edge a
  roots : ∀ a, root a → marked a ∨ a ∈ queue
  closed : ∀ a b, marked a → edge a b → marked b ∨ b ∈ queue

namespace Search

variable {node marked marked' : α → Prop} {queue : List α} {a : α}

/-- A candidate that is marked already, or no node, is dropped. -/
theorem drop (hroot : ∀ a, root a → node a) (hedge : ∀ a b, edge a b → node b)
    (h : Search node root edge marked (a :: queue)) (ha : marked a ∨ ¬ node a) :
    Search node root edge marked queue := by
  refine ⟨h.sound, fun b hb => h.pending b (List.mem_cons_of_mem a hb), fun b hb => ?_,
    fun b c hb hc => ?_⟩
  · rcases h.roots b hb with hm | hq
    · exact .inl hm
    · rcases List.mem_cons.mp hq with rfl | hq
      · exact .inl (ha.resolve_right fun hn => hn (hroot b hb))
      · exact .inr hq
  · rcases h.closed b c hb hc with hm | hq
    · exact .inl hm
    · rcases List.mem_cons.mp hq with rfl | hq
      · exact .inl (ha.resolve_right fun hn => hn (hedge b c hc))
      · exact .inr hq

/-- A candidate is marked, and what it refers to is put at the end. -/
theorem visit {found : List α} (hnode : node a)
    (h : Search node root edge marked (a :: queue))
    (hmarked : ∀ b, marked' b ↔ marked b ∨ b = a)
    (hfound : ∀ b, edge a b → marked' b ∨ b ∈ found)
    (hedge : ∀ b ∈ found, node b → edge a b) :
    Search node root edge marked' (queue ++ found) := by
  have ha : Reachable root edge a := h.pending a List.mem_cons_self hnode
  refine ⟨fun b hb => ?_, fun b hb hn => ?_, fun b hb => ?_, fun b c hb hc => ?_⟩
  · rcases (hmarked b).mp hb with hm | rfl
    · exact h.sound b hm
    · exact ha
  · rcases List.mem_append.mp hb with hq | hf
    · exact h.pending b (List.mem_cons_of_mem a hq) hn
    · exact .step ha (hedge b hf hn)
  · rcases h.roots b hb with hm | hq
    · exact .inl ((hmarked b).mpr (.inl hm))
    · rcases List.mem_cons.mp hq with rfl | hq
      · exact .inl ((hmarked b).mpr (.inr rfl))
      · exact .inr (List.mem_append_left found hq)
  · rcases (hmarked b).mp hb with hm | rfl
    · rcases h.closed b c hm hc with hm | hq
      · exact .inl ((hmarked c).mpr (.inl hm))
      · rcases List.mem_cons.mp hq with rfl | hq
        · exact .inl ((hmarked c).mpr (.inr rfl))
        · exact .inr (List.mem_append_left found hq)
    · rcases hfound c hc with hm | hf
      · exact .inl hm
      · exact .inr (List.mem_append_right queue hf)

/-- When no candidate is left, the marked nodes are the reachable ones. -/
theorem done (h : Search node root edge marked []) (a : α) : marked a ↔ Reachable root edge a := by
  refine ⟨h.sound a, fun ha => ha.subset (fun b hb => ?_) fun b c hb hc => ?_⟩
  · exact (h.roots b hb).resolve_right List.not_mem_nil
  · exact (h.closed b c hb hc).resolve_right List.not_mem_nil

end Search

end Reach
