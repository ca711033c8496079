import Mathlib.Data.List.Basic
import Mathlib.Logic.Function.Basic

/-!
# Circular doubly linked lists

A store gives for every address the addresses of the previous and of the
next node. A list is a ring through a head node that carries nothing: the
head's successor is the first node, its predecessor the last, and an
empty list is a head that points to itself both ways.

`IsRing s head l` says that the nodes after `head` are `l`, in both
directions. Only the nodes of the ring are read by it, so what happens
elsewhere in the store leaves it alone (`IsRing.congr`).
-/

namespace Ring

structure Node (α : Type*) where
  prev : α
  next : α
deriving DecidableEq, Repr

abbrev Store (α : Type*) := α → Node α

variable {α : Type*}

section Operations

variable [DecidableEq α]

/-- `a->prev = b`. -/
def setPrev (a b : α) (s : Store α) : Store α := Function.update s a { s a with prev := b }

/-- `a->next = b`. -/
def setNext (a b : α) (s : Store α) : Store α := Function.update s a { s a with next := b }

/-- A node by itself, which is an empty ring. -/
def init (node : α) (s : Store α) : Store α := setNext node node (setPrev node node s)

def insertBetween (node prev next : α) (s : Store α) : Store α :=
  setPrev next node (setNext prev node (setPrev node prev (setNext node next s)))

/-- Insert before the head, found through its `prev`. -/
def insertTail (node head : α) (s : Store α) : Store α := insertBetween node (s head).prev head s

end Operations

section Writes

variable [DecidableEq α] {s : Store α} {node head a : α}

theorem insertTail_of_ne (hnode : a ≠ node) (hhead : a ≠ head)
    (hlast : a ≠ (s head).prev) : insertTail node head s a = s a := by
  simp [insertTail, insertBetween, setPrev, setNext, hnode, hhead, hlast]

/-- What an insertion at the tail writes, told by the last node. -/
theorem insertTail_next (hnew : node ≠ head)
    (hlast : node ≠ (s head).prev) (a : α) :
    (insertTail node head s a).next =
      if a = node then head else if a = (s head).prev then node else (s a).next := by
  by_cases h1 : a = node
  · subst h1
    simp [insertTail, insertBetween, setPrev, setNext, hnew, hlast]
  · by_cases h2 : a = (s head).prev
    · subst h2
      by_cases h3 : (s head).prev = head
      · simp [insertTail, insertBetween, setPrev, setNext, h3, hnew.symm]
      · simp [insertTail, insertBetween, setPrev, setNext, h1, h3]
    · by_cases h3 : a = head
      · subst h3
        simp [insertTail, insertBetween, setPrev, setNext, h1, h2]
      · simp [insertTail, insertBetween, setPrev, setNext, h1, h2, h3]

theorem insertTail_prev (hnew : node ≠ head)
    (hlast : node ≠ (s head).prev) (a : α) :
    (insertTail node head s a).prev =
      if a = head then node else if a = node then (s head).prev else (s a).prev := by
  by_cases h1 : a = head
  · subst h1
    simp [insertTail, insertBetween, setPrev, setNext]
  · by_cases h2 : a = node
    · subst h2
      simp [insertTail, insertBetween, setPrev, setNext, h1, hlast]
    · by_cases h3 : a = (s head).prev
      · subst h3
        simp [insertTail, insertBetween, setPrev, setNext, h1, h2]
      · simp [insertTail, insertBetween, setPrev, setNext, h1, h2, h3]

end Writes

/-- The ring through `head` with the nodes `l`. -/
structure IsRing (s : Store α) (head : α) (l : List α) : Prop where
  nodup : (head :: l).Nodup
  next : (head :: l).map (fun a => (s a).next) = l ++ [head]
  prev : (l ++ [head]).map (fun a => (s a).prev) = head :: l

namespace IsRing

variable {s s' : Store α} {head : α} {l : List α}

/-- Stores that agree on the nodes have the same ring. -/
theorem congr (h : IsRing s head l) (hs : ∀ a ∈ head :: l, s' a = s a) : IsRing s' head l := by
  refine ⟨h.nodup, ?_, ?_⟩
  · rw [← h.next]
    exact List.map_congr_left fun a ha => congrArg Node.next (hs a ha)
  · rw [← h.prev]
    refine List.map_congr_left fun a ha => congrArg Node.prev (hs a ?_)
    rw [List.mem_append, List.mem_singleton] at ha
    exact List.mem_cons.mpr ha.symm

/-! ## Walking -/

/-- The successor of a node, or the head after the last. -/
theorem next_eq {pre suf : List α} {a : α} (h : IsRing s head (pre ++ a :: suf)) :
    (s a).next = suf.headD head := by
  have hsplit :
      (head :: pre).map (fun a => (s a).next) ++ (s a).next :: suf.map (fun a => (s a).next)
      = (pre ++ [a]) ++ (suf ++ [head]) := by
    simpa using h.next
  have hrest := List.append_inj_right hsplit (by simp)
  cases suf with
  | nil => exact (List.cons.inj hrest).1
  | cons b suf => exact (List.cons.inj hrest).1

theorem head_next (h : IsRing s head l) : (s head).next = l.headD head := by
  have hnext := h.next
  cases l with
  | nil => exact (List.cons.inj hnext).1
  | cons b l => exact (List.cons.inj hnext).1

/-- The predecessor of the head is the last node. -/
theorem head_prev (h : IsRing s head l) : (s head).prev = l.getLastD head := by
  have hprev := congrArg List.getLast? h.prev
  simpa [List.getLastD_eq_getLast?, List.getLast?_cons] using hprev

/-- The head's predecessor is a node just when it is the last one. -/
theorem head_prev_eq_iff {pre suf : List α} {a : α} (h : IsRing s head (pre ++ a :: suf)) :
    (s head).prev = a ↔ suf = [] := by
  rw [h.head_prev]
  constructor
  · intro hlast
    rcases List.eq_nil_or_concat' suf with rfl | ⟨suf', b, rfl⟩
    · rfl
    · have hb : b = a := by
        rw [← List.cons_append, ← List.append_assoc, List.getLastD_concat] at hlast
        exact hlast
      have hnodup := h.nodup
      rw [hb, List.nodup_cons, List.nodup_append, List.nodup_cons] at hnodup
      exact absurd (by simp) hnodup.2.2.1.1
  · rintro rfl
    simp

section Insert

variable [DecidableEq α]

theorem init (head : α) (s : Store α) : IsRing (Ring.init head s) head [] := by
  refine ⟨by simp, ?_, ?_⟩ <;> simp [Ring.init, setNext, setPrev]

/-- **An insertion at the tail appends** a node that is not in the ring. -/
theorem insertTail (h : IsRing s head l) {node : α} (hnode : node ∉ head :: l) :
    IsRing (Ring.insertTail node head s) head (l ++ [node]) := by
  obtain ⟨before, last, hl⟩ : ∃ before last, head :: l = before ++ [last] :=
    ⟨_, _, (List.dropLast_append_getLast (List.cons_ne_nil head l)).symm⟩
  have hprev := h.prev
  rw [hl, List.map_append, List.map_singleton] at hprev
  obtain ⟨hprevs, hlast⟩ := List.append_inj' hprev rfl
  have hnext := h.next
  rw [hl, List.map_append, List.map_singleton] at hnext
  obtain ⟨hnexts, -⟩ := List.append_inj' hnext rfl
  replace hlast : (s head).prev = last := (List.cons.inj hlast).1
  have hnew : node ≠ head := fun heq => hnode (heq ▸ List.mem_cons_self)
  have hnewlast : node ≠ last := fun heq => hnode (hl ▸ heq ▸ List.mem_append_right _ (by simp))
  have hnodup := h.nodup
  refine ⟨?_, ?_, ?_⟩
  · rw [← List.cons_append, List.nodup_append]
    exact ⟨hnodup, by simp, fun a ha b hb => by
      rw [List.mem_singleton.mp hb]
      exact fun heq => hnode (heq ▸ ha)⟩
  · have hbefore : before.map (fun a => (Ring.insertTail node head s a).next)
        = before.map fun a => (s a).next := by
      refine List.map_congr_left fun a ha => ?_
      have hmem : a ∈ head :: l := hl ▸ List.mem_append_left _ ha
      have hne : a ≠ node := fun heq => hnode (heq ▸ hmem)
      rw [hl, List.nodup_append] at hnodup
      rw [insertTail_next hnew (hlast ▸ hnewlast), if_neg hne, hlast,
        if_neg (hnodup.2.2 a ha last (by simp))]
    rw [← List.cons_append, hl, List.map_append, List.map_append, hbefore, hnexts]
    simp [insertTail_next hnew (hlast ▸ hnewlast), hlast, Ne.symm hnewlast]
  · have hall :
        l.map (fun a => (Ring.insertTail node head s a).prev) = l.map fun a => (s a).prev := by
      refine List.map_congr_left fun a ha => ?_
      have hhead : a ≠ head := fun heq => (List.nodup_cons.mp hnodup).1 (heq ▸ ha)
      have hne : a ≠ node := fun heq => hnode (heq ▸ List.mem_cons_of_mem _ ha)
      rw [insertTail_prev hnew (hlast ▸ hnewlast), if_neg hhead, if_neg hne]
    rw [← List.cons_append, hl, List.map_append, List.map_append, hall, hprevs]
    simp [insertTail_prev hnew (hlast ▸ hnewlast), hlast, hnew]

end Insert

end IsRing

end Ring
