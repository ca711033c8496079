import MemPerf.LeakCheck
import MemPerf.ObjectSizes

/-!
# The table a leak check meets

What a run of allocations and frees leaves in the table, as far as a leak
check depends on it. The two address bounds enclose every entry; they are
attained, so an object stands at either end of the window.
-/

namespace MemPerf.Temp

open Chained Word StepSystem

namespace Leakcheck

/-- The table a check starts from: marks cleared, aligned objects inside
the address space and inside the closed window. -/
structure ObjectTable (v : View) (t : HashMap Nat ObjectStatus) : Prop where
  wellFormed : t.WellFormed
  cleared : t.Forall fun e => e.value.mark = false
  aligned : t.Forall fun e => e.key % 8 = 0
  inSpace : t.Forall fun e => e.key + e.value.sizeClassSizeAndIndex.size < 2 ^ 64
  inWindow : t.Forall fun e => v.heapBegin ≤ e.key ∧ e.key ≤ v.heapEnd

end Leakcheck

namespace MemoryWaste

/-- Allocators return 8-byte aligned objects inside the address space. -/
def AlignedCall : Call → Prop
  | .allocUpdate _ size address _ => address % 8 = 0 ∧ address + size < 2 ^ 64
  | _ => True

instance : ∀ call, Decidable (AlignedCall call)
  | .allocUpdate _ size address _ =>
      inferInstanceAs (Decidable (address % 8 = 0 ∧ address + size < 2 ^ 64))
  | .freeUpdate _ _ => inferInstanceAs (Decidable True)
  | .newThread => inferInstanceAs (Decidable True)

/-- Every list is short enough for its 16-bit count. -/
def Short (t : HashMap Nat ObjectStatus) : Prop := ∀ i, (t.buckets i).list.length < 2 ^ 16

structure Tabled (p : ProgramStatus) (s : MemoryWaste) : Prop where
  caches : ∀ thread, p.Caches (s.cacheForGetClassSizeAndIndex thread)
  wellFormed : Short s.objStatusMap → s.objStatusMap.WellFormed
  aligned : s.objStatusMap.Forall fun e => e.key % 8 = 0
  inSpace : s.objStatusMap.Forall fun e => e.key + e.value.sizeClassSizeAndIndex.size < 2 ^ 64
  inWindow : s.objStatusMap.Forall fun e => s.minAddr ≤ e.key ∧ e.key ≤ s.maxAddr

variable {p : ProgramStatus} {s s' : MemoryWaste}

theorem short_of_insert {t : HashMap Nat ObjectStatus} {addr : Nat} {o : ObjectStatus}
    (h : Short (t.insert addr o)) : Short t := by
  intro i
  have hi := h i
  rw [HashMap.insert_length] at hi
  omega

theorem wellFormed_insert {t : HashMap Nat ObjectStatus} {addr : Nat} {o : ObjectStatus}
    (ht : Short t → t.WellFormed) (hf : t.find addr = none) (h : Short (t.insert addr o)) :
    (t.insert addr o).WellFormed := by
  refine (ht (short_of_insert h)).insert o hf ?_
  have hi := h (t.hashIndex addr)
  rw [HashMap.insert_length, if_pos rfl] at hi
  exact hi

theorem wellFormed_modify {t : HashMap Nat ObjectStatus} {addr : Nat}
    {g : ObjectStatus → ObjectStatus} (ht : Short t → t.WellFormed) (h : Short (t.modify addr g)) :
    (t.modify addr g).WellFormed := by
  refine (ht fun i => ?_).modify addr g
  have hi := h i
  rwa [HashMap.modify_length] at hi

/-- The size in an entry after a reuse is the size asked for. -/
theorem reuses_size {size thread : Nat} {old status : ObjectStatus} {cache : SizeClassSizeAndIndex}
    (hc : ∀ thread, p.Caches (s.cacheForGetClassSizeAndIndex thread))
    (hr : Reuses p (s.cacheForGetClassSizeAndIndex thread) size old status cache) :
    status.sizeClassSizeAndIndex.size = size ∧
      ∀ thread', p.Caches
        (Function.update s.cacheForGetClassSizeAndIndex thread cache thread') := by
  rcases hr with ⟨hsize, rfl, rfl⟩ | ⟨-, k, hk, rfl⟩
  · refine ⟨hsize, fun thread' => ?_⟩
    rw [Function.update_eq_self]
    exact hc thread'
  · exact ⟨p.getClassSizeAndIndex_size (hc thread) hk, caches_update hc hk⟩

theorem step_tabled {call : Call} (h : Tabled p s) (hcall : AlignedCall call)
    (hs : s.step p call = some s') : Tabled p s' := by
  cases call with
  | allocUpdate thread size address callsiteKey =>
      obtain ⟨haligned, hspace⟩ := hcall
      rcases alloc_cases hs with ⟨k, cache, hf, hk, rfl⟩ | ⟨old, status, cache, hf, hr, rfl⟩
      · have hsize := p.getClassSizeAndIndex_size (h.caches thread) hk
        refine ⟨caches_update h.caches hk, wellFormed_insert h.wellFormed hf,
          h.aligned.insert haligned, h.inSpace.insert ?_, ?_⟩
        · exact hsize ▸ hspace
        · refine HashMap.Forall.insert (h.inWindow.mono fun e he => ?_)
            ⟨Nat.min_le_right _ _, Nat.le_max_right _ _⟩
          exact ⟨(Nat.min_le_left _ _).trans he.1, he.2.trans (Nat.le_max_left _ _)⟩
      · obtain ⟨hsize, hcaches⟩ := reuses_size h.caches hr
        have hwindow := h.inWindow.find hf
        refine ⟨hcaches, wellFormed_modify h.wellFormed, h.aligned.modify fun _ _ => haligned,
          h.inSpace.modify fun _ _ => ?_, h.inWindow.modify fun _ _ => hwindow⟩
        exact hsize ▸ hspace
  | freeUpdate thread address =>
      rcases free_cases hs with rfl | ⟨status, hf, -, rfl⟩
      · exact h
      · have haligned := h.aligned.find hf
        have hspace := h.inSpace.find hf
        have hwindow := h.inWindow.find hf
        exact ⟨h.caches, wellFormed_modify h.wellFormed, h.aligned.modify fun _ _ => haligned,
          h.inSpace.modify fun _ _ => hspace, h.inWindow.modify fun _ _ => hwindow⟩
  | newThread =>
      obtain ⟨-, rfl⟩ := newThread_cases hs
      exact ⟨h.caches, h.wellFormed, h.aligned, h.inSpace, h.inWindow⟩

/-- Marks are set by leak checks alone. -/
theorem step_cleared {call : Call} (h : s.objStatusMap.Forall fun e => e.value.mark = false)
    (hs : s.step p call = some s') : s'.objStatusMap.Forall fun e => e.value.mark = false := by
  cases call with
  | allocUpdate thread size address callsiteKey =>
      rcases alloc_cases hs with ⟨k, cache, -, -, rfl⟩ | ⟨old, status, cache, hf, hr, rfl⟩
      · exact h.insert rfl
      · have hold : old.mark = false := h.find hf
        refine h.modify fun _ _ => ?_
        rcases hr with ⟨-, rfl, -⟩ | ⟨-, k, -, rfl⟩
        · exact hold
        · exact hold
  | freeUpdate thread address =>
      rcases free_cases hs with rfl | ⟨status, hf, -, rfl⟩
      · exact h
      · have hcleared := h.find hf
        exact h.modify fun _ _ => hcleared
  | newThread =>
      obtain ⟨-, rfl⟩ := newThread_cases hs
      exact h

/-- A run without leak checks leaves a table for the first one. -/
theorem run_objectTable {b : Backtrace} {past : List Call}
    (h : Run (step p) (fun _ _ => AlignedCall) (init b) past s) (hshort : Short s.objStatusMap)
    (memory : Nat → Nat) :
    Leakcheck.ObjectTable { heapBegin := s.minAddr, heapEnd := s.maxAddr, memory }
      s.objStatusMap := by
  have hi : Tabled p s ∧ s.objStatusMap.Forall fun e => e.value.mark = false := by
    refine h.inv (fun _ s => Tabled p s ∧ s.objStatusMap.Forall fun e => e.value.mark = false)
      ⟨⟨fun _ => .inl rfl, fun _ => HashMap.init_wellFormed _ _, HashMap.init_forall _ _ _,
        HashMap.init_forall _ _ _, HashMap.init_forall _ _ _⟩, HashMap.init_forall _ _ _⟩ ?_
    intro past s call s' _ hi hcall hs
    exact ⟨step_tabled hi.1 hcall hs, step_cleared hi.2 hs⟩
  exact ⟨hi.1.wellFormed hshort, hi.2, hi.1.aligned, hi.1.inSpace, hi.1.inWindow⟩

/-- A run is at least as long as the longest list. -/
theorem run_short {guard : List Call → MemoryWaste → Call → Prop} {b : Backtrace}
    {past : List Call} (h : Run (step p) guard (init b) past s) (hlen : past.length < 2 ^ 16) :
    Short s.objStatusMap := by
  have hle : ∀ i, (s.objStatusMap.buckets i).list.length ≤ past.length := by
    refine h.inv (fun past s => ∀ i, (s.objStatusMap.buckets i).list.length ≤ past.length)
      (fun _ => le_rfl) ?_
    intro past s call s' _ hle _ hs i
    rw [List.length_append, List.length_singleton]
    have hi := hle i
    cases call with
    | allocUpdate thread size address callsiteKey =>
        rcases alloc_cases hs with ⟨k, cache, -, -, rfl⟩ | ⟨old, status, cache, -, -, rfl⟩
        · rw [afterNew, HashMap.insert_length]
          split <;> omega
        · rw [afterReuse, HashMap.modify_length]
          omega
    | freeUpdate thread address =>
        rcases free_cases hs with rfl | ⟨status, -, -, rfl⟩
        · omega
        · rw [afterFree, HashMap.modify_length]
          omega
    | newThread =>
        obtain ⟨-, rfl⟩ := newThread_cases hs
        exact Nat.le_succ_of_le hi
  exact fun i => lt_of_le_of_lt (hle i) hlen

end MemoryWaste

end MemPerf.Temp
