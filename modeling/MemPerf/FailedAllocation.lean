import MemPerf.ObjectPairing

/-!
# Allocations that fail

`yymalloc` and `yyrealloc` record what the real function returns without
a look at it. A failed call therefore enters an object at the null
pointer in `objStatusMap`; the shadow memory has no range for it. A
failed `yyrealloc` has by then also taken the old block, which is still
live, off the counts.

The null pointer as a key is harmless once it is there with the same
call key, thread and size, and the old block is only missed if it was
counted: `failed_allocation_iff` is exact about both, in every state.
-/

namespace MemPerf

open Word Chained StepSystem

/-- What the profile says about the program's objects is the same. -/
structure SameProfile (p p' : ObjectRecorder) : Prop where
  objStatusMap : p'.objStatusMap = p.objStatusMap
  pages : ∀ range index, (p'.shadow.pageMap range index).numUsedBytes
    = (p.shadow.pageMap range index).numUsedBytes
  lines : ∀ c, (p'.shadow.cacheMap c).numUsedBytes = (p.shadow.cacheMap c).numUsedBytes

/-- A tracked call whose real function returns `NULL`. -/
def HeapCall.Fails (m : ProfilerMemory) : HeapCall → Prop
  | .yymalloc _ sz object _ => sz ≠ 0 ∧ object = 0
  | .yyrealloc _ ptr sz object _ =>
      sz ≠ 0 ∧ object = 0 ∧ (m.ifInProfilerMemoryThenFree ptr).2 = false
  | _ => False

/-- The object at `ptr` is counted somewhere when it is freed. -/
def ObjectRecorder.Counted (p : ObjectRecorder) (ptr : Nat) : Prop :=
  ptr ≠ 0 ∧ (getPageIndex ptr).1 ≠ numAddressRange
    ∧ ∃ o, p.objStatusMap.find ptr = some o ∧ o.size ≠ 0

/-- The failure has nothing to change: the null pointer is in the table as
the call would enter it, and the block to be resized is not counted. -/
def HeapCall.NothingToLose (p : ObjectRecorder) : HeapCall → Prop
  | .yymalloc tid sz _ callKey =>
      p.objStatusMap.find 0 = some { callKey, tid, size := wrap 32 sz }
  | .yyrealloc tid ptr sz _ callKey =>
      p.objStatusMap.find 0 = some { callKey, tid, size := wrap 32 sz } ∧ ¬ p.Counted ptr
  | _ => True

namespace ObjTable

/-- The update leaves the table as it is only if it finds the very entry
it would write. -/
theorem allocUpdate_eq_self_iff (m : HashMap Nat ObjStat) (size address callKey tid : Nat) :
    (allocUpdate m size address callKey tid).1 = m
      ↔ m.find address = some { callKey, tid, size } := by
  unfold allocUpdate
  cases hfind : m.find address with
  | none =>
      simp only [reduceCtorEq, iff_false]
      intro heq
      have hlen := m.insert_length address { callKey, tid, size } (m.hashIndex address)
      rw [heq, if_pos rfl] at hlen
      omega
  | some old =>
      simp only
      constructor
      · intro heq
        have hnew := m.find_modify address (fun _ => { callKey, tid, size }) address
        rw [heq, if_pos rfl, hfind, Option.map_some] at hnew
        exact hnew
      · intro hold
        exact HashMap.modify_eq_self hfind (Option.some.inj hold).symm

end ObjTable

namespace ShadowMemory

theorem getCacheMapEntry_usage {s s' : ShadowMemory} {range index t : Nat}
    (h : s.getCacheMapEntry range index = some (s', t)) (r i : Nat) :
    (s'.pageMap r i).numUsedBytes = (s.pageMap r i).numUsedBytes := by
  rcases getCacheMapEntry_cases h with ⟨rfl, -⟩ | ⟨-, -, rfl⟩
  · rfl
  · simp only [allocTable, modifyPage]
    split <;> rfl

/-- Taking bytes off a page changes its count. -/
theorem sub_ne_self {n : Nat} (hpos : 0 < n) (hle : n ≤ pagesize) (count : Int) :
    swrap 16 (count - n) ≠ count := by
  intro heq
  have hmod : (count - n) % (2 ^ 16 : Nat) = count % (2 ^ 16 : Nat) := by
    rw [← heq, swrap, Int.bmod_emod, ← swrap, heq]
  simp only [pagesize] at hle
  omega

/-- A free of an object in some range changes the count of its first
page. -/
theorem freeUpdateObject_page {s s' : ShadowMemory} {A : Nat} {o : ObjStat}
    (hrange : (getPageIndex A).1 ≠ numAddressRange) (hsize : o.size ≠ 0)
    (h : s.freeUpdateObject A o = some s') :
    (s'.pageMap (getPageIndex A).1 (getPageIndex A).2).numUsedBytes
      ≠ (s.pageMap (getPageIndex A).1 (getPageIndex A).2).numUsedBytes := by
  rcases hp : getPageIndex A with ⟨r, i⟩
  rw [hp] at hrange
  simp only [freeUpdateObject, hp, if_neg hsize, if_neg hrange] at h
  rw [freeUpdateCacheLines, shiftRight_log2CachelineSize, and_pagesizeMask,
    and_cachelineSizeMask] at h
  -- the line walk leaves the page counts alone
  obtain ⟨-, -, hlines⟩ := walkCacheLines_rule
    (fun _ t => ∀ r' i', (t.pageMap r' i').numUsedBytes
      = ((s.freeUpdatePages A r i o.size).pageMap r' i').numUsedBytes)
    (fun _ _ _ _ _ ht hget r' i' => (getCacheMapEntry_usage hget r' i').trans (ht r' i'))
    (by omega) (by omega)
    (fun n c t => (freePartLine_touches o n c t).pageMap)
    (fun c t => (freeWholeLine_touches o c t).pageMap)
    (fun c t ht _ r' i' => by rw [(freePartLine_touches o _ c t).pageMap, ht])
    (fun l c t _ _ ht _ r' i' => by rw [(freeWholeLine_touches o c t).pageMap, ht])
    (fun l c t _ _ _ ht _ r' i' => by rw [(freePartLine_touches o _ c t).pageMap, ht]) h
    (fun _ _ => rfl)
  have hfirst : ((s.freeUpdatePages A r i o.size).pageMap r i).numUsedBytes
      = swrap 16 ((s.pageMap r i).numUsedBytes - (min (4096 - A % 4096) o.size : Nat)) := by
    simp only [freeUpdatePages, walkPages_eq, if_true, walkedPage, PageMapEntry.subUsedBytes]
  rw [hlines r i, hfirst]
  exact sub_ne_self (by omega) (by simp only [pagesize]; omega) _

/-- The null pointer is in no range. -/
theorem mallocUpdateObject_null (s : ShadowMemory) (size : Nat) :
    s.mallocUpdateObject 0 size = some s := by
  have hnull : getPageIndex 0 = (numAddressRange, 0) := by decide
  simp only [mallocUpdateObject, hnull, if_true, ite_self]

end ShadowMemory

namespace ObjectRecorder

variable {p p' : ObjectRecorder}

/-- What recording a `NULL` does. -/
theorem recordNull (p : ObjectRecorder) (size callKey tid : Nat) :
    p.updateMemoryStatusAfterAllocation size 0 callKey tid = some
      { objStatusMap := (ObjTable.allocUpdate p.objStatusMap size 0 callKey tid).1
        shadow := p.shadow
        updates := p.updates ++ [.mallocUpdateObject 0 size] } := by
  rw [updateMemoryStatusAfterAllocation, ShadowMemory.mallocUpdateObject_null, Option.map_some]

/-- The free of a block leaves the counts alone only if it is not counted,
and the table in any case. -/
theorem updateMemoryStatusBeforeFree_same {ptr : Nat} (hptr : ptr ≠ 0)
    (h : p.updateMemoryStatusBeforeFree ptr = some p') :
    p'.objStatusMap = p.objStatusMap
    ∧ (p.Counted ptr →
      (p'.shadow.pageMap (getPageIndex ptr).1 (getPageIndex ptr).2).numUsedBytes
        ≠ (p.shadow.pageMap (getPageIndex ptr).1 (getPageIndex ptr).2).numUsedBytes)
    ∧ (¬ p.Counted ptr → p'.shadow = p.shadow) := by
  unfold updateMemoryStatusBeforeFree ObjTable.freeUpdate at h
  cases hfind : p.objStatusMap.find ptr with
  | none =>
      simp only [hfind] at h
      obtain rfl := Option.some.inj h
      refine ⟨rfl, ?_, fun _ => rfl⟩
      rintro ⟨-, -, o, ho, -⟩
      rw [hfind] at ho
      cases ho
  | some o =>
      simp only [hfind] at h
      by_cases hsize : o.size = 0
      · rw [if_neg (not_not.mpr hsize)] at h
        obtain rfl := Option.some.inj h
        refine ⟨rfl, ?_, fun _ => rfl⟩
        rintro ⟨-, -, o', ho, hne⟩
        obtain rfl := Option.some.inj (hfind.symm.trans ho)
        exact absurd hsize hne
      · rw [if_pos hsize] at h
        obtain ⟨shadow, hfree, hp'⟩ := Option.map_eq_some_iff.mp h
        subst hp'
        refine ⟨rfl, ?_, fun hno => ?_⟩
        · rintro ⟨-, hrange, -⟩
          exact ShadowMemory.freeUpdateObject_page hrange hsize hfree
        · have hrange : (getPageIndex ptr).1 = numAddressRange := by
            by_contra hr
            exact hno ⟨hptr, hr, o, hfind, hsize⟩
          rcases hpi : getPageIndex ptr with ⟨r, i⟩
          rw [hpi] at hrange
          simp only [ShadowMemory.freeUpdateObject, hpi, if_neg hsize, hrange, if_true] at hfree
          exact (Option.some.inj hfree).symm

end ObjectRecorder

/-- **A failed allocation leaves the profile as it was exactly if it has
nothing to change**: in every state, for every tracked call that fails. -/
theorem failed_allocation_iff {m : ProfilerMemory} {p p' : ObjectRecorder} {call : HeapCall}
    (hfails : call.Fails m) (h : p.step m call = some p') :
    SameProfile p p' ↔ call.NothingToLose p := by
  cases call with
  | yymalloc tid sz object callKey =>
      obtain ⟨hsz, rfl⟩ := hfails
      simp only [ObjectRecorder.step, CallerStatus.recording_yymalloc hsz] at h
      rw [ObjectRecorder.recordNull] at h
      obtain rfl := Option.some.inj h
      rw [HeapCall.NothingToLose, ← ObjTable.allocUpdate_eq_self_iff]
      exact ⟨fun hsame => hsame.objStatusMap,
        fun heq => ⟨heq, fun _ _ => rfl, fun _ => rfl⟩⟩
  | yyrealloc tid ptr sz object callKey =>
      obtain ⟨hsz, rfl, hout⟩ := hfails
      simp only [ObjectRecorder.step, CallerStatus.recording_yyrealloc, hout, Bool.false_eq_true,
        if_false] at h
      obtain ⟨p1, hfree, h⟩ := Option.bind_eq_some_iff.mp h
      rw [ObjectRecorder.recordNull] at h
      obtain rfl := Option.some.inj h
      rw [HeapCall.NothingToLose, ← ObjTable.allocUpdate_eq_self_iff]
      by_cases hptr : ptr = 0
      · rw [if_neg (not_not.mpr hptr)] at hfree
        obtain rfl := Option.some.inj hfree
        have hno : ¬ p.Counted ptr := fun hc => hc.1 hptr
        exact ⟨fun hsame => ⟨hsame.objStatusMap, hno⟩,
          fun heq => ⟨heq.1, fun _ _ => rfl, fun _ => rfl⟩⟩
      · rw [if_pos hptr] at hfree
        obtain ⟨hmap, hcounted, hkept⟩ :=
          ObjectRecorder.updateMemoryStatusBeforeFree_same hptr hfree
        constructor
        · intro hsame
          refine ⟨hmap ▸ hsame.objStatusMap, fun hc => ?_⟩
          exact hcounted hc (hsame.pages _ _)
        · rintro ⟨heq, hno⟩
          have hshadow := hkept hno
          refine ⟨?_, fun range index => ?_, fun c => ?_⟩
          · show (ObjTable.allocUpdate p1.objStatusMap _ _ _ _).1 = _
            rw [hmap]
            exact heq
          · show (p1.shadow.pageMap range index).numUsedBytes = _
            rw [hshadow]
          · show (p1.shadow.cacheMap c).numUsedBytes = _
            rw [hshadow]
  | yycalloc tid nelem elsize object => exact hfails.elim
  | yyfree tid ptr => exact hfails.elim
  | yyposixMemalign tid size object => exact hfails.elim
  | yymemalign tid size object => exact hfails.elim
  | untracked size object => exact hfails.elim

/-- The second of two equal failures leaves the profile as it was. -/
theorem failed_allocation_again :
    ∃ p p', ObjectRecorder.step {} { startPointer := 0x600000000000 } (.yymalloc 1 8 0 3) = some p
      ∧ p.step { startPointer := 0x600000000000 } (.yymalloc 1 8 0 3) = some p'
      ∧ SameProfile p p' := by
  have hstep : ∀ q : ObjectRecorder,
      q.step { startPointer := 0x600000000000 } (.yymalloc 1 8 0 3) = some
        { objStatusMap := (ObjTable.allocUpdate q.objStatusMap 8 0 3 1).1
          shadow := q.shadow
          updates := q.updates ++ [.mallocUpdateObject 0 8] } := by
    intro q
    simp only [ObjectRecorder.step, CallerStatus.recording_yymalloc (show 8 ≠ 0 by decide)]
    exact ObjectRecorder.recordNull q 8 3 1
  have hfails : HeapCall.Fails { startPointer := 0x600000000000 } (.yymalloc 1 8 0 3) :=
    ⟨by decide, rfl⟩
  refine ⟨_, _, hstep _, hstep _, (failed_allocation_iff hfails (hstep _)).mpr ?_⟩
  show HashMap.find _ 0 = _
  decide +kernel

/-- A block of 64 bytes that could not be resized counts for nothing. -/
theorem failed_realloc_loses_block :
    ¬ ∀ past p call p', Run (fun p => ObjectRecorder.step p { startPointer := 0x600000000000 })
      (fun _ _ _ => True) {} past p → call.Fails { startPointer := 0x600000000000 } →
      p.step { startPointer := 0x600000000000 } call = some p' → SameProfile p p' := by
  intro hclaim
  let alloc : HeapCall := .yymalloc 1 64 0x10000000000 3
  let resize : HeapCall := .yyrealloc 1 0x10000000000 128 0 3
  have hcounts : ((ObjectRecorder.step {} { startPointer := 0x600000000000 } alloc).bind fun p =>
      (p.step { startPointer := 0x600000000000 } resize).map fun p' =>
        ((p.shadow.pageMap 1 0).numUsedBytes, (p'.shadow.pageMap 1 0).numUsedBytes))
          = some (64, 0) := by decide +kernel
  obtain ⟨p, halloc, hrest⟩ := Option.bind_eq_some_iff.mp hcounts
  obtain ⟨p', hresize, hvals⟩ := Option.map_eq_some_iff.mp hrest
  obtain ⟨hbefore, hafter⟩ := Prod.mk.injEq .. |>.mp hvals
  have hsame := hclaim [alloc] p resize p' (Run.nil.snoc trivial halloc)
    ⟨by decide, rfl, by decide⟩ hresize
  have hpage := hsame.pages 1 0
  rw [hbefore, hafter] at hpage
  exact absurd hpage (by decide)

end MemPerf
