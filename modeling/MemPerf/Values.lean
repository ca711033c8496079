import Mathlib.Algebra.Group.Nat.Defs

/-!
# Constants and small enumerations

The macros of `definevalues.h` and `shadowmemory.hh` that the modelled
functions use, and the enumerations they switch on. The build switches
on: `OPEN_SAMPLING_EVENT`, `PREDICTION`, `UTIL`, `CACHE_UTIL`, `LOCK`.
-/

namespace MemPerf

@[simp] abbrev oneGb : Nat := 1073741824

@[simp] abbrev cachelineSize : Nat := 64
@[simp] abbrev pagesize : Nat := 4096
@[simp] abbrev numCachelinesPerPage : Nat := 64

@[simp] abbrev cachelineSizeMask : Nat := cachelineSize - 1
@[simp] abbrev pagesizeMask : Nat := pagesize - 1
@[simp] abbrev log2Pagesize : Nat := 12
@[simp] abbrev log2CachelineSize : Nat := 6

/-- `PAGE_MAP_SIZE / sizeof(PageMapEntry)`: 128 GB of 16-byte entries. -/
@[simp] abbrev maxPageMapEntries : Nat := 128 * oneGb / 16

/-- `CACHE_MAP_SIZE / sizeof(CacheMapEntry)`: 64 GB of 2-byte entries. -/
@[simp] abbrev maxCacheMapEntries : Nat := 64 * oneGb / 2

@[simp] abbrev numAddressRange : Nat := 8

/-- `CME`, the capacity of the conflict table. -/
@[simp] abbrev cmeMax : Nat := 128

/-- The length of `coherencyCaches`. -/
@[simp] abbrev coherencyCachesMax : Nat := 32

@[simp] abbrev numWord : Nat := 8

@[simp] abbrev maxThreadNumber : Nat := 1024

@[simp] abbrev abnormalValue : Nat := 100000000

inductive ObjectSizeType where
  | small
  | medium
  | large
deriving DecidableEq, Repr

/-- The enumerator's value. -/
def ObjectSizeType.toNat : ObjectSizeType → Nat
  | .small => 0
  | .medium => 1
  | .large => 2

inductive AllocationFunction where
  | malloc
  | free
  | calloc
  | realloc
  | posixMemalign
  | memalign
deriving DecidableEq, Repr

/-! ## Offsets inside pages and lines -/

theorem and_pagesizeMask (a : Nat) : a &&& pagesizeMask = a % 4096 :=
  Nat.and_two_pow_sub_one_eq_mod a 12

theorem and_cachelineSizeMask (a : Nat) : a &&& cachelineSizeMask = a % 64 :=
  Nat.and_two_pow_sub_one_eq_mod a 6

theorem shiftRight_log2Pagesize (a : Nat) : a >>> log2Pagesize = a / 4096 :=
  Nat.shiftRight_eq_div_pow a 12

theorem shiftRight_log2CachelineSize (a : Nat) : a >>> log2CachelineSize = a / 64 :=
  Nat.shiftRight_eq_div_pow a 6

/-- `alignup` on `size_t`: 64-bit addition, then the low bits masked off. -/
def alignup (size alignto : Nat) : Nat :=
  if size % alignto = 0 then size
  else
    let bumped := (size + (alignto - 1)) % 2 ^ 64
    bumped - (bumped &&& (alignto - 1))

/-- Rounding a length that is not within a page of `2 ^ 64` up to pages. -/
theorem alignup_pagesize {size : Nat} (h : size + 4095 < 2 ^ 64) :
    alignup size pagesize = (size + 4095) / 4096 * 4096 := by
  unfold alignup
  split
  · next h0 => simp only [pagesize] at h0; omega
  · next h0 =>
      have hmask : ∀ a, a &&& (pagesize - 1) = a % 4096 := and_pagesizeMask
      simp only [hmask]
      simp only [pagesize] at h0 ⊢
      omega

end MemPerf
