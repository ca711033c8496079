import MemPerf.Lib.Merge

/-!
# An insertion in two steps

An insertion first links the entry and then counts it, and others may
search the map in between. `recount` is the map as it will be when every
linked entry has been counted. Linking is an insertion there and counting
is nothing; a search that comes in between sees the same, unless it is for
the key being inserted.
-/

namespace Chained

namespace HashMap

variable {κ ν : Type*}

/-- The new entry at the end of its list. -/
def link (m : HashMap κ ν) (key : κ) (value : ν) : HashMap κ ν :=
  m.setBucket (m.hashIndex key) { m.home key with list := (m.home key).list ++ [⟨key, value⟩] }

def countUp (m : HashMap κ ν) (key : κ) : HashMap κ ν :=
  m.setBucket (m.hashIndex key) { m.home key with count := Word.wrap 16 ((m.home key).count + 1) }

theorem link_home (m : HashMap κ ν) (key : κ) (value : ν) :
    (m.link key value).home key =
      { m.home key with list := (m.home key).list ++ [⟨key, value⟩] } :=
  setBucket_self ..

theorem countUp_home (m : HashMap κ ν) (key : κ) :
    (m.countUp key).home key =
      { m.home key with count := Word.wrap 16 ((m.home key).count + 1) } :=
  setBucket_self ..

theorem link_home_of_ne (m : HashMap κ ν) {key other : κ} (value : ν)
    (h : m.hashIndex other ≠ m.hashIndex key) : (m.link key value).home other = m.home other :=
  setBucket_of_ne _ h _

theorem countUp_home_of_ne (m : HashMap κ ν) {key other : κ}
    (h : m.hashIndex other ≠ m.hashIndex key) : (m.countUp key).home other = m.home other :=
  setBucket_of_ne _ h _

theorem insert_eq_link_countUp (m : HashMap κ ν) (key : κ) (value : ν) :
    m.insert key value = (m.link key value).countUp key := by
  rw [insert, countUp, link_home]
  exact congrArg (fun b => { m with buckets := b }) (Function.update_idem ..).symm

/-- Every bucket counts what is in its list. -/
def recount (m : HashMap κ ν) : HashMap κ ν :=
  { m with buckets := fun i =>
      { list := (m.buckets i).list, count := (m.buckets i).list.length } }

variable {m : HashMap κ ν} {key : κ} {value : ν}

@[simp] theorem recount_hashIndex : m.recount.hashIndex key = m.hashIndex key := rfl

@[simp] theorem recount_list (i : Nat) : (m.recount.buckets i).list = (m.buckets i).list := rfl

@[simp] theorem recount_entries : m.recount.entries = m.entries := rfl

theorem recount_link (hroom : (m.home key).list.length + 1 < 2 ^ 16) :
    (m.link key value).recount = m.recount.insert key value := by
  have hbuckets : (m.link key value).recount.buckets = (m.recount.insert key value).buckets := by
    funext i
    by_cases hi : i = m.hashIndex key
    · subst hi
      have hinsert : (m.recount.insert key value).buckets (m.hashIndex key) =
          { list := (m.home key).list ++ [⟨key, value⟩],
            count := Word.wrap 16 ((m.home key).list.length + 1) } := setBucket_self ..
      have hlink : ((m.link key value).buckets (m.hashIndex key)).list =
          (m.home key).list ++ [⟨key, value⟩] := congrArg Bucket.list (link_home m key value)
      rw [hinsert, Word.wrap_of_lt hroom]
      simp only [recount, hlink, List.length_append, List.length_singleton]
    · have hlink : (m.link key value).buckets i = m.buckets i := setBucket_of_ne _ hi _
      rw [insert, recount_hashIndex, setBucket_of_ne _ hi]
      simp only [recount, hlink]
  exact congrArg (fun b => { m with buckets := b }) hbuckets

theorem recount_countUp : (m.countUp key).recount = m.recount := by
  have hbuckets : (m.countUp key).recount.buckets = m.recount.buckets := by
    funext i
    by_cases hi : i = m.hashIndex key
    · subst hi
      simp only [recount, countUp, setBucket_self, home]
    · simp only [recount, countUp, setBucket_of_ne _ hi]
  exact congrArg (fun b => { m with buckets := b }) hbuckets

theorem recount_write (r : Ref) (g : ν → ν) : (m.write r g).recount = m.recount.write r g := by
  have hbuckets : (m.write r g).recount.buckets = (m.recount.write r g).buckets := by
    funext i
    by_cases hi : i = r.1
    · subst hi
      simp only [recount, write, setBucket_self, List.length_modify]
    · simp only [recount, write, setBucket_of_ne _ hi]
  exact congrArg (fun b => { m with buckets := b }) hbuckets

section Find

variable [DecidableEq κ]

/-- A search of a bucket that is counted. -/
theorem ref_recount_of_counted (h : (m.home key).count = (m.home key).list.length) :
    m.ref? key = m.recount.ref? key := by
  have hentry : m.getEntry key = m.recount.getEntry key := by
    rw [getEntry, getEntry, h]
    rfl
  rw [ref?, ref?, hentry, recount_hashIndex]

/-- A search of a bucket whose last entry is not counted yet. -/
theorem ref_recount_of_pending (hcount : (m.home key).count + 1 = (m.home key).list.length)
    (hlast : ∀ e, (m.home key).list.getLast? = some e → e.key ≠ key) :
    m.ref? key = m.recount.ref? key := by
  have hentry : m.getEntry key = m.recount.getEntry key := by
    rw [getEntry, getEntry]
    have hlist : (m.recount.home key).list = (m.home key).list := rfl
    have hlength : (m.recount.home key).count = (m.home key).list.length := rfl
    rw [hlist, hlength, List.take_length]
    generalize (m.home key).list = list at hcount hlast
    cases list using List.reverseRecOn with
    | nil => simp at hcount
    | append_singleton front e =>
        rw [List.length_append, List.length_singleton] at hcount
        have hfront : (m.home key).count = front.length := by omega
        have hne : e.key ≠ key := hlast e (by simp)
        rw [hfront, List.take_left, List.findIdx?_append]
        simp [List.findIdx?_cons, hne]
  rw [ref?, ref?, hentry, recount_hashIndex]

theorem write_eq_modify {r : Ref} (h : m.ref? key = some r) (g : ν → ν) :
    m.write r g = m.modify key g := by
  obtain ⟨i, hi, rfl⟩ := Option.map_eq_some_iff.mp h
  rw [modify, hi]
  rfl

end Find

end HashMap

end Chained
