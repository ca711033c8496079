import MemPerf.SampleLog

/-!
# The friendliness report

At the end every thread has added its `friendlinessStatus` to the global
one, and `printFriendliness` prints what it has and percentages of it.
Whichever thread counted them, the report has the lines that were accessed
and those that were shared, each once for every time between two cleanups.

`printFriendliness` ends with the score of the conflict detector, which is
not part of the report here: it is computed in floating point, with 0.0 / 0.0
for every line number without a change of pages.
-/

namespace MemPerf.Original

open Word StepSystem Coverage Firsts Tally

/-! ## printFriendliness -/

def falseSharingTypes : List FalseSharingType := [.object, .active, .passive]

/-- The two lines for a type of sharing. -/
structure SharingReport where
  falseSharingType : FalseSharingType
  instructions : Nat
  instructionsPercent : Nat
  cacheLines : Nat
  cacheLinesPercent : Nat
deriving DecidableEq, Repr

/-- What is printed of 100 samples and more. -/
structure FriendlinessDetails where
  pageUtilization : Nat
  cacheUtilization : Nat
  storeInstructions : Nat
  cacheLines : Nat
  sharing : List SharingReport
deriving DecidableEq, Repr

/-- Percentages in unsigned integers; `none` is a division by zero. -/
def percent (part whole : Nat) : Option Nat :=
  if whole = 0 then none else some (wrap 32 (part * 100) / whole)

def printSharing (f : FriendlinessStatus) (type : FalseSharingType) : Option SharingReport := do
  let instructionsPercent ← percent (f.numOfSampledFalseSharingInstructions type)
    f.numOfSampledStoringInstructions
  let cacheLinesPercent ← percent (f.numOfSampledFalseSharingCacheLines type)
    f.numOfSampledCacheLines
  some { falseSharingType := type
         instructions := f.numOfSampledFalseSharingInstructions type
         instructionsPercent
         cacheLines := f.numOfSampledFalseSharingCacheLines type
         cacheLinesPercent }

/-- The loop over the types, where there are stores. -/
def printFalseSharing (f : FriendlinessStatus) : Option (List SharingReport) :=
  if f.numOfSampledStoringInstructions > 0 then falseSharingTypes.mapM (printSharing f) else some []

/-- `numOfSampling`, and the percentages if there are any; all there is before
`cacheConflictDetector.print`. -/
def printFriendliness (f : FriendlinessStatus) : Option (Nat × Option FriendlinessDetails) :=
  if f.numOfSampling / 100 = 0 then some (f.numOfSampling, none)
  else do
    let sharing ← printFalseSharing f
    some (f.numOfSampling, some {
      pageUtilization :=
        wrap 64 (f.totalMemoryUsageOfSampledPages * 100) / f.numOfSampling / pagesize
      cacheUtilization :=
        wrap 64 (f.totalMemoryUsageOfSampledCacheLines * 100) / f.numOfSampling / cachelineSize
      storeInstructions := f.numOfSampledStoringInstructions
      cacheLines := f.numOfSampledCacheLines
      sharing })

/-- `GlobalStatus::friendlinessStatus` when the threads have added theirs,
one after the other. -/
def globalStatus (threads : List Nat) (s : Sampler) : FriendlinessStatus :=
  threads.foldl (fun f t => f.add (s.friendlinessStatus t)) {}

/-! ## The sums over the threads -/

/-- A counter that `add` adds in `w` bits. -/
theorem globalStatus_field {w : Nat} {field : FriendlinessStatus → Nat} (hzero : field {} = 0)
    (hadd : ∀ f f', field (f.add f') = wrap w (field f + field f')) (s : Sampler)
    (threads : List Nat) : field (globalStatus threads s) =
      wrap w ((threads.map fun t => field (s.friendlinessStatus t)).sum) := by
  induction threads using List.reverseRecOn with
  | nil =>
      show field {} = wrap w 0
      rw [hzero]
      exact (Nat.zero_mod _).symm
  | append_singleton threads t ih =>
      have hsnoc : globalStatus (threads ++ [t]) s =
          (globalStatus threads s).add (s.friendlinessStatus t) := by
        rw [globalStatus, List.foldl_append]
        rfl
      rw [hsnoc, hadd, ih, wrap_add_wrap, List.map_append, List.sum_append, List.map_singleton,
        List.sum_singleton]

/-- The report of a log, when its counters have not wrapped around. -/
structure Reports (log : List Sample) (f : FriendlinessStatus) : Prop where
  sampling : f.numOfSampling = log.length
  stores : f.numOfSampledStoringInstructions = tally (fun x => x.isStore.toNat) log
  pages : f.totalMemoryUsageOfSampledPages = tally Sample.pageBytes log
  lines : f.totalMemoryUsageOfSampledCacheLines = tally Sample.lineBytes log
  cacheLines : f.numOfSampledCacheLines = (keys Sample.lineKey log).card
  sharedInstructions : ∀ type, f.numOfSampledFalseSharingInstructions type =
    tally (fun x => if x.sharing = some type then 1 else 0) log
  sharedLines : ∀ type, f.numOfSampledFalseSharingCacheLines type =
    (keys (Sample.sharedKey type) log).card

namespace Sample

/-- What every logged sample is like. -/
structure Valid (x : Sample) : Prop where
  pageBytes_le : x.pageBytes ≤ 4096
  lineBytes_le : x.lineBytes ≤ 64
  isStore : x.sharing ≠ none → x.isStore = true

end Sample

/-- An access adds itself to the log, or nothing. -/
theorem samples_snoc (past : List SamplerOp) (op : SamplerOp) :
    samples (past ++ [op]) = samples past ∨ ∃ thread address accessType,
      op = .doMemoryAccess thread address accessType
      ∧ samples (past ++ [op])
        = (session past).sampleOf thread address accessType :: samples past := by
  rw [samples, session_snoc]
  cases op with
  | shadow op => exact .inl rfl
  | doMemoryAccess thread address accessType =>
      rw [Session.step]
      split
      · exact .inr ⟨thread, address, accessType, rfl, rfl⟩
      · exact .inl rfl

theorem samples_valid (past : List SamplerOp) : ∀ x ∈ samples past, x.Valid := by
  induction past using List.reverseRecOn with
  | nil => exact fun _ hx => absurd hx List.not_mem_nil
  | append_singleton past op ih =>
      intro x hx
      rcases samples_snoc past op with hsame | ⟨thread, address, accessType, -, hlogged⟩
      · exact ih x (hsame ▸ hx)
      · rw [hlogged] at hx
        obtain rfl | hx := List.mem_cons.mp hx
        · refine ⟨covered_le .., covered_le .., fun hsharing => ?_⟩
          refine decide_eq_true (Decidable.byContradiction fun hno => hsharing ?_)
          exact if_neg hno
        · exact ih x hx

theorem samples_thread (past : List SamplerOp) : ∀ x ∈ samples past, ∃ address accessType,
    SamplerOp.doMemoryAccess x.thread address accessType ∈ past := by
  induction past using List.reverseRecOn with
  | nil => exact fun _ hx => absurd hx List.not_mem_nil
  | append_singleton past op ih =>
      intro x hx
      have hold : x ∈ samples past → ∃ address accessType,
          SamplerOp.doMemoryAccess x.thread address accessType ∈ past ++ [op] := by
        intro hx
        obtain ⟨address, accessType, hmem⟩ := ih x hx
        exact ⟨address, accessType, List.mem_append_left _ hmem⟩
      rcases samples_snoc past op with hsame | ⟨thread, address, accessType, rfl, hlogged⟩
      · exact hold (hsame ▸ hx)
      · rw [hlogged] at hx
        obtain rfl | hx := List.mem_cons.mp hx
        · exact ⟨address, accessType, List.mem_append_right _ (List.mem_singleton_self _)⟩
        · exact hold hx

theorem length_samples_le (past : List SamplerOp) : (samples past).length ≤ past.length := by
  induction past using List.reverseRecOn with
  | nil => exact Nat.le_refl 0
  | append_singleton past op ih =>
      rw [List.length_append, List.length_singleton]
      rcases samples_snoc past op with hsame | ⟨thread, address, accessType, -, hlogged⟩
      · rw [hsame]
        omega
      · rw [hlogged, List.length_cons]
        omega

section reports

variable {log : List Sample} {s : Sampler} {threads : List Nat}

/-- The threads' counts add up to the count of the log. -/
theorem globalStatus_count {w : Nat} (field : FriendlinessStatus → Nat) {f : Sample → Nat}
    (hnodup : threads.Nodup) (hall : ∀ x ∈ log, x.thread ∈ threads) (hzero : field {} = 0)
    (hadd : ∀ f f', field (f.add f') = wrap w (field f + field f'))
    (hfield : ∀ t, field (s.friendlinessStatus t) = ownCount w Sample.thread f t log)
    (hlt : tally f log < 2 ^ w) : field (globalStatus threads s) = tally f log := by
  rw [globalStatus_field hzero hadd, List.map_congr_left fun t _ => hfield t,
    sum_ownCount w f hnodup hall, wrap_of_lt hlt]

/-- The keys are no more than the samples. -/
theorem card_keys_le (key : Sample → Option (Nat × Nat)) : (keys key log).card ≤ log.length := by
  rw [← length_firsts]
  exact (firsts_sublist key log).length_le

theorem reports_of_tallies (hnodup : threads.Nodup)
    (h : ∀ t, Tallies log t (s.friendlinessStatus t)) (hall : ∀ x ∈ log, x.thread ∈ threads)
    (hvalid : ∀ x ∈ log, x.Valid) (hfew : log.length < 2 ^ 32) :
    Reports log (globalStatus threads s) := by
  have hfirsts : ∀ key : Sample → Option (Nat × Nat), ∀ x ∈ firsts key log, x.thread ∈ threads :=
    fun key x hx => hall x ((firsts_sublist key log).subset hx)
  have hcard : ∀ key : Sample → Option (Nat × Nat),
      tally (fun _ => 1) (firsts key log) < 2 ^ 32 := by
    intro key
    rw [tally_firsts]
    exact (card_keys_le key).trans_lt hfew
  have hbytes : ∀ {f : Sample → Nat}, (∀ x ∈ log, f x ≤ 4096) → tally f log < 2 ^ 64 := by
    intro f hf
    have hle := tally_le_mul hf
    omega
  have hone : tally (fun _ => 1) log = log.length := by simp [tally]
  refine ⟨?_, ?_, ?_, ?_, ?_, fun type => ?_, fun type => ?_⟩
  · exact (globalStatus_count FriendlinessStatus.numOfSampling hnodup hall rfl (fun _ _ => rfl)
      (fun t => (h t).sampling) (hone ▸ hfew)).trans hone
  · refine globalStatus_count FriendlinessStatus.numOfSampledStoringInstructions hnodup hall rfl
      (fun _ _ => rfl) (fun t => (h t).stores) ?_
    exact (tally_le_length fun x _ => Bool.toNat_le x.isStore).trans_lt hfew
  · exact globalStatus_count FriendlinessStatus.totalMemoryUsageOfSampledPages hnodup hall rfl
      (fun _ _ => rfl) (fun t => (h t).pages) (hbytes fun x hx => (hvalid x hx).pageBytes_le)
  · refine globalStatus_count FriendlinessStatus.totalMemoryUsageOfSampledCacheLines hnodup hall
      rfl (fun _ _ => rfl) (fun t => (h t).lines) (hbytes fun x hx => ?_)
    exact (hvalid x hx).lineBytes_le.trans (by decide)
  · rw [← tally_firsts]
    exact globalStatus_count FriendlinessStatus.numOfSampledCacheLines hnodup (hfirsts _) rfl
      (fun _ _ => rfl) (fun t => (h t).cacheLines) (hcard _)
  · refine globalStatus_count (fun f => f.numOfSampledFalseSharingInstructions type) hnodup hall
      rfl (fun _ _ => rfl) (fun t => (h t).sharedInstructions type) ?_
    refine (tally_le_length fun x _ => ?_).trans_lt hfew
    split <;> omega
  · rw [← tally_firsts]
    exact globalStatus_count (fun f => f.numOfSampledFalseSharingCacheLines type) hnodup
      (hfirsts _) rfl (fun _ _ => rfl) (fun t => (h t).sharedLines type) (hcard _)

/-! ## What is printed -/

theorem percent_le {part whole : Nat} (h : part ≤ whole) (hwhole : 0 < whole) :
    ∃ n, percent part whole = some n ∧ n ≤ 100 := by
  refine ⟨_, if_neg (Nat.ne_of_gt hwhole), Nat.div_le_of_le_mul ?_⟩
  have hwrap : wrap 32 (part * 100) ≤ part * 100 := Nat.mod_le _ _
  omega

/-- The two lines of a type of sharing, for a log. -/
structure SharingReport.Shows (r : SharingReport) (log : List Sample) : Prop where
  instructions : r.instructions =
    tally (fun x => if x.sharing = some r.falseSharingType then 1 else 0) log
  instructionsPercent : r.instructionsPercent ≤ 100
  cacheLines : r.cacheLines = (keys (Sample.sharedKey r.falseSharingType) log).card
  cacheLinesPercent : r.cacheLinesPercent ≤ 100

/-- A shared line is an accessed one, and an access that shares is a store. -/
theorem Reports.printSharing {f : FriendlinessStatus} (h : Reports log f)
    (hvalid : ∀ x ∈ log, x.Valid) (hstores : 0 < f.numOfSampledStoringInstructions)
    (type : FalseSharingType) : ∃ r, printSharing f type = some r ∧ r.Shows log := by
  have hinstructions : f.numOfSampledFalseSharingInstructions type
      ≤ f.numOfSampledStoringInstructions := by
    rw [h.sharedInstructions, h.stores]
    refine tally_le fun x hx => ?_
    split
    · next hsharing =>
        rw [(hvalid x hx).isStore (hsharing ▸ Option.some_ne_none type)]
        exact Nat.le_refl 1
    · exact Nat.zero_le _
  have hlines : f.numOfSampledFalseSharingCacheLines type ≤ f.numOfSampledCacheLines := by
    rw [h.sharedLines, h.cacheLines]
    exact Finset.card_le_card (keys_subset fun _ _ _ => Sample.lineKey_of_sharedKey)
  have hsome : 0 < f.numOfSampledCacheLines := by
    rw [h.cacheLines, Finset.card_pos]
    rw [h.stores] at hstores
    cases log with
    | nil => exact absurd hstores (Nat.lt_irrefl 0)
    | cons x log => exact ⟨_, mem_keys_cons.mpr (.inl rfl)⟩
  obtain ⟨n, hn, hnle⟩ := percent_le hinstructions hstores
  obtain ⟨m, hm, hmle⟩ := percent_le hlines hsome
  refine ⟨⟨type, f.numOfSampledFalseSharingInstructions type, n,
    f.numOfSampledFalseSharingCacheLines type, m⟩, ?_, h.sharedInstructions type, hnle,
    h.sharedLines type, hmle⟩
  rw [MemPerf.Original.printSharing, hn, hm]
  rfl

/-- A total over the samples, in percent of so many bytes each. -/
theorem utilization_le {total size : Nat} (hpos : 0 < log.length)
    (h : total ≤ size * log.length) (hsize : size ≤ 4096) (hfew : log.length < 2 ^ 32) :
    wrap 64 (total * 100) / log.length / size = total * 100 / log.length / size
      ∧ total * 100 / log.length / size ≤ 100 := by
  have hbytes : size * log.length ≤ 4096 * log.length := Nat.mul_le_mul_right _ hsize
  refine ⟨by rw [wrap_of_lt (by omega)], ?_⟩
  rw [Nat.div_div_eq_div_mul]
  refine Nat.div_le_of_le_mul ?_
  rw [Nat.mul_comm log.length]
  exact Nat.mul_le_mul_right 100 h

theorem exists_mapM {α β : Type*} {f : α → Option β} {P : β → Prop}
    (h : ∀ a, ∃ b, f a = some b ∧ P b) : ∀ l : List α, ∃ bs, l.mapM f = some bs ∧ ∀ b ∈ bs, P b
  | [] => ⟨[], rfl, fun _ hb => absurd hb List.not_mem_nil⟩
  | a :: l => by
      obtain ⟨b, hb, hPb⟩ := h a
      obtain ⟨bs, hbs, hPbs⟩ := exists_mapM h l
      refine ⟨b :: bs, ?_, ?_⟩
      · rw [List.mapM_cons, hb, hbs]
        rfl
      · intro c hc
        obtain rfl | hc := List.mem_cons.mp hc
        · exact hPb
        · exact hPbs c hc

/-- What is printed, for a log. -/
structure FriendlinessDetails.Shows (d : FriendlinessDetails) (log : List Sample) : Prop where
  pageUtilization : d.pageUtilization = tally Sample.pageBytes log * 100 / log.length / 4096
  pageUtilization_le : d.pageUtilization ≤ 100
  cacheUtilization : d.cacheUtilization = tally Sample.lineBytes log * 100 / log.length / 64
  cacheUtilization_le : d.cacheUtilization ≤ 100
  storeInstructions : d.storeInstructions = tally (fun x => x.isStore.toNat) log
  cacheLines : d.cacheLines = (keys Sample.lineKey log).card
  sharing : ∀ r ∈ d.sharing, r.Shows log

/-- No percentage is one of zero, or more than 100. -/
theorem Reports.printFriendliness {f : FriendlinessStatus} (h : Reports log f)
    (hvalid : ∀ x ∈ log, x.Valid) (hfew : log.length < 2 ^ 32) :
    ∃ details, printFriendliness f = some (log.length, details)
      ∧ ∀ d, details = some d → d.Shows log := by
  unfold MemPerf.Original.printFriendliness
  rw [h.sampling]
  split
  · exact ⟨none, rfl, fun d hd => by cases hd⟩
  · next hmany =>
      have hpos : 0 < log.length := by omega
      obtain ⟨hpages, hpagesLe⟩ := utilization_le hpos
        (tally_le_mul fun x hx => (hvalid x hx).pageBytes_le) (Nat.le_refl 4096) hfew
      obtain ⟨hlines, hlinesLe⟩ := utilization_le hpos
        (tally_le_mul fun x hx => (hvalid x hx).lineBytes_le) (by decide) hfew
      obtain ⟨sharing, hsharing, hshows⟩ : ∃ sharing,
          printFalseSharing f = some sharing ∧ ∀ r ∈ sharing, r.Shows log := by
        unfold printFalseSharing
        split
        · next hstores => exact exists_mapM (h.printSharing hvalid hstores) falseSharingTypes
        · exact ⟨[], rfl, fun _ hr => absurd hr List.not_mem_nil⟩
      rw [hsharing]
      refine ⟨_, rfl, ?_⟩
      rintro d hd
      obtain rfl := Option.some.inj hd
      rw [h.pages, h.lines]
      exact ⟨hpages, hpages ▸ hpagesLe, hlines, hlines ▸ hlinesLe, h.stores, h.cacheLines, hshows⟩

end reports

/-! ## Every run -/

end MemPerf.Original
