import MemPerf.InfoFile
import MemPerf.PredictorFile

/-!
# Loading an info file

The `MEMORY` build reads a style line, a line with the number of classes
and, for a bibop allocator, their sizes, and then a line for each
threshold and for the alignment. Four things go wrong on the way.

- `numberOfClassSizes++` stands behind the `if` of its keyword, so every
  line counts as one more class: the line of the sizes takes the count
  back, the lines behind it do not. No file with an alignment is loaded
  with the count it should have, and a file without one divides by zero.
- The middle threshold and the alignment have 16 bits. An alignment of a
  megabyte is loaded as 0.
- The number of classes has 16 bits and `classSizes` 8270 entries.
- A line of sizes that is too long for the buffer of `getline` is lost.

Where the numbers and the line fit, everything but the count is loaded.
-/

namespace MemPerf.Temp

open CText Word ProgramStatus

/-- A well-formed file. The sizes a bump pointer allocator's line may list
behind the number of classes are not read. -/
structure InfoFile where
  bibop : Bool
  count : Nat
  sizes : List Nat
  settings : List (InfoKey × Nat)
  ended : Bool := true
  count_range : 1 ≤ count ∧ count < 2 ^ 31
  sizes_length : bibop = true → sizes.length = count
  sizes_le : sizes.length ≤ count
  sizes_range : ∀ size ∈ sizes, 1 ≤ size ∧ size < 2 ^ 31
  settings_nodup : (settings.map Prod.fst).Nodup
  settings_range : ∀ setting ∈ settings, 1 ≤ setting.2 ∧ setting.2 < 2 ^ 31

namespace InfoFile

variable (f : InfoFile)

def styleLine : List Char :=
  "style ".toList ++ (if f.bibop then "bibop" else "bump_pointer").toList

def sizesLine : List Char := "class_sizes ".toList ++ numbers (f.count :: f.sizes)

def line (setting : InfoKey × Nat) : List Char := setting.1.keyword.toList ++ numbers [setting.2]

def text : List Char :=
  (linesOf f.ended (f.styleLine :: f.sizesLine :: f.settings.map line)).flatten

/-- The line of the sizes as `getline` gives it: only the last line of the
file may go without its newline. -/
def sizesRead : List Char := f.sizesLine ++ newline (f.ended || !f.settings.isEmpty)

/-- The fields hold the numbers of the file. -/
structure Loaded (p : ProgramStatus) : Prop where
  style : p.allocatorStyleIsBibop = f.bibop
  classSizes : f.bibop = true → ∀ i < f.count, p.classSizes i = f.sizes.getD i 0
  settings : ∀ setting ∈ f.settings, p.value setting.1 = setting.2

/-- There is one more class for large objects, and an alignment to divide by. -/
structure Faithful (p : ProgramStatus) : Prop extends f.Loaded p where
  numberOfClassSizes : p.numberOfClassSizes = f.count + 1
  largeObjectAlignment : p.largeObjectAlignment ≠ 0

/-- There is one more class for large objects, and one for each setting. -/
structure Overcounted (p : ProgramStatus) : Prop extends f.Loaded p where
  numberOfClassSizes : p.numberOfClassSizes = f.count + 1 + f.settings.length

/-- The settings fit in their variables, the sizes in the table, and their
line in the buffer. -/
structure Fits : Prop where
  settings : ∀ setting ∈ f.settings, setting.2 < 2 ^ setting.1.width
  count : f.count ≤ classSizesMax
  line : f.sizesRead.length < bufferSize

/-! ## The lines -/

theorem lines_range : ∀ m ∈ f.count :: f.sizes, m < 2 ^ 31 := by
  intro m hm
  rcases List.mem_cons.mp hm with rfl | hm
  · exact f.count_range.2
  · exact (f.sizes_range m hm).2

theorem getlines_text :
    getlines f.text =
      (f.styleLine ++ newline true) :: f.sizesRead :: linesOf f.ended (f.settings.map line) := by
  have hlines : linesOf f.ended (f.styleLine :: f.sizesLine :: f.settings.map line) =
      (f.styleLine ++ newline true) :: f.sizesRead :: linesOf f.ended (f.settings.map line) := by
    unfold sizesRead
    cases f.settings with
    | nil => rw [List.isEmpty_nil, Bool.not_true, Bool.or_false]; rfl
    | cons setting settings => rw [List.isEmpty_cons, Bool.not_false, Bool.or_true]; rfl
  rw [← hlines]
  refine getlines_linesOf f.ended ?_
  intro l hl
  rcases List.mem_cons.mp hl with rfl | hl
  · unfold styleLine
    cases f.bibop <;> decide
  rcases List.mem_cons.mp hl with rfl | hl
  · unfold sizesLine
    refine ⟨List.append_ne_nil_of_left_ne_nil (by decide) _, ?_⟩
    rw [List.mem_append, not_or]
    exact ⟨by decide, notMem_numbers (by decide) (by decide) _⟩
  · obtain ⟨⟨key, n⟩, -, rfl⟩ := List.mem_map.mp hl
    have hkey : key.keyword.toList ≠ [] ∧ '\n' ∉ key.keyword.toList := by cases key <;> decide
    refine ⟨by simp [line, hkey.1], ?_⟩
    rw [line, List.mem_append, not_or]
    exact ⟨hkey.2, notMem_numbers (by decide) (by decide) _⟩

/-! ## The buffer -/

theorem length_styleLine : (f.styleLine ++ newline true).length < bufferSize := by
  unfold styleLine
  cases f.bibop <;> decide

theorem length_settings : ∀ l ∈ linesOf f.ended (f.settings.map line), l.length < bufferSize := by
  intro l hl
  obtain ⟨_, hmem, ended, rfl⟩ := mem_linesOf hl
  obtain ⟨⟨key, n⟩, hsetting, rfl⟩ := List.mem_map.mp hmem
  have hkey : key.keyword.toList.length ≤ 24 := by cases key <;> decide
  have hdigits : (decimal n).length ≤ 10 := length_decimal_le (f.settings_range _ hsetting).2
  have hnewline := length_newline_le ended
  simp only [line, numbers, List.length_append, bufferSize]
  omega

/-- Only a list of many sizes does not fit. -/
theorem count_of_lost (h : ¬ f.sizesRead.length < bufferSize) : 4 ≤ f.count := by
  have hkey : "class_sizes ".toList.length = 12 := by decide
  have hnumbers := length_numbers_le f.lines_range
  have hnewline := length_newline_le (f.ended || !f.settings.isEmpty)
  have hle := f.sizes_le
  rw [List.length_cons] at hnumbers
  unfold sizesRead sizesLine bufferSize at h
  rw [List.length_append, List.length_append, hkey] at h
  omega

/-- What the buffer holds of the line of the sizes. -/
def heldSizes : List Char := if f.sizesRead.length < bufferSize then f.sizesRead else []

theorem buffered_text :
    buffered bufferSize (getlines f.text) =
      (f.styleLine ++ newline true) :: f.heldSizes :: linesOf f.ended (f.settings.map line) := by
  rw [f.getlines_text, buffered, if_pos f.length_styleLine, heldSizes]
  split
  · next hfits => rw [buffered, if_pos hfits, buffered_of_fits f.length_settings]
  · next hlost => rw [buffered_lost hlost f.length_settings]

/-! ## The line of the sizes -/

/-- The configuration after the style line. -/
def styled : ProgramStatus := { ({} : ProgramStatus) with allocatorStyleIsBibop := f.bibop }

theorem readLine_styleLine : readLine {} (f.styleLine ++ newline true) = some f.styled.counted := by
  unfold styleLine
  rw [List.append_assoc, styled]
  cases f.bibop with
  | true => exact readLine_style {} (by decide) (by decide)
  | false => exact readLine_style {} (by decide) (by decide)

/-- The configuration after the line of the sizes, up to the count of the line. -/
structure Table (p : ProgramStatus) : Prop where
  style : p.allocatorStyleIsBibop = f.bibop
  count : p.numberOfClassSizes = wrap 16 f.count
  value : ∀ key, p.value key = 0
  bibop : f.bibop = true → ∀ i, p.classSizes i = (f.sizes.take (wrap 16 f.count)).getD i 0

theorem readLine_bibop (h : f.bibop = true) (hfit : wrap 16 f.count ≤ classSizesMax)
    (ended : Bool) :
    ∃ p, readLine f.styled.counted (f.sizesLine ++ newline ended) = some p.counted ∧ f.Table p := by
  have hlen : wrap 16 f.count ≤ f.sizes.length := by
    rw [f.sizes_length h]
    exact Nat.mod_le ..
  have hread := readLine_classSizes (p := f.styled.counted) h
    (tokens_numbers ended f.lines_range) hlen
  rw [if_pos hfit, ← List.append_assoc] at hread
  obtain ⟨classSizes, hlt, hframe⟩ := storeSizes_frame (f.sizes.take (wrap 16 f.count)) 0
    { f.styled.counted with numberOfClassSizes := wrap 16 f.count }
  have hstored := storeSizes_classSizes (f.sizes.take (wrap 16 f.count)) 0
    { f.styled.counted with numberOfClassSizes := wrap 16 f.count }
  refine ⟨_, hread, ?_⟩
  generalize storeSizes (f.sizes.take (wrap 16 f.count)) 0
    { f.styled.counted with numberOfClassSizes := wrap 16 f.count } = p at hframe hstored
  refine ⟨?_, ?_, ?_, ?_⟩
  · rw [hframe]
    rfl
  · rw [hframe]
  · intro key
    rw [hframe]
    cases key <;> rfl
  · intro _ i
    have hsizes : ∀ size ∈ f.sizes.take (wrap 16 f.count), size < 2 ^ 31 :=
      fun size hsize => (f.sizes_range size (List.mem_of_mem_take hsize)).2
    rw [hstored i hsizes]
    split
    · rfl
    · next hi =>
        rw [List.getD_eq_getElem?_getD, List.getElem?_eq_none (by omega), Option.getD_none]
        rfl

theorem readLine_bump (h : f.bibop = false) (hfit : wrap 16 f.count ≤ classSizesMax)
    (ended : Bool) :
    ∃ p, readLine f.styled.counted (f.sizesLine ++ newline ended) = some p.counted ∧ f.Table p := by
  have hread := readLine_fillClassSizes (p := f.styled.counted) h
    (tokens_numbers ended f.lines_range)
  have hmax : 1 + (wrap 16 f.count - 1) ≤ classSizesMax := by
    simp only [classSizesMax] at hfit ⊢
    omega
  obtain ⟨classSizes, hlt, hfill⟩ := fillClassSizes_fits hmax
    ({ f.styled.counted with numberOfClassSizes := wrap 16 f.count }.setClassSize 0 24)
  rw [hfill, ← List.append_assoc] at hread
  refine ⟨_, hread, rfl, rfl, ?_, ?_⟩
  · intro key
    cases key <;> rfl
  · intro hbibop
    rw [h] at hbibop
    cases hbibop

/-- Too many sizes write past the table. -/
theorem readLine_overflow (hfit : ¬ wrap 16 f.count ≤ classSizesMax) (ended : Bool) :
    readLine f.styled.counted (f.sizesLine ++ newline ended) = none := by
  unfold sizesLine
  rw [List.append_assoc]
  cases h : f.bibop with
  | true =>
      have hlen : wrap 16 f.count ≤ f.sizes.length := by
        rw [f.sizes_length h]
        exact Nat.mod_le ..
      rw [readLine_classSizes h (tokens_numbers ended f.lines_range) hlen, if_neg hfit]
  | false =>
      rw [readLine_fillClassSizes h (tokens_numbers ended f.lines_range),
        fillClassSizes_overflow (by simp only [classSizesMax] at hfit ⊢; omega) (by decide)]
      rfl

theorem readLine_sizesLine (hfit : wrap 16 f.count ≤ classSizesMax) (ended : Bool) :
    ∃ p, readLine f.styled.counted (f.sizesLine ++ newline ended) = some p.counted ∧
      f.Table p := by
  cases h : f.bibop with
  | true => exact f.readLine_bibop h hfit ended
  | false => exact f.readLine_bump h hfit ended

/-! ## The whole file -/

/-- A setting that is read, and the count of its line. -/
def load (p : ProgramStatus) (setting : InfoKey × Nat) : ProgramStatus :=
  (p.load setting.1 setting.2).counted

theorem value_load (p : ProgramStatus) (setting : InfoKey × Nat) (key : InfoKey) :
    (load p setting).value key =
      if key = setting.1 then wrap setting.1.width setting.2 else p.value key := by
  rw [← ProgramStatus.value_load, load]
  cases key <;> rfl

theorem readLine_setting (p : ProgramStatus) {setting : InfoKey × Nat} (h : setting ∈ f.settings)
    (ended : Bool) : readLine p (line setting ++ newline ended) = some (load p setting) := by
  obtain ⟨key, n⟩ := setting
  rw [line, List.append_assoc]
  exact ProgramStatus.readLine_setting p key
    (tokens_numbers ended fun m hm => List.mem_singleton.mp hm ▸ (f.settings_range _ h).2)

/-- The settings are read behind whatever the line of the sizes gives. -/
theorem readInputInfoFile_text :
    readInputInfoFile f.text =
      (readLine f.styled.counted f.heldSizes).map (f.settings.foldl load ·) := by
  rw [readInputInfoFile, f.buffered_text, List.foldlM_cons, f.readLine_styleLine]
  simp only [Option.bind_eq_bind, Option.bind_some]
  rw [List.foldlM_cons]
  cases readLine f.styled.counted f.heldSizes with
  | none => rfl
  | some p =>
      exact foldlM_linesOf (fun setting hsetting q ended => f.readLine_setting q hsetting ended)
        f.ended p

/-- Sizes that run over the table end the run. -/
theorem readInputInfoFile_none (hline : f.sizesRead.length < bufferSize)
    (hfit : ¬ wrap 16 f.count ≤ classSizesMax) : readInputInfoFile f.text = none := by
  rw [readInputInfoFile_text, heldSizes, if_pos hline, sizesRead, f.readLine_overflow hfit]
  rfl

/-- Sizes that fit in the table are read, and the settings after them. -/
theorem readInputInfoFile_some (hline : f.sizesRead.length < bufferSize)
    (hfit : wrap 16 f.count ≤ classSizesMax) :
    ∃ p, f.Table p ∧ readInputInfoFile f.text = some (f.settings.foldl load p.counted) := by
  obtain ⟨p, hread, htable⟩ := f.readLine_sizesLine hfit (f.ended || !f.settings.isEmpty)
  refine ⟨p, htable, ?_⟩
  rw [readInputInfoFile_text, heldSizes, if_pos hline, sizesRead, hread]
  rfl

/-- A line of sizes that is too long is not even counted. -/
theorem readInputInfoFile_lost (hline : ¬ f.sizesRead.length < bufferSize) :
    readInputInfoFile f.text = some (f.settings.foldl load f.styled.counted) := by
  rw [readInputInfoFile_text, heldSizes, if_neg hline]
  rfl

theorem value_settings (p : ProgramStatus) : ∀ setting ∈ f.settings,
    (f.settings.foldl load p).value setting.1 = wrap setting.1.width setting.2 :=
  @value_foldl _ _ _ _ _ load ProgramStatus.value (fun key n => wrap key.width n) value_load _
    f.settings_nodup p

theorem value_of_notMem {key : InfoKey} (h : key ∉ f.settings.map Prod.fst) (p : ProgramStatus) :
    (f.settings.foldl load p).value key = p.value key :=
  @value_foldl_of_notMem _ _ _ _ _ load ProgramStatus.value (fun key n => wrap key.width n)
    value_load _ _ h p

/-- Every setting counts as a class. -/
theorem foldl_load_numberOfClassSizes (settings : List (InfoKey × Nat)) (p : ProgramStatus) :
    (settings.foldl load p.counted).numberOfClassSizes =
      wrap 16 (p.numberOfClassSizes + 1 + settings.length) := by
  induction settings generalizing p with
  | nil => rfl
  | cons setting settings ih =>
      obtain ⟨key, n⟩ := setting
      have hload : (p.counted.load key n).numberOfClassSizes =
          wrap 16 (p.numberOfClassSizes + 1) := by
        cases key <;> rfl
      rw [List.foldl_cons, load, ih, hload, List.length_cons]
      simp only [wrap]
      omega

theorem settings_length_le : f.settings.length ≤ 3 := by
  have hkeys : f.settings.map Prod.fst ⊆
      [.middleObjectThreshold, .largeObjectThreshold, .largeObjectAlignment] := by
    intro key _
    cases key <;> simp
  simpa using (f.settings_nodup.subperm hkeys).length_le

theorem foldl_load_frame (settings : List (InfoKey × Nat)) (p : ProgramStatus) :
    (settings.foldl load p).allocatorStyleIsBibop = p.allocatorStyleIsBibop ∧
      (settings.foldl load p).classSizes = p.classSizes := by
  induction settings generalizing p with
  | nil => exact ⟨rfl, rfl⟩
  | cons setting settings ih =>
      obtain ⟨key, n⟩ := setting
      rw [List.foldl_cons]
      cases key <;> exact ih _

/-- Without a line of the alignment there is none, and with one the count
is too high by the number of the settings. -/
theorem not_faithful : ¬ ∃ p, readInputInfoFile f.text = some p ∧ f.Faithful p := by
  rintro ⟨q, hread, hfaithful⟩
  have hfew := f.settings_length_le
  by_cases hline : f.sizesRead.length < bufferSize
  · by_cases hfit : wrap 16 f.count ≤ classSizesMax
    · obtain ⟨p, htable, hsome⟩ := f.readInputInfoFile_some hline hfit
      obtain rfl := Option.some.inj (hsome.symm.trans hread)
      have hkey : InfoKey.largeObjectAlignment ∈ f.settings.map Prod.fst := by
        by_contra hno
        have hvalue := f.value_of_notMem hno p.counted
        exact hfaithful.largeObjectAlignment (hvalue.trans (htable.value .largeObjectAlignment))
      have hpos : 0 < f.settings.length := by
        rw [← List.length_map (f := Prod.fst)]
        exact List.length_pos_of_mem hkey
      have hcount := foldl_load_numberOfClassSizes f.settings p
      rw [hfaithful.numberOfClassSizes, htable.count] at hcount
      simp only [wrap] at hcount
      omega
    · rw [f.readInputInfoFile_none hline hfit] at hread
      cases hread
  · -- the count is then the number of the settings
    obtain rfl := Option.some.inj ((f.readInputInfoFile_lost hline).symm.trans hread)
    have hcount := foldl_load_numberOfClassSizes f.settings f.styled
    have hzero : f.styled.numberOfClassSizes = 0 := rfl
    have hmany := f.count_of_lost hline
    rw [hfaithful.numberOfClassSizes, hzero, wrap_of_lt (by omega)] at hcount
    omega

/-- What is loaded, when the numbers and the line of the sizes fit. -/
theorem overcounted_of_fits (h : f.Fits) :
    ∃ p, readInputInfoFile f.text = some p ∧ f.Overcounted p := by
  have hmax := h.count
  have hfew := f.settings_length_le
  simp only [classSizesMax] at hmax
  have hwrap : wrap 16 f.count = f.count := wrap_of_lt (by omega)
  obtain ⟨p, htable, hsome⟩ := f.readInputInfoFile_some h.line (hwrap.le.trans h.count)
  obtain ⟨hstyle, hclasses⟩ := foldl_load_frame f.settings p.counted
  have hcount := foldl_load_numberOfClassSizes f.settings p
  rw [htable.count, hwrap, wrap_of_lt (by omega)] at hcount
  refine ⟨_, hsome, ⟨hstyle.trans htable.style, ?_, ?_⟩, hcount⟩
  · intro hbibop i hi
    have htake : f.sizes.take (wrap 16 f.count) = f.sizes := by
      rw [hwrap, ← f.sizes_length hbibop, List.take_length]
    rw [hclasses, ← htake]
    exact htable.bibop hbibop i
  · intro setting hsetting
    rw [f.value_settings p.counted setting hsetting]
    exact wrap_of_lt (h.settings setting hsetting)

theorem fits_of_overcounted {q : ProgramStatus} (hread : readInputInfoFile f.text = some q)
    (hq : f.Overcounted q) : f.Fits := by
  have hnumber := hq.numberOfClassSizes
  have hpos := f.count_range.1
  have hfew := f.settings_length_le
  by_cases hline : f.sizesRead.length < bufferSize
  · by_cases hfit : wrap 16 f.count ≤ classSizesMax
    · obtain ⟨p, htable, hsome⟩ := f.readInputInfoFile_some hline hfit
      obtain rfl := Option.some.inj (hsome.symm.trans hread)
      refine ⟨?_, ?_, hline⟩
      · intro setting hsetting
        rw [← hq.settings setting hsetting, f.value_settings p.counted setting hsetting]
        exact wrap_lt _ _
      · rw [foldl_load_numberOfClassSizes, htable.count] at hnumber
        simp only [wrap] at hnumber hfit
        omega
    · rw [f.readInputInfoFile_none hline hfit] at hread
      cases hread
  · obtain rfl := Option.some.inj ((f.readInputInfoFile_lost hline).symm.trans hread)
    have hzero : f.styled.numberOfClassSizes = 0 := rfl
    rw [foldl_load_numberOfClassSizes, hzero, wrap_of_lt (by omega)] at hnumber
    omega

/-- No file is loaded faithfully: the count comes out wrong, or there is no
alignment. Everything else comes out right, and the count too high by the
number of the settings, where the numbers and the line of the sizes fit; and
the predictor's file comes out right where the middle threshold fits. -/
theorem info_loading_iff (g : PredictorFile) :
    (¬ ∃ p, readInputInfoFile f.text = some p ∧ f.Faithful p) ∧
      ((∃ p, readInputInfoFile f.text = some p ∧ f.Overcounted p) ↔ f.Fits) ∧
      ((∃ info, PredictorInfo.readPredictorInfoFile g.text = some info ∧ g.Faithful info) ↔
        g.Fits) := by
  refine ⟨f.not_faithful, ⟨?_, f.overcounted_of_fits⟩, g.exists_faithful_iff⟩
  rintro ⟨p, hread, hp⟩
  exact f.fits_of_overcounted hread hp

/-- Two classes, and objects over half a megabyte aligned to a megabyte. -/
def megabyteAlignment : InfoFile where
  bibop := true
  count := 2
  sizes := [16, 524288]
  settings := [(.middleObjectThreshold, 1), (.largeObjectThreshold, 524288),
    (.largeObjectAlignment, 1048576)]
  count_range := by decide
  sizes_length _ := rfl
  sizes_le := by decide
  sizes_range := by decide
  settings_nodup := by decide
  settings_range := by decide

/-- The alignment is loaded as 0, and the two classes as six. -/
theorem megabyte_alignment_read_as_zero :
    (readInputInfoFile megabyteAlignment.text).map (fun p =>
        (p.largeObjectAlignment, p.numberOfClassSizes)) = some (0, 6) ∧
      ¬ ∃ p, readInputInfoFile megabyteAlignment.text = some p ∧ megabyteAlignment.Faithful p := by
  have hread : (readInputInfoFile megabyteAlignment.text).map (fun p =>
      (p.largeObjectAlignment, p.numberOfClassSizes)) = some (0, 6) := by decide +kernel
  refine ⟨hread, ?_⟩
  rintro ⟨p, hp, hfaithful⟩
  rw [hp, Option.map_some] at hread
  have hzero : p.largeObjectAlignment = 0 := congrArg Prod.fst (Option.some.inj hread)
  exact hfaithful.largeObjectAlignment hzero

end InfoFile

end MemPerf.Temp
