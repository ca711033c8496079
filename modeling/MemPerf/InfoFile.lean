import MemPerf.ClassTable
import MemPerf.Lib.Text

/-!
# The info file of an allocator

The prerun helper writes what it found out about an allocator into a text
file, and the `MEMORY` build reads its configuration from such a file. The
reader looks at every line for each of its keywords.

The reader gives `getline` a mapping of 53248 bytes. For a longer line
`getline` calls the interposed `yyrealloc`, which copies nothing as long as
the profiler is not initialized: such a line is lost.
-/

namespace MemPerf.Temp

open CText Word

/-! ## The writer -/

/-- What the prerun helper holds when the program exits: the style, the
first `nextFreeClassIndex` cells of `class_sizes`, and the threshold. -/
structure PrerunInfo where
  bibop : Bool
  classSizes : List Nat
  largeObjectThreshold : Nat
  classSizes_length : classSizes.length ≤ 8269
  classSizes_pos : bibop = true → 0 < classSizes.length
  classSizes_ascending : classSizes.Pairwise (· < ·)
  classSizes_lt : ∀ size ∈ classSizes, size < 2 ^ 31
  largeObjectThreshold_lt : largeObjectThreshold < 2 ^ 31

namespace PrerunInfo

variable (a : PrerunInfo)

/-- The numbers of `writeClassSizes`, each with the space behind it. -/
def sizesText (sizes : List Nat) : List Char := sizes.flatMap fun size => decimal size ++ [' ']

def writeClassSizes : List Char :=
  "class_sizes ".toList ++ decimal a.classSizes.length ++ [' '] ++ sizesText a.classSizes ++ ['\n']

def exitHandler : List Char :=
  "style ".toList ++ (if a.bibop then "bibop" else "bump_pointer").toList ++ ['\n'] ++
    (if a.bibop then a.writeClassSizes else []) ++
    "large_object_threshold ".toList ++ decimal a.largeObjectThreshold ++ ['\n']

end PrerunInfo

/-! ## The reader -/

namespace ProgramStatus

/-- `(unsigned int)` of an `int`. -/
def toUnsigned (w : Nat) (x : Int) : Nat := (x % 2 ^ w).toNat

/-- `classSizes[i] = x`. -/
def setClassSize (p : ProgramStatus) (i x : Nat) : ProgramStatus :=
  { p with
    classSizes := Function.update p.classSizes i (wrap 32 x)
    classSizes_lt := fun j => by
      by_cases h : j = i
      · subst h
        rw [Function.update_self]
        exact wrap_lt 32 x
      · rw [Function.update_of_ne h]
        exact p.classSizes_lt j }

/-- The five readers get the line's first token and share the state of
`strtok`. Without a next token they pass a null pointer on. -/
def readAllocatorStyleFromInfo (token : List Char) (p : ProgramStatus) (rest : List Char) :
    Option (ProgramStatus × List Char) :=
  if token = "style".toList then do
    let (token, rest) ← strtok ' ' rest
    some ({ p with allocatorStyleIsBibop := decide (token = "bibop\n".toList) }, rest)
  else some (p, rest)

def readMiddleObjectThresholdFromInfo (token : List Char) (p : ProgramStatus) (rest : List Char) :
    Option (ProgramStatus × List Char) :=
  if token = "middle_object_threshold".toList then do
    let (token, rest) ← strtok ' ' rest
    some ({ p with middleObjectThreshold := toUnsigned 16 (atoi token) }, rest)
  else some (p, rest)

/-- The loop that reads `n` sizes into `classSizes[i..]`. -/
def readClassSizes : Nat → Nat → ProgramStatus → List Char → Option (ProgramStatus × List Char)
  | 0, _, p, rest => some (p, rest)
  | n + 1, i, p, rest => do
      let (token, rest) ← strtok ' ' rest
      if i < classSizesMax then
        readClassSizes n (i + 1) (p.setClassSize i (toUnsigned 32 (atoi token))) rest
      else none

/-- The loop that computes `n` sizes of a bump pointer allocator. -/
def fillClassSizes : Nat → Nat → ProgramStatus → Option ProgramStatus
  | 0, _, p => some p
  | n + 1, i, p =>
      if i < classSizesMax then
        fillClassSizes n (i + 1) (p.setClassSize i (p.classSizes (i - 1) + 16))
      else none

/-- `numberOfClassSizes++` is not part of the `if`. -/
def readAllocatorClassSizesFromInfo (token : List Char) (p : ProgramStatus) (rest : List Char) :
    Option (ProgramStatus × List Char) := do
  let (p, rest) ←
    if token = "class_sizes".toList then do
      let (token, rest) ← strtok ' ' rest
      let p := { p with numberOfClassSizes := toUnsigned 16 (atoi token) }
      if p.allocatorStyleIsBibop then readClassSizes p.numberOfClassSizes 0 p rest
      else
        (fillClassSizes (p.numberOfClassSizes - 1) 1 (p.setClassSize 0 24)).map fun p => (p, rest)
    else some (p, rest)
  some ({ p with numberOfClassSizes := wrap 16 (p.numberOfClassSizes + 1) }, rest)

def readLargeObjectThresholdFromInfo (token : List Char) (p : ProgramStatus) (rest : List Char) :
    Option (ProgramStatus × List Char) :=
  if token = "large_object_threshold".toList then do
    let (token, rest) ← strtok ' ' rest
    some ({ p with largeObjectThreshold := toUnsigned 32 (atoi token) }, rest)
  else some (p, rest)

def readLargeObjectAlignmentFromInfo (token : List Char) (p : ProgramStatus) (rest : List Char) :
    Option (ProgramStatus × List Char) :=
  if token = "large_object_alignment".toList then do
    let (token, rest) ← strtok ' ' rest
    some ({ p with largeObjectAlignment := toUnsigned 16 (atoi token) }, rest)
  else some (p, rest)

/-- The body of the loop over the lines. -/
def readLine (p : ProgramStatus) (line : List Char) : Option ProgramStatus :=
  match strtok ' ' line with
  | none => some p
  | some (token, rest) => do
      let (p, rest) ← readAllocatorStyleFromInfo token p rest
      let (p, rest) ← readMiddleObjectThresholdFromInfo token p rest
      let (p, rest) ← readAllocatorClassSizesFromInfo token p rest
      let (p, rest) ← readLargeObjectThresholdFromInfo token p rest
      let (p, _) ← readLargeObjectAlignmentFromInfo token p rest
      some p

def bufferSize : Nat := 53248

def readInputInfoFile (text : List Char) : Option ProgramStatus :=
  (buffered bufferSize (getlines text)).foldlM readLine {}

/-! ## The lines -/

theorem toUnsigned_natCast (w x : Nat) : toUnsigned w x = wrap w x := by
  rw [toUnsigned, wrap]
  norm_cast

/-- The count after a line. -/
def counted (p : ProgramStatus) : ProgramStatus :=
  { p with numberOfClassSizes := wrap 16 (p.numberOfClassSizes + 1) }

/-- A line of another keyword only counts. -/
theorem readAllocatorClassSizes_of_ne {token : List Char} (h : token ≠ "class_sizes".toList)
    (p : ProgramStatus) (rest : List Char) :
    readAllocatorClassSizesFromInfo token p rest = some (p.counted, rest) := by
  rw [readAllocatorClassSizesFromInfo, if_neg h]
  rfl

theorem readLine_style (p : ProgramStatus) {word : List Char} (hne : word ≠ []) (h : ' ' ∉ word) :
    readLine p ("style ".toList ++ word) =
      some { p with allocatorStyleIsBibop := decide (word = "bibop\n".toList) }.counted := by
  have hline : strtok ' ' ("style ".toList ++ word) = some ("style".toList, word) :=
    strtok_key (by decide) (by decide) (by decide) _
  simp only [readLine, hline]
  rw [readAllocatorStyleFromInfo, if_pos rfl, strtok_last hne h]
  simp only [Option.bind_eq_bind, Option.bind_some]
  rw [readMiddleObjectThresholdFromInfo, if_neg (by decide), Option.bind_some,
    readAllocatorClassSizes_of_ne (by decide), Option.bind_some,
    readLargeObjectThresholdFromInfo, if_neg (by decide), Option.bind_some,
    readLargeObjectAlignmentFromInfo, if_neg (by decide), Option.bind_some]

/-- The keywords with one number behind them. -/
inductive InfoKey
  | middleObjectThreshold
  | largeObjectThreshold
  | largeObjectAlignment
deriving DecidableEq, Repr

/-- The keyword and the blank behind it. -/
def InfoKey.keyword : InfoKey → String
  | middleObjectThreshold => "middle_object_threshold "
  | largeObjectThreshold => "large_object_threshold "
  | largeObjectAlignment => "large_object_alignment "

/-- The bits of the variable. -/
def InfoKey.width : InfoKey → Nat
  | middleObjectThreshold => 16
  | largeObjectThreshold => 32
  | largeObjectAlignment => 16

def value (p : ProgramStatus) : InfoKey → Nat
  | .middleObjectThreshold => p.middleObjectThreshold
  | .largeObjectThreshold => p.largeObjectThreshold
  | .largeObjectAlignment => p.largeObjectAlignment

def load (p : ProgramStatus) (key : InfoKey) (n : Nat) : ProgramStatus :=
  match key with
  | .middleObjectThreshold => { p with middleObjectThreshold := wrap 16 n }
  | .largeObjectThreshold => { p with largeObjectThreshold := wrap 32 n }
  | .largeObjectAlignment => { p with largeObjectAlignment := wrap 16 n }

theorem value_load (p : ProgramStatus) (key key' : InfoKey) (n : Nat) :
    (p.load key n).value key' = if key' = key then wrap key.width n else p.value key' := by
  cases key <;> cases key' <;> rfl

/-- A line of a number loads it, cut to the width of its variable, and
counts. -/
theorem readLine_setting (p : ProgramStatus) (key : InfoKey) {text : List Char} {n : Nat}
    (h : Tokens text [n] []) :
    readLine p (key.keyword.toList ++ text) = some (p.load key n).counted := by
  obtain _ | ⟨hnext, hatoi, h⟩ := h
  obtain _ | _ := h
  cases key with
  | middleObjectThreshold =>
      have hline : strtok ' ' ("middle_object_threshold ".toList ++ text) =
          some ("middle_object_threshold".toList, text) :=
        strtok_key (by decide) (by decide) (by decide) _
      simp only [readLine, InfoKey.keyword, hline]
      rw [readAllocatorStyleFromInfo, if_neg (by decide)]
      simp only [Option.bind_eq_bind, Option.bind_some]
      rw [readMiddleObjectThresholdFromInfo, if_pos rfl, hnext]
      simp only [Option.bind_eq_bind, Option.bind_some, hatoi, toUnsigned_natCast]
      rw [readAllocatorClassSizes_of_ne (by decide), Option.bind_some,
        readLargeObjectThresholdFromInfo, if_neg (by decide), Option.bind_some,
        readLargeObjectAlignmentFromInfo, if_neg (by decide), Option.bind_some]
      rfl
  | largeObjectThreshold =>
      have hline : strtok ' ' ("large_object_threshold ".toList ++ text) =
          some ("large_object_threshold".toList, text) :=
        strtok_key (by decide) (by decide) (by decide) _
      simp only [readLine, InfoKey.keyword, hline]
      rw [readAllocatorStyleFromInfo, if_neg (by decide)]
      simp only [Option.bind_eq_bind, Option.bind_some]
      rw [readMiddleObjectThresholdFromInfo, if_neg (by decide), Option.bind_some,
        readAllocatorClassSizes_of_ne (by decide), Option.bind_some,
        readLargeObjectThresholdFromInfo, if_pos rfl, hnext]
      simp only [Option.bind_eq_bind, Option.bind_some, hatoi, toUnsigned_natCast]
      rw [readLargeObjectAlignmentFromInfo, if_neg (by decide), Option.bind_some]
      rfl
  | largeObjectAlignment =>
      have hline : strtok ' ' ("large_object_alignment ".toList ++ text) =
          some ("large_object_alignment".toList, text) :=
        strtok_key (by decide) (by decide) (by decide) _
      simp only [readLine, InfoKey.keyword, hline]
      rw [readAllocatorStyleFromInfo, if_neg (by decide)]
      simp only [Option.bind_eq_bind, Option.bind_some]
      rw [readMiddleObjectThresholdFromInfo, if_neg (by decide), Option.bind_some,
        readAllocatorClassSizes_of_ne (by decide), Option.bind_some,
        readLargeObjectThresholdFromInfo, if_neg (by decide), Option.bind_some,
        readLargeObjectAlignmentFromInfo, if_pos rfl, hnext]
      simp only [Option.bind_eq_bind, Option.bind_some, hatoi, toUnsigned_natCast]
      rfl

/-! ## The line of the sizes -/

/-- What the loop leaves when it reads these sizes. -/
def storeSizes : List Nat → Nat → ProgramStatus → ProgramStatus
  | [], _, p => p
  | size :: sizes, i, p => storeSizes sizes (i + 1) (p.setClassSize i size)

theorem setClassSize_wrap (p : ProgramStatus) (i x : Nat) :
    p.setClassSize i (wrap 32 x) = p.setClassSize i x := by
  simp [setClassSize, wrap]

theorem readClassSizes_tokens {text rest : List Char} {sizes : List Nat}
    (h : Tokens text sizes rest) (i : Nat) (p : ProgramStatus)
    (hlen : i + sizes.length ≤ classSizesMax) :
    readClassSizes sizes.length i p text = some (storeSizes sizes i p, rest) := by
  induction h generalizing i p with
  | nil s => rfl
  | cons htoken hn h ih =>
      rw [List.length_cons] at hlen ⊢
      rw [readClassSizes, htoken]
      simp only [Option.bind_eq_bind, Option.bind_some]
      rw [if_pos (by omega), hn, toUnsigned_natCast, setClassSize_wrap]
      exact ih (i + 1) _ (by omega)

theorem readClassSizes_overflow {text rest : List Char} {sizes : List Nat}
    (h : Tokens text sizes rest) (i : Nat) (p : ProgramStatus)
    (hlen : classSizesMax < i + sizes.length) (hi : i ≤ classSizesMax) :
    readClassSizes sizes.length i p text = none := by
  induction h generalizing i p with
  | nil s =>
      simp only [List.length_nil] at hlen
      omega
  | cons htoken hn h ih =>
      rw [List.length_cons] at hlen ⊢
      rw [readClassSizes, htoken]
      simp only [Option.bind_eq_bind, Option.bind_some]
      split
      · exact ih (i + 1) _ (by omega) (by omega)
      · rfl

/-- Storing sizes changes `classSizes` only. -/
theorem storeSizes_frame (sizes : List Nat) (i : Nat) (p : ProgramStatus) :
    ∃ classSizes hlt, storeSizes sizes i p =
      { p with classSizes := classSizes, classSizes_lt := hlt } := by
  induction sizes generalizing i p with
  | nil => exact ⟨p.classSizes, p.classSizes_lt, rfl⟩
  | cons size sizes ih =>
      obtain ⟨classSizes, hlt, heq⟩ := ih (i + 1) (p.setClassSize i size)
      exact ⟨classSizes, hlt, heq⟩

theorem storeSizes_classSizes : ∀ (sizes : List Nat) (i : Nat) (p : ProgramStatus) (j : Nat),
    (∀ size ∈ sizes, size < 2 ^ 31) → (storeSizes sizes i p).classSizes j =
      if i ≤ j ∧ j < i + sizes.length then sizes.getD (j - i) 0 else p.classSizes j := by
  intro sizes
  induction sizes with
  | nil =>
      intro i p j _
      rw [storeSizes, if_neg (by simp)]
  | cons size sizes ih =>
      intro i p j hlt
      rw [storeSizes, ih _ _ _ fun x hx => hlt x (List.mem_cons_of_mem size hx)]
      simp only [setClassSize, List.length_cons]
      rcases lt_trichotomy j i with hj | rfl | hj
      · rw [if_neg (by omega), if_neg (by omega), Function.update_of_ne (by omega)]
      · have hsize := hlt size List.mem_cons_self
        rw [if_neg (by omega), if_pos (by omega), Function.update_self, Nat.sub_self,
          List.getD_cons_zero, wrap_of_lt (by omega)]
      · rw [Function.update_of_ne (by omega)]
        refine if_congr (by omega) ?_ rfl
        obtain ⟨k, rfl⟩ : ∃ k, j = i + 1 + k := ⟨j - (i + 1), by omega⟩
        rw [show i + 1 + k - (i + 1) = k by omega, show i + 1 + k - i = k + 1 by omega,
          List.getD_cons_succ]

/-- On a line of sizes only the reader of the sizes does something. -/
theorem readLine_sizes {p : ProgramStatus} {text token rest : List Char} {n : Nat}
    (hnext : strtok ' ' text = some (token, rest)) (hatoi : atoi token = n) :
    readLine p ("class_sizes ".toList ++ text) =
      (if p.allocatorStyleIsBibop then
        readClassSizes (wrap 16 n) 0 { p with numberOfClassSizes := wrap 16 n } rest
      else
        (fillClassSizes (wrap 16 n - 1) 1
          ({ p with numberOfClassSizes := wrap 16 n }.setClassSize 0 24)).map
            fun p => (p, rest)).map fun result => result.1.counted := by
  have hline : strtok ' ' ("class_sizes ".toList ++ text) = some ("class_sizes".toList, text) :=
    strtok_key (by decide) (by decide) (by decide) _
  simp only [readLine, hline]
  rw [readAllocatorStyleFromInfo, if_neg (by decide)]
  simp only [Option.bind_eq_bind, Option.bind_some]
  rw [readMiddleObjectThresholdFromInfo, if_neg (by decide), Option.bind_some,
    readAllocatorClassSizesFromInfo, if_pos rfl, hnext]
  simp only [Option.bind_eq_bind, Option.bind_some, hatoi, toUnsigned_natCast]
  by_cases hp : p.allocatorStyleIsBibop = true
  · rw [if_pos hp, if_pos hp]
    cases readClassSizes (wrap 16 n) 0 { p with numberOfClassSizes := wrap 16 n } rest with
    | none => rfl
    | some result =>
        simp only [Option.map_some, Option.bind_some]
        rw [readLargeObjectThresholdFromInfo, if_neg (by decide), Option.bind_some,
          readLargeObjectAlignmentFromInfo, if_neg (by decide), Option.bind_some]
        rfl
  · rw [if_neg hp, if_neg hp]
    cases fillClassSizes (wrap 16 n - 1) 1
        ({ p with numberOfClassSizes := wrap 16 n }.setClassSize 0 24) with
    | none => rfl
    | some q =>
        simp only [Option.map_some, Option.bind_some]
        rw [readLargeObjectThresholdFromInfo, if_neg (by decide), Option.bind_some,
          readLargeObjectAlignmentFromInfo, if_neg (by decide), Option.bind_some]
        rfl

/-- A list of sizes is read as far as the 16 bits of its length go, and
runs over the table when that is too far. -/
theorem readLine_classSizes {p : ProgramStatus} (hp : p.allocatorStyleIsBibop = true)
    {text rest : List Char} {n : Nat} {sizes : List Nat} (h : Tokens text (n :: sizes) rest)
    (hlen : wrap 16 n ≤ sizes.length) :
    readLine p ("class_sizes ".toList ++ text) =
      if wrap 16 n ≤ classSizesMax then
        some (storeSizes (sizes.take (wrap 16 n)) 0
          { p with numberOfClassSizes := wrap 16 n }).counted
      else none := by
  obtain _ | ⟨hnext, hatoi, h⟩ := h
  rw [← List.take_append_drop (wrap 16 n) sizes] at h
  obtain ⟨mid, h, -⟩ := h.split
  have hcount : (sizes.take (wrap 16 n)).length = wrap 16 n := by rw [List.length_take]; omega
  rw [readLine_sizes hnext hatoi, if_pos hp]
  by_cases hfit : wrap 16 n ≤ classSizesMax
  · have hread := readClassSizes_tokens h 0 { p with numberOfClassSizes := wrap 16 n } (by omega)
    rw [hcount] at hread
    rw [if_pos hfit, hread]
    rfl
  · have hread := readClassSizes_overflow h 0 { p with numberOfClassSizes := wrap 16 n } (by omega)
      (Nat.zero_le _)
    rw [hcount] at hread
    rw [if_neg hfit, hread]
    rfl

/-- The loop that computes sizes stays in the table, or runs over it. -/
theorem fillClassSizes_fits {n i : Nat} (h : i + n ≤ classSizesMax) (p : ProgramStatus) :
    ∃ classSizes hlt, fillClassSizes n i p =
      some { p with classSizes := classSizes, classSizes_lt := hlt } := by
  induction n generalizing i p with
  | zero => exact ⟨p.classSizes, p.classSizes_lt, rfl⟩
  | succ n ih =>
      obtain ⟨classSizes, hlt, heq⟩ := ih (i := i + 1) (by omega)
        (p.setClassSize i (p.classSizes (i - 1) + 16))
      refine ⟨classSizes, hlt, ?_⟩
      rw [fillClassSizes, if_pos (by omega), heq]
      rfl

theorem fillClassSizes_overflow {n i : Nat} (h : classSizesMax < i + n) (hi : i ≤ classSizesMax)
    (p : ProgramStatus) : fillClassSizes n i p = none := by
  induction n generalizing i p with
  | zero => omega
  | succ n ih =>
      rw [fillClassSizes]
      split
      · exact ih (by omega) (by omega) _
      · rfl

/-- Only the first number of the line is read for a bump pointer allocator. -/
theorem readLine_fillClassSizes {p : ProgramStatus} (hp : p.allocatorStyleIsBibop = false)
    {text rest : List Char} {n : Nat} {sizes : List Nat} (h : Tokens text (n :: sizes) rest) :
    readLine p ("class_sizes ".toList ++ text) =
      (fillClassSizes (wrap 16 n - 1) 1
        ({ p with numberOfClassSizes := wrap 16 n }.setClassSize 0 24)).map counted := by
  obtain _ | ⟨hnext, hatoi, -⟩ := h
  rw [readLine_sizes hnext hatoi, if_neg (by rw [hp]; decide), Option.map_map]
  rfl

end ProgramStatus

/-! ## What reads back -/

open ProgramStatus

namespace PrerunInfo

variable (a : PrerunInfo)

/-- No newline stands inside a line that is written. -/
theorem notMem_threshold :
    '\n' ∉ "large_object_threshold ".toList ++ decimal a.largeObjectThreshold := by
  rw [List.mem_append, not_or]
  exact ⟨by decide, notMem_decimal (by decide)⟩

theorem notMem_sizes : '\n' ∉ "class_sizes ".toList ++
    (decimal a.classSizes.length ++ ' ' :: sizesText a.classSizes) := by
  rw [List.mem_append, List.mem_append, List.mem_cons, sizesText, List.mem_flatMap, not_or, not_or,
    not_or]
  refine ⟨by decide, notMem_decimal (by decide), by decide, ?_⟩
  rintro ⟨size, -, hmem⟩
  rcases List.mem_append.mp hmem with hmem | hmem
  · exact notMem_decimal (by decide) hmem
  · rw [List.mem_singleton] at hmem
    cases hmem

theorem bibop_text (style key n sizes last m : List Char) :
    style ++ ['\n'] ++ (key ++ n ++ [' '] ++ sizes ++ ['\n']) ++ last ++ m ++ ['\n'] =
      style ++ '\n' :: ((key ++ (n ++ ' ' :: sizes)) ++ '\n' :: ((last ++ m) ++ '\n' :: [])) := by
  simp

theorem bump_text (style last m : List Char) :
    style ++ ['\n'] ++ [] ++ last ++ m ++ ['\n']
      = style ++ '\n' :: ((last ++ m) ++ '\n' :: []) := by
  simp

/-- The line `writeClassSizes` writes, as `getline` gives it. -/
def classSizesLine : List Char :=
  "class_sizes ".toList ++
    (decimal a.classSizes.length ++ ' ' :: (sizesText a.classSizes ++ ['\n']))

theorem getlines_bibop (h : a.bibop = true) : getlines a.exitHandler =
    ["style ".toList ++ ("bibop".toList ++ ['\n']), a.classSizesLine,
      "large_object_threshold ".toList ++ (decimal a.largeObjectThreshold ++ ['\n'])] := by
  have hstyle : '\n' ∉ "style ".toList ++ "bibop".toList := by decide
  have htext : a.exitHandler = "style ".toList ++ "bibop".toList ++ '\n' ::
      ("class_sizes ".toList ++ (decimal a.classSizes.length ++ ' ' :: sizesText a.classSizes) ++
        '\n' :: ("large_object_threshold ".toList ++ decimal a.largeObjectThreshold ++
          '\n' :: [])) := by
    unfold exitHandler
    rw [if_pos h, if_pos h]
    exact bibop_text _ _ _ _ _ _
  unfold classSizesLine
  rw [htext, getlines_cons hstyle, getlines_cons a.notMem_sizes, getlines_cons a.notMem_threshold,
    getlines_nil]
  simp only [List.append_assoc, List.cons_append]

theorem getlines_bump (h : ¬ a.bibop = true) : getlines a.exitHandler =
    ["style ".toList ++ ("bump_pointer".toList ++ ['\n']),
      "large_object_threshold ".toList ++ (decimal a.largeObjectThreshold ++ ['\n'])] := by
  have hstyle : '\n' ∉ "style ".toList ++ "bump_pointer".toList := by decide
  have htext : a.exitHandler = "style ".toList ++ "bump_pointer".toList ++ '\n' ::
      ("large_object_threshold ".toList ++ decimal a.largeObjectThreshold ++ '\n' :: []) := by
    unfold exitHandler
    rw [if_neg h, if_neg h]
    exact bump_text _ _ _
  rw [htext, getlines_cons hstyle, getlines_cons a.notMem_threshold, getlines_nil]
  simp only [List.append_assoc]

/-- The other two lines fit in the buffer. -/
theorem length_threshold :
    ("large_object_threshold ".toList ++ (decimal a.largeObjectThreshold ++ ['\n'])).length
      < bufferSize := by
  have hkey : "large_object_threshold ".toList.length = 23 := by decide
  have hdigits := length_decimal_le a.largeObjectThreshold_lt
  rw [List.length_append, hkey, List.length_append, List.length_singleton, bufferSize]
  omega

/-- What the buffer holds of the line of the sizes. -/
def heldSizes : List Char :=
  if a.classSizesLine.length < bufferSize then a.classSizesLine else []

theorem buffered_bibop (h : a.bibop = true) : buffered bufferSize (getlines a.exitHandler) =
    ["style ".toList ++ ("bibop".toList ++ ['\n']), a.heldSizes,
      "large_object_threshold ".toList ++ (decimal a.largeObjectThreshold ++ ['\n'])] := by
  have hlast : ∀ line ∈
      ["large_object_threshold ".toList ++ (decimal a.largeObjectThreshold ++ ['\n'])],
      line.length < bufferSize := by
    intro line hline
    rw [List.mem_singleton.mp hline]
    exact a.length_threshold
  rw [a.getlines_bibop h, buffered, if_pos (by decide), heldSizes]
  split
  · next hfits => rw [buffered, if_pos hfits, buffered_of_fits hlast]
  · next hlost => rw [buffered_lost hlost hlast]

theorem buffered_bump (h : ¬ a.bibop = true) : buffered bufferSize (getlines a.exitHandler) =
    ["style ".toList ++ ("bump_pointer".toList ++ ['\n']),
      "large_object_threshold ".toList ++ (decimal a.largeObjectThreshold ++ ['\n'])] := by
  rw [a.getlines_bump h, buffered, if_pos (by decide), buffered, if_pos a.length_threshold]
  rfl

theorem tokens_sizesText {sizes : List Nat} (h : ∀ size ∈ sizes, size < 2 ^ 31)
    (rest : List Char) : Tokens (sizesText sizes ++ rest) sizes rest := by
  induction sizes with
  | nil => exact .nil rest
  | cons size sizes ih =>
      have hsplit : sizesText (size :: sizes) ++ rest =
          decimal size ++ ' ' :: (sizesText sizes ++ rest) := by
        simp [sizesText]
      rw [hsplit]
      exact .cons (strtok_word (decimal_ne_nil size) (notMem_decimal (by decide)) _)
        (atoi_decimal_self (h size List.mem_cons_self))
        (ih fun x hx => h x (List.mem_cons_of_mem size hx))

theorem readLine_sizesText {p : ProgramStatus} (hp : p.allocatorStyleIsBibop = true) :
    readLine p a.classSizesLine =
      some (storeSizes a.classSizes 0
        { p with numberOfClassSizes := a.classSizes.length }).counted := by
  have hlen := a.classSizes_length
  have hwrap : wrap 16 a.classSizes.length = a.classSizes.length := wrap_of_lt (by omega)
  have htokens : Tokens (decimal a.classSizes.length ++ ' ' :: (sizesText a.classSizes ++ ['\n']))
      (a.classSizes.length :: a.classSizes) ['\n'] :=
    .cons (strtok_word (decimal_ne_nil _) (notMem_decimal (by decide)) _)
      (atoi_decimal_self (by omega)) (tokens_sizesText a.classSizes_lt ['\n'])
  unfold classSizesLine
  rw [readLine_classSizes hp htokens hwrap.le, hwrap, if_pos (by simp; omega), List.take_length]

/-- The configuration after the style line of a bibop allocator. -/
def bibopStyle : ProgramStatus :=
  { ({} : ProgramStatus) with allocatorStyleIsBibop := true }.counted

/-- The line of the sizes is read if it fits in the buffer, and otherwise
not even counted. -/
theorem readLine_heldSizes : ∃ p, readLine bibopStyle a.heldSizes = some p ∧
    p.allocatorStyleIsBibop = true ∧ p.largeObjectAlignment = 0 ∧
    (a.classSizesLine.length < bufferSize →
      (∀ i, p.classSizes i = a.classSizes.getD i 0) ∧
        p.numberOfClassSizes = a.classSizes.length + 1) := by
  by_cases hline : a.classSizesLine.length < bufferSize
  · have hlen := a.classSizes_length
    obtain ⟨p, hp⟩ : ∃ p, p = storeSizes a.classSizes 0
      { bibopStyle with numberOfClassSizes := a.classSizes.length } := ⟨_, rfl⟩
    obtain ⟨classSizes, hlt, hframe⟩ := storeSizes_frame a.classSizes 0
      { bibopStyle with numberOfClassSizes := a.classSizes.length }
    rw [← hp] at hframe
    refine ⟨p.counted, ?_, ?_, ?_, fun _ => ⟨?_, ?_⟩⟩
    · rw [heldSizes, if_pos hline, a.readLine_sizesText rfl, hp]
    · exact congrArg ProgramStatus.allocatorStyleIsBibop hframe
    · exact congrArg ProgramStatus.largeObjectAlignment hframe
    · intro i
      have hstored := storeSizes_classSizes a.classSizes 0
        { bibopStyle with numberOfClassSizes := a.classSizes.length } i a.classSizes_lt
      rw [← hp] at hstored
      refine hstored.trans ?_
      split
      · rfl
      · next hi =>
          rw [List.getD_eq_getElem?_getD, List.getElem?_eq_none (by omega), Option.getD_none]
          rfl
    · have hcount : p.numberOfClassSizes = a.classSizes.length :=
        congrArg ProgramStatus.numberOfClassSizes hframe
      simp only [counted, hcount]
      exact wrap_of_lt (by omega)
  · refine ⟨bibopStyle, ?_, rfl, rfl, fun h => absurd h hline⟩
    rw [heldSizes, if_neg hline]
    rfl

/-- The written file is read, but each line that is counts as a class, and
no line gives an alignment. -/
theorem readInputInfoFile_exitHandler :
    ∃ p, readInputInfoFile a.exitHandler = some p ∧
      p.allocatorStyleIsBibop = a.bibop ∧
      p.largeObjectThreshold = a.largeObjectThreshold ∧
      p.largeObjectAlignment = 0 ∧
      ((a.bibop = true → a.classSizesLine.length < bufferSize) →
        (∀ i, p.classSizes i = if a.bibop then a.classSizes.getD i 0 else 0) ∧
          p.numberOfClassSizes = if a.bibop then a.classSizes.length + 2 else 2) := by
  have hthreshold : wrap 32 a.largeObjectThreshold = a.largeObjectThreshold :=
    wrap_of_lt (by have := a.largeObjectThreshold_lt; omega)
  have htokens : Tokens (decimal a.largeObjectThreshold ++ ['\n']) [a.largeObjectThreshold] [] :=
    tokens_numbers true fun n hn => List.mem_singleton.mp hn ▸ a.largeObjectThreshold_lt
  by_cases hbibop : a.bibop = true
  · have hlen := a.classSizes_length
    have hstyle : readLine {} ("style ".toList ++ ("bibop".toList ++ ['\n'])) = some bibopStyle :=
      readLine_style {} (by decide) (by decide)
    obtain ⟨p, hsizes, hp, halign, hfits⟩ := a.readLine_heldSizes
    refine ⟨(p.load .largeObjectThreshold a.largeObjectThreshold).counted, ?_, ?_, hthreshold,
      halign, ?_⟩
    · have hlast := readLine_setting p .largeObjectThreshold htokens
      rw [InfoKey.keyword] at hlast
      rw [readInputInfoFile, a.buffered_bibop hbibop]
      simp only [List.foldlM_cons, List.foldlM_nil, hstyle, Option.bind_eq_bind, Option.bind_some,
        hsizes, hlast]
      rfl
    · exact hp.trans hbibop.symm
    · intro hline
      obtain ⟨hclasses, hcount⟩ := hfits (hline hbibop)
      refine ⟨fun i => ?_, ?_⟩
      · rw [if_pos hbibop]
        exact hclasses i
      · rw [if_pos hbibop]
        simp only [counted, load, hcount]
        exact wrap_of_lt (by omega)
  · have hstyle : readLine {} ("style ".toList ++ ("bump_pointer".toList ++ ['\n'])) =
        some ({} : ProgramStatus).counted :=
      readLine_style {} (by decide) (by decide)
    have hlast := readLine_setting ({} : ProgramStatus).counted .largeObjectThreshold htokens
    rw [InfoKey.keyword] at hlast
    refine ⟨(({} : ProgramStatus).counted.load .largeObjectThreshold
      a.largeObjectThreshold).counted, ?_, ?_, hthreshold, rfl, fun _ => ⟨fun i => ?_, ?_⟩⟩
    · rw [readInputInfoFile, a.buffered_bump hbibop]
      simp only [List.foldlM_cons, List.foldlM_nil, hstyle, Option.bind_eq_bind, Option.bind_some,
        hlast]
      rfl
    · exact (Bool.eq_false_iff.mpr hbibop).symm
    · rw [if_neg hbibop]
      rfl
    · rw [if_neg hbibop]
      rfl

/-- The configuration is the one that was written, with one more class for
large objects, and answers for every size. -/
structure ReadsBack (p : ProgramStatus) : Prop where
  style : p.allocatorStyleIsBibop = a.bibop
  classSizes : a.bibop = true → ∀ i < a.classSizes.length, p.classSizes i = a.classSizes.getD i 0
  numberOfClassSizes : a.bibop = true → p.numberOfClassSizes = a.classSizes.length + 1
  largeObjectThreshold : p.largeObjectThreshold = a.largeObjectThreshold
  answers : ∀ cache, p.Caches cache → ∀ size, 1 ≤ size → size ≤ 2 ^ 31 →
    ∃ k cache', p.getClassSizeAndIndex cache size = some (k, cache') ∧
      size ≤ k.classSize ∧ k.classSizeIndex < p.numberOfClassSizes

/-- No description reads back: without an alignment the size after the
threshold has no class, and the count of a bibop allocator is one too many. -/
theorem not_readsBack : ¬ ∃ p, readInputInfoFile a.exitHandler = some p ∧ a.ReadsBack p := by
  rintro ⟨p, hread, hback⟩
  obtain ⟨q, hq, -, hthreshold, halign, -⟩ := a.readInputInfoFile_exitHandler
  obtain rfl : q = p := Option.some.inj (hq.symm.trans hread)
  have hlt := a.largeObjectThreshold_lt
  obtain ⟨k, cache', hk, -, -⟩ :=
    hback.answers {} (.inl rfl) (a.largeObjectThreshold + 1) (by omega) (by omega)
  have hnone : q.largeClass (a.largeObjectThreshold + 1) = none := by
    rw [ProgramStatus.largeClass, if_pos halign]
  rw [ProgramStatus.getClassSizeAndIndex, if_neg (Nat.succ_ne_zero _), hthreshold,
    if_pos (Nat.lt_succ_self _), hnone] at hk
  cases hk

/-- Three classes of at most 48 bytes. -/
def threeClasses : PrerunInfo where
  bibop := true
  classSizes := [16, 32, 48]
  largeObjectThreshold := 48
  classSizes_length := by decide
  classSizes_pos _ := by decide
  classSizes_ascending := by decide
  classSizes_lt := by decide
  largeObjectThreshold_lt := by decide

/-- They come back as five, not four: the line of the threshold counts too. -/
theorem three_classes_read_as_five :
    (readInputInfoFile threeClasses.exitHandler).map (·.numberOfClassSizes) = some 5 ∧
      ¬ ∃ p, readInputInfoFile threeClasses.exitHandler = some p ∧ threeClasses.ReadsBack p := by
  have hfive : (readInputInfoFile threeClasses.exitHandler).map (·.numberOfClassSizes)
      = some 5 := by
    decide +kernel
  refine ⟨hfive, ?_⟩
  rintro ⟨p, hread, hback⟩
  rw [hread] at hfive
  have hcount := hback.numberOfClassSizes rfl
  rw [Option.map_some, hcount] at hfive
  cases hfive

end PrerunInfo

end MemPerf.Temp
