import Mathlib.Data.List.Range
import MemPerf.Lib.Text
import MemPerf.Predictor

/-!
# The predictor's info file

`Predictor::readPredictorInfoFile`: the cycles of the replaced functions,
24 numbers in one line, and the two thresholds of the replaced allocator,
a line each. The lines may come in any order. The reader looks at every
line for each of its keywords, and cuts a number to the width of the
variable it goes into: only the middle threshold is too narrow for a
number that fits in an `int`. The lines of a well-formed file are short
enough for the buffer of `getline`.
-/

namespace MemPerf

open CText Word

namespace PredictorInfo

/-! ## The reader -/

/-- The loop of `readFunctionCyclesFromInfo` from the class `type` on, for
`n` classes. `(size_t)` of an `int`. -/
def readFunctionCycles : Nat → Nat → PredictorInfo → List Char → Option (PredictorInfo × List Char)
  | 0, _, info, rest => some (info, rest)
  | n + 1, type, info, rest => do
      let (token, rest) ← strtok ' ' rest
      let cycles := (atoi token % 2 ^ 64).toNat
      readFunctionCycles n (type + 1)
        { info with
          replacedFunctionCycles := Function.update info.replacedFunctionCycles type cycles } rest

/-- The three readers get the line's first token and share the state of
`strtok`. Without a next token they pass a null pointer on. -/
def readFunctionCyclesFromInfo (token : List Char) (info : PredictorInfo) (rest : List Char) :
    Option (PredictorInfo × List Char) :=
  if token = "function_cycles".toList then readFunctionCycles numOfAllocationType 0 info rest
  else some (info, rest)

def readMiddleObjectThresholdFromInfo (token : List Char) (info : PredictorInfo)
    (rest : List Char) : Option (PredictorInfo × List Char) :=
  if token = "middle_object_threshold".toList then do
    let (token, rest) ← strtok ' ' rest
    some ({ info with replacedMiddleObjectThreshold := (atoi token % 2 ^ 16).toNat }, rest)
  else some (info, rest)

def readLargeObjectThresholdFromInfo (token : List Char) (info : PredictorInfo)
    (rest : List Char) : Option (PredictorInfo × List Char) :=
  if token = "large_object_threshold".toList then do
    let (token, rest) ← strtok ' ' rest
    some ({ info with replacedLargeObjectThreshold := (atoi token % 2 ^ 32).toNat }, rest)
  else some (info, rest)

/-- The body of the loop over the lines. -/
def readLine (info : PredictorInfo) (line : List Char) : Option PredictorInfo :=
  match strtok ' ' line with
  | none => some info
  | some (token, rest) => do
      let (info, rest) ← readFunctionCyclesFromInfo token info rest
      let (info, rest) ← readMiddleObjectThresholdFromInfo token info rest
      let (info, _) ← readLargeObjectThresholdFromInfo token info rest
      some info

def bufferSize : Nat := 65535

def readPredictorInfoFile (text : List Char) : Option PredictorInfo :=
  (buffered bufferSize (getlines text)).foldlM readLine {}

/-! ## The lines -/

inductive Key
  | functionCycles
  | middleObjectThreshold
  | largeObjectThreshold
deriving DecidableEq, Repr

/-- The keyword and the blank behind it. -/
def Key.keyword : Key → String
  | functionCycles => "function_cycles "
  | middleObjectThreshold => "middle_object_threshold "
  | largeObjectThreshold => "large_object_threshold "

/-- The numbers in the line. -/
def Key.length : Key → Nat
  | functionCycles => numOfAllocationType
  | middleObjectThreshold => 1
  | largeObjectThreshold => 1

/-- The bits of the variable. -/
def Key.width : Key → Nat
  | functionCycles => 64
  | middleObjectThreshold => 16
  | largeObjectThreshold => 32

/-- The numbers held for a key. -/
def values (info : PredictorInfo) : Key → List Nat
  | .functionCycles => (List.range numOfAllocationType).map info.replacedFunctionCycles
  | .middleObjectThreshold => [info.replacedMiddleObjectThreshold]
  | .largeObjectThreshold => [info.replacedLargeObjectThreshold]

def load (info : PredictorInfo) (line : Key × List Nat) : PredictorInfo :=
  match line.1 with
  | .functionCycles =>
      { info with replacedFunctionCycles := fun type =>
          if type < numOfAllocationType then wrap 64 (line.2.getD type 0)
          else info.replacedFunctionCycles type }
  | .middleObjectThreshold =>
      { info with replacedMiddleObjectThreshold := wrap 16 (line.2.getD 0 0) }
  | .largeObjectThreshold =>
      { info with replacedLargeObjectThreshold := wrap 32 (line.2.getD 0 0) }

/-- The numbers of a line, cut to the width of their variables. -/
def cut (key : Key) (ns : List Nat) : List Nat :=
  (List.range key.length).map fun i => wrap key.width (ns.getD i 0)

theorem values_load (info : PredictorInfo) (line : Key × List Nat) (key : Key) :
    (info.load line).values key = if key = line.1 then cut line.1 line.2 else info.values key := by
  obtain ⟨key', ns⟩ := line
  cases key' <;> cases key
  case functionCycles.functionCycles =>
    exact List.map_congr_left fun type htype => if_pos (List.mem_range.mp htype)
  all_goals rfl

theorem readFunctionCycles_tokens {text rest : List Char} {ns : List Nat} (h : Tokens text ns rest)
    (type : Nat) (info : PredictorInfo) :
    readFunctionCycles ns.length type info text =
      some ({ info with replacedFunctionCycles := fun i =>
        if type ≤ i ∧ i < type + ns.length then wrap 64 (ns.getD (i - type) 0)
        else info.replacedFunctionCycles i }, rest) := by
  induction h generalizing type info with
  | nil s =>
      have hnone : ∀ i, ¬ (type ≤ i ∧ i < type + 0) := fun i => by omega
      simp only [List.length_nil, readFunctionCycles, hnone, if_false]
  | @cons s token s' rest n ns htoken hn h ih =>
      rw [List.length_cons, readFunctionCycles, htoken]
      simp only [Option.bind_eq_bind, Option.bind_some]
      rw [ih, hn]
      congr 3
      funext i
      dsimp only
      rcases lt_trichotomy i type with hi | rfl | hi
      · rw [if_neg (by omega), if_neg (by omega), Function.update_of_ne (by omega)]
      · rw [if_neg (by omega), if_pos (by omega), Function.update_self, Nat.sub_self,
          List.getD_cons_zero, wrap]
        norm_cast
      · rw [Function.update_of_ne (by omega)]
        refine if_congr (by omega) ?_ rfl
        obtain ⟨k, rfl⟩ : ∃ k, i = type + 1 + k := ⟨i - (type + 1), by omega⟩
        rw [show type + 1 + k - (type + 1) = k by omega, show type + 1 + k - type = k + 1 by omega,
          List.getD_cons_succ]

/-- A line of numbers loads them, each cut to the width of its variable. -/
theorem readLine_line (info : PredictorInfo) {key : Key} {ns : List Nat} {text : List Char}
    (hlen : ns.length = key.length) (h : Tokens text ns []) :
    readLine info (key.keyword.toList ++ text) = some (info.load (key, ns)) := by
  cases key with
  | functionCycles =>
      have hline : strtok ' ' ("function_cycles ".toList ++ text) =
          some ("function_cycles".toList, text) :=
        strtok_key (by decide) (by decide) (by decide) _
      have hread := readFunctionCycles_tokens h 0 info
      rw [hlen, Key.length] at hread
      simp only [readLine, Key.keyword, hline]
      rw [readFunctionCyclesFromInfo, if_pos rfl, hread]
      simp only [Option.bind_eq_bind, Option.bind_some]
      rw [readMiddleObjectThresholdFromInfo, if_neg (by decide), Option.bind_some,
        readLargeObjectThresholdFromInfo, if_neg (by decide), Option.bind_some]
      simp [load]
  | middleObjectThreshold =>
      have hline : strtok ' ' ("middle_object_threshold ".toList ++ text) =
          some ("middle_object_threshold".toList, text) :=
        strtok_key (by decide) (by decide) (by decide) _
      obtain ⟨n, rfl⟩ := List.length_eq_one_iff.mp hlen
      obtain _ | ⟨hnext, hatoi, -⟩ := h
      simp only [readLine, Key.keyword, hline]
      rw [readFunctionCyclesFromInfo, if_neg (by decide)]
      simp only [Option.bind_eq_bind, Option.bind_some]
      rw [readMiddleObjectThresholdFromInfo, if_pos rfl, hnext]
      simp only [Option.bind_eq_bind, Option.bind_some, hatoi]
      rw [readLargeObjectThresholdFromInfo, if_neg (by decide), Option.bind_some]
      rfl
  | largeObjectThreshold =>
      have hline : strtok ' ' ("large_object_threshold ".toList ++ text) =
          some ("large_object_threshold".toList, text) :=
        strtok_key (by decide) (by decide) (by decide) _
      obtain ⟨n, rfl⟩ := List.length_eq_one_iff.mp hlen
      obtain _ | ⟨hnext, hatoi, -⟩ := h
      simp only [readLine, Key.keyword, hline]
      rw [readFunctionCyclesFromInfo, if_neg (by decide)]
      simp only [Option.bind_eq_bind, Option.bind_some]
      rw [readMiddleObjectThresholdFromInfo, if_neg (by decide), Option.bind_some,
        readLargeObjectThresholdFromInfo, if_pos rfl, hnext]
      simp only [Option.bind_eq_bind, Option.bind_some, hatoi]
      rfl

end PredictorInfo

/-! ## The file -/

/-- A well-formed file: lines of different keys, their numbers in the range
of an `int`. -/
structure PredictorFile where
  lines : List (PredictorInfo.Key × List Nat)
  ended : Bool := true
  nodup : (lines.map Prod.fst).Nodup
  length : ∀ line ∈ lines, line.2.length = line.1.length
  range : ∀ line ∈ lines, ∀ n ∈ line.2, 1 ≤ n ∧ n < 2 ^ 31

namespace PredictorFile

open PredictorInfo

variable (f : PredictorFile)

def line (line : Key × List Nat) : List Char := line.1.keyword.toList ++ numbers line.2

def text : List Char := (linesOf f.ended (f.lines.map line)).flatten

/-- Every number that is read is the number in the file. -/
def Faithful (info : PredictorInfo) : Prop := ∀ line ∈ f.lines, info.values line.1 = line.2

/-- The threshold of middle objects is one of 16 bits. -/
def Fits : Prop := ∀ line ∈ f.lines, line.1 = .middleObjectThreshold → ∀ n ∈ line.2, n < 2 ^ 16

theorem getlines_text : getlines f.text = linesOf f.ended (f.lines.map line) := by
  refine getlines_linesOf f.ended ?_
  intro l hl
  obtain ⟨⟨key, ns⟩, -, rfl⟩ := List.mem_map.mp hl
  have hkey : key.keyword.toList ≠ [] ∧ '\n' ∉ key.keyword.toList := by cases key <;> decide
  refine ⟨by simp [line, hkey.1], ?_⟩
  rw [line, List.mem_append, not_or]
  exact ⟨hkey.2, notMem_numbers (by decide) (by decide) ns⟩

/-- No line is too long for the buffer. -/
theorem length_lt_bufferSize : ∀ l ∈ linesOf f.ended (f.lines.map line),
    l.length < bufferSize := by
  intro l hl
  obtain ⟨_, hmem, ended, rfl⟩ := mem_linesOf hl
  obtain ⟨⟨key, ns⟩, hline, rfl⟩ := List.mem_map.mp hmem
  have hkey : key.keyword.toList.length ≤ 24 ∧ key.length ≤ 24 := by cases key <;> decide
  have hlen : ns.length = key.length := f.length _ hline
  have hnumbers : (numbers ns).length ≤ 11 * ns.length :=
    length_numbers_le fun n hn => (f.range _ hline n hn).2
  have hnewline := length_newline_le ended
  simp only [line, List.length_append, bufferSize]
  omega

theorem buffered_text :
    buffered bufferSize (getlines f.text) = linesOf f.ended (f.lines.map line) := by
  rw [f.getlines_text, buffered_of_fits f.length_lt_bufferSize]

/-- The file is read, and holds for each key the numbers of its line, cut
to the width of their variables. -/
theorem readPredictorInfoFile_text :
    ∃ info, readPredictorInfoFile f.text = some info ∧
      ∀ line ∈ f.lines, info.values line.1 = cut line.1 line.2 := by
  refine ⟨f.lines.foldl load {}, ?_, value_foldl values_load f.nodup _⟩
  rw [readPredictorInfoFile, f.buffered_text]
  refine foldlM_linesOf ?_ f.ended _
  rintro ⟨key, ns⟩ hmem info ended
  obtain ⟨n, ns', rfl⟩ : ∃ n ns', ns = n :: ns' := by
    refine List.exists_cons_of_length_pos ?_
    have hlen := f.length _ hmem
    simp only at hlen
    rw [hlen]
    cases key <;> decide
  rw [line, List.append_assoc]
  exact readLine_line info (f.length _ hmem)
    (tokens_numbers ended fun m hm => (f.range _ hmem m hm).2)

/-- Cutting keeps numbers that fit, and only those. -/
theorem cut_eq_iff {line : Key × List Nat} (h : line ∈ f.lines) :
    cut line.1 line.2 = line.2 ↔
      (line.1 = .middleObjectThreshold → ∀ n ∈ line.2, n < 2 ^ 16) := by
  obtain ⟨key, ns⟩ := line
  have hlen := f.length _ h
  have hrange := f.range _ h
  simp only at hlen hrange ⊢
  have hcut : cut key ns = ns.map (wrap key.width) := by
    refine List.ext_getElem (by simp [cut, hlen]) ?_
    intro i hi hi'
    rw [List.length_map] at hi'
    simp [cut, List.getD_eq_getElem?_getD, List.getElem?_eq_getElem hi']
  have hfits : cut key ns = ns ↔ ∀ n ∈ ns, n < 2 ^ key.width := by
    rw [hcut]
    constructor
    · intro heq n hn
      rw [← heq] at hn
      obtain ⟨m, -, rfl⟩ := List.mem_map.mp hn
      exact wrap_lt _ m
    · intro hlt
      exact (List.map_congr_left fun n hn => wrap_of_lt (hlt n hn)).trans (List.map_id ns)
  rw [hfits]
  cases key with
  | middleObjectThreshold => simp [Key.width]
  | functionCycles =>
      simp only [Key.width, reduceCtorEq, false_imp_iff, iff_true]
      exact fun n hn => (hrange n hn).2.trans (by decide)
  | largeObjectThreshold =>
      simp only [Key.width, reduceCtorEq, false_imp_iff, iff_true]
      exact fun n hn => (hrange n hn).2.trans (by decide)

/-- Only the threshold of middle objects can come out wrong. -/
theorem exists_faithful_iff :
    (∃ info, readPredictorInfoFile f.text = some info ∧ f.Faithful info) ↔ f.Fits := by
  obtain ⟨info, hread, hvalues⟩ := f.readPredictorInfoFile_text
  constructor
  · rintro ⟨info', hread', hfaithful⟩ line hline
    obtain rfl : info = info' := Option.some.inj (hread.symm.trans hread')
    exact (f.cut_eq_iff hline).mp ((hvalues line hline).symm.trans (hfaithful line hline))
  · intro hfits
    exact ⟨info, hread, fun line hline =>
      (hvalues line hline).trans ((f.cut_eq_iff hline).mpr (hfits line hline))⟩

end PredictorFile

end MemPerf
