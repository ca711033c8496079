import Mathlib.Algebra.Order.Ring.Int
import Mathlib.Data.List.Basic
import Mathlib.Data.Nat.Log

/-!
# Text the C library reads and writes

Texts are lists of characters. `getlines` is what repeated calls of
`getline` read, and `buffered` what they leave in a buffer that does not
keep what it holds when it grows. `strtok` takes a token off a text, `atoi`
reads the number a text starts with, and `decimal` is what `%d` and `%zu`
write of a natural number. The lemmas say how the readers undo the writer.
-/

namespace CText

/-- What `%d` and `%zu` write. -/
def decimal (n : Nat) : List Char := Nat.toDigits 10 n

/-- The lines of a text, each with the newline that ends it. -/
def getlines : List Char → List (List Char)
  | [] => []
  | c :: s =>
      if c = '\n' then [c] :: getlines s
      else
        match getlines s with
        | [] => [[c]]
        | line :: rest => (c :: line) :: rest

/-- The size of a buffer, doubled until a text of this length and its null
byte fit. -/
def grown (size length : Nat) : Nat := size * 2 ^ Nat.clog 2 (length / size + 1)

/-- The texts `getline` leaves in a buffer of `size` bytes, one for each
line, if the memory it gets to grow is empty. The lines are read in blocks
smaller than the buffer, so the start of a line that makes it grow is lost,
and a null byte stands in its place. -/
def buffered : Nat → List (List Char) → List (List Char)
  | _, [] => []
  | size, line :: lines =>
      if line.length < size then line :: buffered size lines
      else [] :: buffered (grown size line.length) lines

/-- The next token and what the following call starts from. -/
def strtok (delim : Char) (s : List Char) : Option (List Char × List Char) :=
  match s.dropWhile (fun c => decide (c = delim)) with
  | [] => none
  | c :: rest =>
      some (c :: rest.takeWhile (fun c => decide (c ≠ delim)),
        (rest.dropWhile (fun c => decide (c ≠ delim))).tail)

def isspace (c : Char) : Bool := c.isWhitespace || c.toNat = 11 || c.toNat = 12

/-- The number the leading digits form, 0 if there are none. -/
def leadingNumber (s : List Char) : Nat := Nat.ofDigitChars 10 (s.takeWhile Char.isDigit) 0

/-- The number a text starts with, behind blanks and a sign. -/
def signedNumber (s : List Char) : Int :=
  match s.dropWhile isspace with
  | [] => 0
  | c :: rest =>
      if c = '-' then -(leadingNumber rest)
      else if c = '+' then leadingNumber rest
      else leadingNumber (c :: rest)

/-- A number too large for a `long` is read as the next one that fits. -/
def strtol (s : List Char) : Int := max (-2 ^ 63) (min (signedNumber s) (2 ^ 63 - 1))

/-- `(int) strtol(s, NULL, 10)`. -/
def atoi (s : List Char) : Int := (strtol s).bmod (2 ^ 32)

/-! ## Digits -/

theorem decimal_isDigit {n : Nat} {c : Char} (h : c ∈ decimal n) : c.isDigit = true :=
  Nat.isDigit_of_mem_toDigits (by decide) (by decide) h

theorem decimal_ne_nil (n : Nat) : decimal n ≠ [] := Nat.toDigits_ne_nil

/-- Digits are no spaces, signs or newlines. -/
theorem notMem_decimal {n : Nat} {c : Char} (h : c.isDigit = false) : c ∉ decimal n := by
  intro hc
  rw [decimal_isDigit hc] at h
  cases h

theorem isspace_of_isDigit {c : Char} (h : c.isDigit = true) : isspace c = false := by
  have hrange : 48 ≤ c.toNat ∧ c.toNat ≤ 57 := by
    simp only [Char.isDigit, Bool.and_eq_true, decide_eq_true_eq, ge_iff_le,
      UInt32.le_iff_toNat_le] at h
    exact h
  have hwhite : c.isWhitespace = false := by
    by_contra hw
    simp only [Char.isWhitespace, Bool.or_eq_true, decide_eq_true_eq, Bool.not_eq_false] at hw
    rcases hw with ((rfl | rfl) | rfl) | rfl <;> cases h
  have hfeed : ¬ c.toNat = 11 ∧ ¬ c.toNat = 12 := by omega
  simp [isspace, hwhite, hfeed]

/-- An `int` has at most ten digits. -/
theorem length_decimal_le {n : Nat} (h : n < 2 ^ 31) : (decimal n).length ≤ 10 :=
  (Nat.length_toDigits_le_iff (by decide) (by decide)).mpr (by omega)

/-- A number that fits in an `int` is read as it is. -/
theorem atoi_of_signedNumber {s : List Char} {n : Nat} (h : signedNumber s = n)
    (hn : n < 2 ^ 31) : atoi s = n := by
  have hlong : strtol s = n := by
    rw [strtol, h]
    omega
  rw [atoi, hlong, Int.bmod_eq_of_le] <;> omega

theorem signedNumber_decimal (n : Nat) {tail : List Char}
    (h : ∀ c ∈ tail.head?, c.isDigit = false) : signedNumber (decimal n ++ tail) = n := by
  have hnumber : leadingNumber (decimal n ++ tail) = n := by
    have htail : tail.takeWhile Char.isDigit = [] := by
      cases tail with
      | nil => rfl
      | cons c rest => simp [h c rfl]
    rw [leadingNumber, List.takeWhile_append_of_pos fun c => decimal_isDigit, htail,
      List.append_nil]
    exact Nat.ofDigitChars_ten_toDigits
  obtain ⟨c, rest, hdec⟩ := List.exists_cons_of_ne_nil (decimal_ne_nil n)
  have hc : c.isDigit = true := decimal_isDigit (n := n) (by simp [hdec])
  have hsign : c ≠ '-' ∧ c ≠ '+' := by
    constructor
    · rintro rfl
      cases hc
    · rintro rfl
      cases hc
  rw [hdec, List.cons_append] at hnumber ⊢
  simp only [signedNumber, List.dropWhile_cons, isspace_of_isDigit hc, Bool.false_eq_true,
    if_false, hsign.1, hsign.2]
  rw [hnumber]

/-- A written number followed by something else is read back. -/
theorem atoi_decimal {n : Nat} (hn : n < 2 ^ 31) {tail : List Char}
    (h : ∀ c ∈ tail.head?, c.isDigit = false) : atoi (decimal n ++ tail) = n :=
  atoi_of_signedNumber (signedNumber_decimal n h) hn

theorem atoi_decimal_self {n : Nat} (hn : n < 2 ^ 31) : atoi (decimal n) = n := by
  simpa using @atoi_decimal n hn [] (by simp)

/-! ## Tokens and lines -/

/-- A word is a token when the text ends after it or goes on with the
delimiter, which is taken off with it. -/
theorem strtok_append {delim : Char} {word rest : List Char} (hne : word ≠ []) (h : delim ∉ word)
    (hrest : ∀ c ∈ rest.head?, c = delim) :
    strtok delim (word ++ rest) = some (word, rest.tail) := by
  obtain ⟨c, cs, rfl⟩ := List.exists_cons_of_ne_nil hne
  obtain ⟨hc, hcs⟩ := not_or.mp (mt List.mem_cons.mpr h)
  have hall : ∀ x ∈ cs, decide (x ≠ delim) = true := by
    intro x hx
    refine decide_eq_true ?_
    rintro rfl
    exact hcs hx
  have hstop : rest.takeWhile (fun c => decide (c ≠ delim)) = [] ∧
      rest.dropWhile (fun c => decide (c ≠ delim)) = rest := by
    cases rest with
    | nil => exact ⟨rfl, rfl⟩
    | cons d rest =>
        obtain rfl : d = delim := hrest d rfl
        simp
  simp only [strtok, List.cons_append, List.dropWhile_cons, Ne.symm hc, decide_false,
    Bool.false_eq_true, if_false]
  rw [List.takeWhile_append_of_pos hall, List.dropWhile_append_of_pos hall, hstop.1, hstop.2,
    List.append_nil]

theorem strtok_word {delim : Char} {word : List Char} (hne : word ≠ []) (h : delim ∉ word)
    (rest : List Char) : strtok delim (word ++ delim :: rest) = some (word, rest) :=
  strtok_append hne h fun c hc => by simpa using hc.symm

theorem strtok_key {delim : Char} {key word : List Char} (hkey : key = word ++ [delim])
    (hne : word ≠ []) (h : delim ∉ word) (rest : List Char) :
    strtok delim (key ++ rest) = some (word, rest) := by
  rw [hkey, List.append_assoc, List.singleton_append, strtok_word hne h]

theorem strtok_last {delim : Char} {word : List Char} (hne : word ≠ []) (h : delim ∉ word) :
    strtok delim word = some (word, []) := by
  simpa using @strtok_append delim word [] hne h

theorem getlines_nil : getlines [] = [] := rfl

theorem getlines_cons {line : List Char} (h : '\n' ∉ line) (rest : List Char) :
    getlines (line ++ '\n' :: rest) = (line ++ ['\n']) :: getlines rest := by
  induction line with
  | nil => simp [getlines]
  | cons c line ih =>
      obtain ⟨hc, hline⟩ := not_or.mp (mt List.mem_cons.mpr h)
      rw [List.cons_append, getlines, if_neg (Ne.symm hc), ih hline]
      rfl

/-! ## Lines -/

/-- The last line of a text may go without its newline. -/
def newline (ended : Bool) : List Char := if ended then ['\n'] else []

/-- The lines with these contents, each as `getlines` gives it. -/
def linesOf (ended : Bool) : List (List Char) → List (List Char)
  | [] => []
  | [line] => [line ++ newline ended]
  | line :: next :: lines => (line ++ newline true) :: linesOf ended (next :: lines)

theorem mem_linesOf {ended : Bool} {lines : List (List Char)} {l : List Char}
    (h : l ∈ linesOf ended lines) : ∃ line ∈ lines, ∃ ended', l = line ++ newline ended' := by
  induction lines with
  | nil => exact absurd h List.not_mem_nil
  | cons line lines ih =>
      cases lines with
      | nil => exact ⟨line, List.mem_cons_self, ended, List.mem_singleton.mp h⟩
      | cons next lines =>
          rcases List.mem_cons.mp h with rfl | h
          · exact ⟨line, List.mem_cons_self, true, rfl⟩
          · obtain ⟨line', hmem, hl⟩ := ih h
            exact ⟨line', List.mem_cons_of_mem line hmem, hl⟩

theorem length_newline_le (ended : Bool) : (newline ended).length ≤ 1 := by
  cases ended <;> decide

theorem getlines_last {line : List Char} (hne : line ≠ []) (h : '\n' ∉ line) :
    getlines line = [line] := by
  induction line with
  | nil => exact absurd rfl hne
  | cons c line ih =>
      obtain ⟨hc, hline⟩ := not_or.mp (mt List.mem_cons.mpr h)
      rw [getlines, if_neg (Ne.symm hc)]
      cases line with
      | nil => rfl
      | cons d line => rw [ih (List.cons_ne_nil d line) hline]

theorem getlines_linesOf (ended : Bool) {lines : List (List Char)}
    (h : ∀ line ∈ lines, line ≠ [] ∧ '\n' ∉ line) :
    getlines (linesOf ended lines).flatten = linesOf ended lines := by
  induction lines with
  | nil => rfl
  | cons line lines ih =>
      obtain ⟨hne, hline⟩ := h line (List.mem_cons_self ..)
      cases lines with
      | nil =>
          cases ended with
          | false => simpa [linesOf, newline] using getlines_last hne hline
          | true => simpa [linesOf, newline, getlines_nil] using getlines_cons hline []
      | cons next lines =>
          have hrest := ih fun l hl => h l (List.mem_cons_of_mem _ hl)
          have hsplit : (linesOf ended (line :: next :: lines)).flatten =
              line ++ '\n' :: (linesOf ended (next :: lines)).flatten := by
            simp [linesOf, newline]
          rw [hsplit, getlines_cons hline, hrest]
          rfl

/-! ## The buffer -/

theorem le_grown (size length : Nat) : size ≤ grown size length :=
  Nat.le_mul_of_pos_right size (Nat.two_pow_pos _)

/-- Lines that fit are read as they are. -/
theorem buffered_of_fits {size : Nat} {lines : List (List Char)}
    (h : ∀ line ∈ lines, line.length < size) : buffered size lines = lines := by
  induction lines with
  | nil => rfl
  | cons line lines ih =>
      rw [buffered, if_pos (h line List.mem_cons_self),
        ih fun l hl => h l (List.mem_cons_of_mem line hl)]

/-- Of a single line that does not fit nothing is read. -/
theorem buffered_lost {size : Nat} {line : List Char} {lines : List (List Char)}
    (hline : ¬ line.length < size) (h : ∀ line ∈ lines, line.length < size) :
    buffered size (line :: lines) = [] :: lines := by
  rw [buffered, if_neg hline,
    buffered_of_fits fun l hl => (h l hl).trans_le (le_grown size line.length)]

/-! ## Numbers in a line -/

/-- The text starts with these numbers, a token each, and goes on with `rest`. -/
inductive Tokens : List Char → List Nat → List Char → Prop
  | nil (s : List Char) : Tokens s [] s
  | cons {s token s' rest : List Char} {n : Nat} {ns : List Nat}
      (htoken : strtok ' ' s = some (token, s')) (hn : atoi token = n) (h : Tokens s' ns rest) :
      Tokens s (n :: ns) rest

theorem Tokens.split {s rest : List Char} {ms ns : List Nat} (h : Tokens s (ms ++ ns) rest) :
    ∃ mid, Tokens s ms mid ∧ Tokens mid ns rest := by
  induction ms generalizing s with
  | nil => exact ⟨s, .nil s, h⟩
  | cons m ms ih =>
      obtain _ | ⟨htoken, hn, h⟩ := h
      obtain ⟨mid, hms, hns⟩ := ih h
      exact ⟨mid, .cons htoken hn hms, hns⟩

/-- Numbers with a blank between them. -/
def numbers : List Nat → List Char
  | [] => []
  | [n] => decimal n
  | n :: m :: ns => decimal n ++ ' ' :: numbers (m :: ns)

theorem notMem_numbers {c : Char} (hdigit : c.isDigit = false) (hblank : c ≠ ' ') (ns : List Nat) :
    c ∉ numbers ns := by
  induction ns with
  | nil => simp [numbers]
  | cons n ns ih =>
      cases ns with
      | nil => exact notMem_decimal hdigit
      | cons m ns =>
          rw [numbers, List.mem_append, List.mem_cons, not_or, not_or]
          exact ⟨notMem_decimal hdigit, hblank, ih⟩

theorem length_numbers_le {ns : List Nat} (h : ∀ n ∈ ns, n < 2 ^ 31) :
    (numbers ns).length ≤ 11 * ns.length := by
  induction ns with
  | nil => rfl
  | cons n ns ih =>
      have hn := length_decimal_le (h n List.mem_cons_self)
      cases ns with
      | nil =>
          rw [numbers, List.length_singleton]
          omega
      | cons m ns =>
          have hrest := ih fun k hk => h k (List.mem_cons_of_mem n hk)
          rw [numbers, List.length_append, List.length_cons, List.length_cons]
          omega

theorem tokens_numbers (ended : Bool) {n : Nat} {ns : List Nat}
    (h : ∀ m ∈ n :: ns, m < 2 ^ 31) :
    Tokens (numbers (n :: ns) ++ newline ended) (n :: ns) [] := by
  have hn : n < 2 ^ 31 := h n List.mem_cons_self
  induction ns generalizing n with
  | nil =>
      have hblank : ' ' ∉ decimal n ++ newline ended := by
        cases ended <;> simp [newline, notMem_decimal (by decide : ' '.isDigit = false)]
      have hdigit : ∀ c ∈ (newline ended).head?, c.isDigit = false := by
        cases ended <;> simp [newline]
      exact .cons (strtok_last (by simp [numbers, decimal_ne_nil]) hblank)
        (atoi_decimal hn hdigit) (.nil _)
  | cons m ns ih =>
      have hns : ∀ k ∈ m :: ns, k < 2 ^ 31 := fun k hk => h k (List.mem_cons_of_mem n hk)
      have hsplit : numbers (n :: m :: ns) ++ newline ended =
          decimal n ++ ' ' :: (numbers (m :: ns) ++ newline ended) := by
        simp [numbers]
      rw [hsplit]
      exact .cons (strtok_word (decimal_ne_nil n) (notMem_decimal (by decide)) _)
        (atoi_decimal_self hn) (ih hns (hns m List.mem_cons_self))

/-! ## Lines of settings -/

/-- A reader that handles the line of each setting, newline or not, reads
them all. -/
theorem foldlM_linesOf {σ ι : Type*} {readLine : σ → List Char → Option σ}
    {line : ι → List Char} {load : σ → ι → σ} {settings : List ι}
    (h : ∀ x ∈ settings, ∀ s ended, readLine s (line x ++ newline ended) = some (load s x))
    (ended : Bool) (s : σ) :
    (linesOf ended (settings.map line)).foldlM readLine s = some (settings.foldl load s) := by
  induction settings generalizing s with
  | nil => rfl
  | cons x settings ih =>
      have hrest := fun s => ih (fun y hy => h y (List.mem_cons_of_mem x hy)) s
      have hx := h x (List.mem_cons_self ..) s
      cases settings with
      | nil =>
          rw [List.map_singleton, linesOf, List.foldlM_cons, hx ended]
          rfl
      | cons y settings =>
          rw [List.map_cons, List.map_cons, linesOf, List.foldlM_cons, hx true, ← List.map_cons]
          exact hrest _

/-- A key that is not set keeps its value. -/
theorem value_foldl_of_notMem {σ κ ν ω : Type*} [DecidableEq κ] {load : σ → κ × ν → σ}
    {value : σ → κ → ω} {cut : κ → ν → ω}
    (h : ∀ s x k, value (load s x) k = if k = x.1 then cut x.1 x.2 else value s k)
    {settings : List (κ × ν)} {k : κ} (hk : k ∉ settings.map Prod.fst) (s : σ) :
    value (settings.foldl load s) k = value s k := by
  induction settings generalizing s with
  | nil => rfl
  | cons x settings ih =>
      rw [List.map_cons, List.mem_cons, not_or] at hk
      rw [List.foldl_cons, ih hk.2, h, if_neg hk.1]

/-- Settings of different keys do not disturb each other. -/
theorem value_foldl {σ κ ν ω : Type*} [DecidableEq κ] {load : σ → κ × ν → σ} {value : σ → κ → ω}
    {cut : κ → ν → ω}
    (h : ∀ s x k, value (load s x) k = if k = x.1 then cut x.1 x.2 else value s k)
    {settings : List (κ × ν)} (hnodup : (settings.map Prod.fst).Nodup) (s : σ) :
    ∀ x ∈ settings, value (settings.foldl load s) x.1 = cut x.1 x.2 := by
  induction settings generalizing s with
  | nil => exact fun x hx => absurd hx List.not_mem_nil
  | cons y settings ih =>
      rw [List.map_cons, List.nodup_cons] at hnodup
      intro x hx
      rw [List.foldl_cons]
      rcases List.mem_cons.mp hx with rfl | hx
      · rw [value_foldl_of_notMem h hnodup.1, h, if_pos rfl]
      · exact ih hnodup.2 _ x hx

end CText
