import Mathlib.Data.List.Basic

/-!
# `fscanf` over a character stream

The directives of the plugin's formats: whitespace, `%s` into a buffer of fixed size, and `%d`
stored in an `int`.
-/

namespace SliceAnalyzer.FindInst

/-- `isspace` in the C locale. -/
def isSpace (c : Char) : Bool :=
  c == ' ' || c == '\t' || c == '\n' || c == '\x0b' || c == '\x0c' || c == '\r'

/-- The C string a buffer holds: its characters up to the first NUL. -/
def cString (buffer : List Char) : List Char := buffer.takeWhile (· != '\x00')

/-- A whitespace directive: every whitespace character at the head of the stream is read. -/
def skipSpace (input : List Char) : List Char := input.dropWhile isSpace

/-- `%s`: a nonempty run of characters other than whitespace, and the stream after it. -/
def scanString (input : List Char) : Option (List Char) × List Char :=
  let word := (skipSpace input).takeWhile (!isSpace ·)
  (if word = [] then none else some word, (skipSpace input).dropWhile (!isSpace ·))

/-- The value of a run of decimal digits, accumulated as `strtol` does. -/
def digitsValue (digits : List Char) : Nat :=
  digits.foldl (fun value d => 10 * value + (d.toNat - '0'.toNat)) 0

/-- What glibc's `%d` stores in an `int`: saturated to the 64-bit `long`, then wrapped. -/
def storeInt (value : Int) : Int :=
  Int.bmod (if value < -9223372036854775808 then -9223372036854775808
    else if 9223372036854775807 < value then 9223372036854775807 else value) 4294967296

example : storeInt 4294967300 = 4 ∧ storeInt (2 ^ 63 + 5) = -1 := by decide

/-- The sign `%d` reads after leading whitespace, and the stream after it. -/
def scanSign : List Char → Bool × List Char
  | '-' :: rest => (true, rest)
  | '+' :: rest => (false, rest)
  | rest => (false, rest)

/-- `%d`: an optional sign and a nonempty run of digits, and the stream after them. -/
def scanInt (input : List Char) : Option Int × List Char :=
  let unsigned := (scanSign (skipSpace input)).2
  let digits := unsigned.takeWhile Char.isDigit
  if digits = [] then (none, unsigned)
  else
    (some (storeInt (if (scanSign (skipSpace input)).1 then -(digitsValue digits : Int)
      else digitsValue digits)), unsigned.dropWhile Char.isDigit)

/-- `MAX_STRUCT_NAME` and `MAX_FILE_NAME`, the sizes of the buffers `%s` writes into. -/
def maxStructName : Nat := 0x100

def maxFileName : Nat := 0x300

/-- A directive of a format; `%s` writes into a buffer of `size` characters. -/
inductive Directive
  | space
  | str (size : Nat)
  | int

/-- A value `fscanf` assigns. -/
inductive Conversion
  | str (word : List Char)
  | int (value : Int)
  deriving DecidableEq

/-- `fscanf(fp, format, ...)`; `none` when a word overflows its buffer. -/
def scanf : List Directive → List Char → Option (List Conversion × List Char)
  | [], input => some ([], input)
  | .space :: format, input => scanf format (skipSpace input)
  | .str size :: format, input =>
      match scanString input with
      | (some word, rest) =>
          if size ≤ word.length then none
          else (scanf format rest).map (Prod.map (.str word :: ·) id)
      | (none, rest) => some ([], rest)
  | .int :: format, input =>
      match scanInt input with
      | (some value, rest) => (scanf format rest).map (Prod.map (.int value :: ·) id)
      | (none, rest) => some ([], rest)

/-- `"%s %d %s %d %s\n"` into `buf`, `filename` and `func`, a line of the cond file. -/
def condFormat : List Directive :=
  [.str maxStructName, .space, .int, .space, .str maxFileName, .space, .int, .space,
    .str maxFileName, .space]

/-- `"%s %d %s"` into `filename` and `func`, the head of a record of the prop file. -/
def propFormat : List Directive := [.str maxFileName, .space, .int, .space, .str maxFileName]

/-- `"%s %d"` into `struct_name`, a struct and field of the prop file. -/
def structFormat : List Directive := [.str maxStructName, .space, .int]

/-- Every word of the stream fits a `%s` buffer of `size` characters. -/
def WordsFit (size : Nat) (input : List Char) : Prop :=
  ∀ w, w <:+: input → (∀ c ∈ w, isSpace c = false) → w.length < size

theorem WordsFit.suffix {size : Nat} {input rest : List Char} (fits : WordsFit size input)
    (suffix : rest <:+ input) : WordsFit size rest :=
  fun w inside => fits w (inside.trans suffix.isInfix)

theorem wordsFit_of_length_lt {size : Nat} {input : List Char} (short : input.length < size) :
    WordsFit size input :=
  fun _ inside _ => Nat.lt_of_le_of_lt inside.length_le short

theorem wordsFit_some {size : Nat} {text : List Char} (short : text.length < size) :
    ∀ input ∈ some text, WordsFit size input := fun _ member => by
  cases member
  exact wordsFit_of_length_lt short

/-! ## Reading back what was written -/

/-- A word of a configuration file that fits a buffer of `size` characters. -/
structure Word (size : Nat) where
  chars : List Char
  nonempty : chars ≠ []
  noSpace : ∀ c ∈ chars, isSpace c = false
  noNul : '\x00' ∉ chars
  fits : chars.length < size

/-- A decimal numeral: an optional `-`, then one or more digits. -/
structure Numeral where
  negative : Bool
  digits : List Char
  nonempty : digits ≠ []
  decimal : ∀ c ∈ digits, c.isDigit

namespace Numeral

def text (n : Numeral) : List Char := (if n.negative then ['-'] else []) ++ n.digits

/-- The value `%d` stores for the numeral. -/
def value (n : Numeral) : Int :=
  storeInt (if n.negative then -(digitsValue n.digits : Int) else digitsValue n.digits)

end Numeral

/-- A stream that starts with whitespace, or is empty: where a word ends. -/
def StartsWithSpace (rest : List Char) : Prop := ∀ c, rest.head? = some c → isSpace c = true

/-- A stream that does not start with a digit, or is empty: where a numeral ends. -/
def StartsWithNonDigit (rest : List Char) : Prop := ∀ c, rest.head? = some c → c.isDigit = false

theorem skipSpace_append {spaces : List Char} (blank : ∀ c ∈ spaces, isSpace c = true)
    (rest : List Char) : skipSpace (spaces ++ rest) = skipSpace rest :=
  List.dropWhile_append_of_pos blank

theorem skipSpace_cons {c : Char} (notSpace : isSpace c = false) (rest : List Char) :
    skipSpace (c :: rest) = c :: rest := by
  simp [skipSpace, List.dropWhile_cons, notSpace]

theorem isSpace_of_isDigit {c : Char} (digit : c.isDigit) : isSpace c = false := by
  simp only [isSpace, Bool.or_eq_false_iff, beq_eq_false_iff_ne]
  refine ⟨⟨⟨⟨⟨?_, ?_⟩, ?_⟩, ?_⟩, ?_⟩, ?_⟩ <;> (rintro rfl; exact absurd digit (by decide))

theorem takeWhile_dropWhile_append {p : Char → Bool} {run rest : List Char}
    (inside : ∀ c ∈ run, p c) (stop : ∀ c, rest.head? = some c → p c = false) :
    (run ++ rest).takeWhile p = run ∧ (run ++ rest).dropWhile p = rest := by
  rw [List.takeWhile_append_of_pos inside, List.dropWhile_append_of_pos inside]
  cases rest with
  | nil => exact ⟨List.append_nil _, rfl⟩
  | cons c rest => simp [List.takeWhile_cons, List.dropWhile_cons, stop c rfl]

@[simp] theorem Word.chars_isEmpty {size : Nat} (w : Word size) : w.chars.isEmpty = false := by
  cases chars : w.chars with
  | nil => exact absurd chars w.nonempty
  | cons => rfl

theorem skipSpace_word {size : Nat} (w : Word size) (rest : List Char) : skipSpace (w.chars ++ rest) = w.chars ++ rest := by
  obtain ⟨c, chars, split⟩ := List.exists_cons_of_ne_nil w.nonempty
  rw [split]
  exact skipSpace_cons (w.noSpace c (split ▸ List.mem_cons_self c chars)) _

theorem skipSpace_numeral (n : Numeral) (rest : List Char) :
    skipSpace (n.text ++ rest) = n.text ++ rest := by
  obtain ⟨d, digits, split⟩ := List.exists_cons_of_ne_nil n.nonempty
  have digit : d.isDigit := n.decimal d (split ▸ List.mem_cons_self d digits)
  cases negative : n.negative <;> simp only [Numeral.text, negative, split, if_false, if_true,
    List.nil_append, List.cons_append, List.singleton_append]
  · exact skipSpace_cons (isSpace_of_isDigit digit) _
  · exact skipSpace_cons (by decide) _

theorem scanString_word {size : Nat} (w : Word size) {rest : List Char} (ends : StartsWithSpace rest) :
    scanString (w.chars ++ rest) = (some w.chars, rest) := by
  have read : (w.chars ++ rest).takeWhile (!isSpace ·) = w.chars ∧
      (w.chars ++ rest).dropWhile (!isSpace ·) = rest :=
    takeWhile_dropWhile_append (fun c member => by simp [w.noSpace c member])
      (fun c head => by simp [ends c head])
  simp only [scanString, skipSpace_word, read.1, read.2, w.nonempty, if_false]

theorem scanInt_numeral (n : Numeral) {spaces rest : List Char}
    (blank : ∀ c ∈ spaces, isSpace c = true) (ends : StartsWithNonDigit rest) :
    scanInt (spaces ++ n.text ++ rest) = (some n.value, rest) := by
  obtain ⟨d, digits, split⟩ := List.exists_cons_of_ne_nil n.nonempty
  have digit : d.isDigit := n.decimal d (split ▸ List.mem_cons_self d digits)
  have start : skipSpace (spaces ++ n.text ++ rest) = n.text ++ rest := by
    rw [List.append_assoc, skipSpace_append blank, skipSpace_numeral]
  have signed : scanSign (n.text ++ rest) = (n.negative, n.digits ++ rest) := by
    cases negative : n.negative <;> simp only [Numeral.text, negative, split, if_false, if_true,
      List.nil_append, List.cons_append, List.singleton_append]
    · have notMinus : d ≠ '-' := by rintro rfl; exact absurd digit (by decide)
      have notPlus : d ≠ '+' := by rintro rfl; exact absurd digit (by decide)
      simp [scanSign, notMinus, notPlus]
    · rfl
  have read := takeWhile_dropWhile_append n.decimal ends
  simp only [scanInt, start, signed, read.1, read.2, n.nonempty, if_false, Numeral.value]

/-! ## What a read leaves -/

theorem scanString_suffix (input : List Char) : (scanString input).2 <:+ input :=
  (List.dropWhile_suffix _).trans (List.dropWhile_suffix _)

theorem scanString_length_lt {input word rest : List Char}
    (read : scanString input = (some word, rest)) : rest.length < input.length := by
  simp only [scanString, Prod.mk.injEq] at read
  obtain ⟨taken, rfl⟩ := read
  split at taken
  · cases taken
  · rename_i nonempty
    have whole := congrArg List.length
      (List.takeWhile_append_dropWhile (!isSpace ·) (skipSpace input))
    have shorter := (List.dropWhile_suffix isSpace (l := input)).length_le
    have positive := List.length_pos.2 nonempty
    rw [List.length_append] at whole
    unfold skipSpace at *
    omega

theorem scanSign_suffix (input : List Char) : (scanSign input).2 <:+ input := by
  unfold scanSign
  split
  · exact List.suffix_cons _ _
  · exact List.suffix_cons _ _
  · exact List.suffix_refl _

theorem scanInt_suffix (input : List Char) : (scanInt input).2 <:+ input := by
  have unsigned := (scanSign_suffix (skipSpace input)).trans (List.dropWhile_suffix isSpace)
  by_cases empty : (scanSign (skipSpace input)).2.takeWhile Char.isDigit = []
  · simpa only [scanInt, empty, if_true] using unsigned
  · simpa only [scanInt, empty, if_false] using (List.dropWhile_suffix _).trans unsigned

theorem scanInt_length_lt {input : List Char} {value : Int} {rest : List Char}
    (read : scanInt input = (some value, rest)) : rest.length < input.length := by
  have unsigned := ((scanSign_suffix (skipSpace input)).trans
    (List.dropWhile_suffix isSpace)).length_le
  by_cases empty : (scanSign (skipSpace input)).2.takeWhile Char.isDigit = []
  · simp only [scanInt, empty, if_true, Prod.mk.injEq] at read
    cases read.1
  · simp only [scanInt, empty, if_false, Prod.mk.injEq] at read
    obtain ⟨-, rfl⟩ := read
    have whole := congrArg List.length
      (List.takeWhile_append_dropWhile Char.isDigit (scanSign (skipSpace input)).2)
    have positive := List.length_pos.2 empty
    rw [List.length_append] at whole
    omega

theorem scanf_suffix : ∀ (format : List Directive) (input : List Char)
    {result : List Conversion × List Char}, scanf format input = some result → result.2 <:+ input
  | [], _, _, read => by cases read; exact List.suffix_refl _
  | .space :: format, input, _, read =>
      (scanf_suffix format _ read).trans (List.dropWhile_suffix isSpace)
  | .str size :: format, input, result, read => by
      have left := scanString_suffix input
      rcases word : scanString input with ⟨_ | word, rest⟩ <;> rw [word] at left
      · simp only [scanf, word, Option.some.injEq] at read
        exact read ▸ left
      · simp only [scanf, word] at read
        split at read
        · cases read
        · obtain ⟨made, after, rfl⟩ := Option.map_eq_some'.1 read
          exact (scanf_suffix format rest after).trans left
  | .int :: format, input, result, read => by
      have left := scanInt_suffix input
      rcases value : scanInt input with ⟨_ | value, rest⟩ <;> rw [value] at left
      · simp only [scanf, value, Option.some.injEq] at read
        exact read ▸ left
      · simp only [scanf, value] at read
        obtain ⟨made, after, rfl⟩ := Option.map_eq_some'.1 read
        exact (scanf_suffix format rest after).trans left

theorem scanf_length_lt : ∀ (format : List Directive) (input : List Char)
    {result : List Conversion × List Char}, scanf format input = some result → result.1 ≠ [] →
      result.2.length < input.length
  | [], _, _, read, made => by cases read; exact absurd rfl made
  | .space :: format, input, _, read, made =>
      Nat.lt_of_lt_of_le (scanf_length_lt format _ read made) (List.dropWhile_suffix isSpace).length_le
  | .str size :: format, input, result, read, made => by
      rcases word : scanString input with ⟨_ | word, rest⟩
      · simp only [scanf, word, Option.some.injEq] at read
        exact absurd (read ▸ rfl) made
      · simp only [scanf, word] at read
        split at read
        · cases read
        · obtain ⟨made, after, rfl⟩ := Option.map_eq_some'.1 read
          exact Nat.lt_of_le_of_lt (scanf_suffix format rest after).length_le
            (scanString_length_lt word)
  | .int :: format, input, result, read, made => by
      rcases value : scanInt input with ⟨_ | value, rest⟩
      · simp only [scanf, value, Option.some.injEq] at read
        exact absurd (read ▸ rfl) made
      · simp only [scanf, value] at read
        obtain ⟨made, after, rfl⟩ := Option.map_eq_some'.1 read
        exact Nat.lt_of_le_of_lt (scanf_suffix format rest after).length_le (scanInt_length_lt value)

theorem scanString_run {input word rest : List Char} (read : scanString input = (some word, rest)) :
    word <:+: input ∧ ∀ c ∈ word, isSpace c = false := by
  simp only [scanString, Prod.mk.injEq] at read
  obtain ⟨taken, -⟩ := read
  split at taken <;> cases taken
  exact ⟨(List.takeWhile_prefix _).isInfix.trans (List.dropWhile_suffix isSpace).isInfix,
    fun c member => by simpa using List.mem_takeWhile_imp member⟩

theorem scanf_isSome {size : Nat} : ∀ (format : List Directive),
    (∀ n, Directive.str n ∈ format → size ≤ n) → ∀ input, WordsFit size input →
      (scanf format input).isSome
  | [], _, _, _ => rfl
  | .space :: format, large, input, fits =>
      scanf_isSome format (fun n member => large n (.tail _ member)) _
        (fits.suffix (List.dropWhile_suffix isSpace))
  | .str n :: format, large, input, fits => by
      rcases read : scanString input with ⟨_ | word, rest⟩
      · simp [scanf, read]
      · obtain ⟨inside, noSpace⟩ := scanString_run read
        have short := fits word inside noSpace
        have bound := large n (.head _)
        have left := scanString_suffix input
        rw [read] at left
        simpa [scanf, read, show ¬n ≤ word.length by omega] using
          scanf_isSome format (fun n member => large n (.tail _ member)) rest (fits.suffix left)
  | .int :: format, large, input, fits => by
      rcases value : scanInt input with ⟨_ | value, rest⟩
      · simp [scanf, value]
      · have left := scanInt_suffix input
        rw [value] at left
        simpa [scanf, value] using
          scanf_isSome format (fun n member => large n (.tail _ member)) rest (fits.suffix left)

end SliceAnalyzer.FindInst
