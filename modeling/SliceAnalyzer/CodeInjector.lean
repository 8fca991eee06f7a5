import Mathlib.Data.List.Basic

/-!
# The code injector

`code-injector`: where it inserts the statement (`findInjectLoc_spec`), the bytes the statement
writes (`written_eq_message_iff`, `written_eq_iff`), and the file it writes
(`injectedSource_text`, `injectedSource_past_end`).
-/

namespace SliceAnalyzer.CodeInjector

/-- The loop of `HandleTranslationUnit`: the line reached and its location. -/
def findInjectLoc {α : Type} (translateLineCol : Nat → Option α) : Nat → Nat × Option α
  | line + 2 =>
      match translateLineCol (line + 2) with
      | some loc => (line + 2, some loc)
      | none => findInjectLoc translateLineCol (line + 1)
  | line => (line, translateLineCol line)

/-- The statement `main` builds for the target id, which `InsertText` inserts with a newline. -/
def codeToInject (target : List Char) : List Char :=
  "const char* msg=\"AIXCC_REACH_TARGET_".toList ++ target ++
    ("\\n\"; __asm__ __volatile__(\"mov $1, %%rax; mov $2, %%rdi; mov %[buf], %%rsi; " ++
      "mov $21, %%rdx; syscall\": :[buf] \"r\" (msg) : \"rax\", \"rdi\", \"rsi\", \"rdx\", " ++
      "\"rcx\", \"r11\", \"memory\"); ").toList

/-- The string `msg` points to when the inserted statement runs. -/
def message (target : List Char) : List Char := "AIXCC_REACH_TARGET_".toList ++ target ++ ['\n']

/-- What `write(2, msg, 21)` writes: the first 21 bytes of the string and its NUL. -/
def written (target : List Char) : List Char := (message target ++ ['\x00']).take 21

theorem findInjectLoc_spec {α : Type} (translateLineCol : Nat → Option α) :
    ∀ target, 1 ≤ target → ∃ line, findInjectLoc translateLineCol target = (line, translateLineCol line) ∧
      1 ≤ line ∧ line ≤ target ∧ (∀ l, line < l → l ≤ target → translateLineCol l = none) ∧
      (translateLineCol line = none → line = 1)
  | 0, positive => absurd positive (by decide)
  | 1, _ => ⟨1, rfl, le_rfl, le_rfl, fun _ past bound => absurd past (by omega), fun _ => rfl⟩
  | line + 2, _ => by
      unfold findInjectLoc
      split
      · rename_i loc found
        exact ⟨line + 2, by rw [found], by omega, le_rfl, fun _ past bound => absurd past (by omega),
          fun none => by rw [found] at none; cases none⟩
      · rename_i missing
        obtain ⟨reached, eq, low, high, between, first⟩ :=
          findInjectLoc_spec translateLineCol (line + 1) (by omega)
        refine ⟨reached, eq, low, by omega, fun l past bound => ?_, first⟩
        rcases Nat.lt_or_ge l (line + 2) with below | top
        · exact between l past (by omega)
        · rw [show l = line + 2 by omega]
          exact missing

/-- A file of five lines, where clang gives each line a location. -/
def fiveLines (line : Nat) : Option Nat := if line ≤ 5 then some line else none

theorem findInjectLoc_spec_past_end : 1 ≤ 8 ∧ ∃ line, findInjectLoc fiveLines 8 = (line, fiveLines line) ∧
    1 ≤ line ∧ line ≤ 8 ∧ (∀ l, line < l → l ≤ 8 → fiveLines l = none) ∧
    (fiveLines line = none → line = 1) :=
  ⟨by decide, findInjectLoc_spec fiveLines 8 (by decide)⟩

theorem written_eq (target : List Char) :
    written target = "AIXCC_REACH_TARGET_".toList ++ (target ++ ['\n', '\x00']).take 2 := by
  have prefixLength : "AIXCC_REACH_TARGET_".toList.length = 19 := rfl
  rw [written, message, List.append_assoc, List.append_assoc, List.take_append_eq_append_take,
    prefixLength, List.take_of_length_le (by rw [prefixLength]; omega)]
  rfl

/-- An id whose characters are the bytes of the compiled string literal. -/
def Plain (target : List Char) : Prop :=
  ∀ c ∈ target, 0x20 ≤ c.toNat ∧ c.toNat < 0x7f ∧ c ≠ '"' ∧ c ≠ '\\' ∧ c ≠ '?'

instance : DecidablePred Plain := fun _ => inferInstanceAs (Decidable (∀ c ∈ _, _))

theorem Plain.newline_nul_not_mem {target : List Char} (plain : Plain target) :
    '\n' ∉ target ∧ '\x00' ∉ target :=
  ⟨fun member => absurd (plain _ member).1 (by decide),
    fun member => absurd (plain _ member).1 (by decide)⟩

theorem written_eq_message_iff (target : List Char) (plain : Plain target) :
    written target = message target ↔ target.length = 1 := by
  rw [written_eq, message, List.append_assoc, List.append_cancel_left_eq]
  rcases target with _ | ⟨c, _ | ⟨d, rest⟩⟩ <;> simp_all

theorem written_eq_message_iff_seven : Plain "7".toList ∧
    (written "7".toList = message "7".toList ↔ "7".toList.length = 1) :=
  ⟨by decide, written_eq_message_iff _ (by decide)⟩

theorem written_eq_iff (a b : List Char) (plainA : Plain a) (plainB : Plain b) :
    written a = written b ↔ (a ++ ['\n']).take 2 = (b ++ ['\n']).take 2 := by
  obtain ⟨newlineA, nulA⟩ := plainA.newline_nul_not_mem
  obtain ⟨newlineB, nulB⟩ := plainB.newline_nul_not_mem
  clear plainA plainB
  rw [written_eq, written_eq, List.append_cancel_left_eq]
  rcases a with _ | ⟨c, _ | ⟨d, rest⟩⟩ <;> rcases b with _ | ⟨c', _ | ⟨d', rest'⟩⟩ <;>
    simp_all [eq_comm]

theorem written_eq_iff_twelve : Plain "12".toList ∧ Plain "123".toList ∧
    (written "12".toList = written "123".toList ↔
      ("12".toList ++ ['\n']).take 2 = ("123".toList ++ ['\n']).take 2) :=
  ⟨by decide, by decide, written_eq_iff _ _ (by decide) (by decide)⟩

/-! ## The text written -/

/-- The offsets just past each line ending, as `LineOffsetMapping::get` finds them. -/
def lineEnds : List Char → List Nat
  | [] => []
  | '\r' :: '\n' :: rest => 2 :: (lineEnds rest).map (· + 2)
  | c :: rest => (if c = '\n' ∨ c = '\r' then [1] else []) ++ (lineEnds rest).map (· + 1)

example : lineEnds "ab\ncd\r\nx\ry".toList = [3, 7, 9] := by decide

/-- `SourceLineCache`: the offset where each line starts, line 1 at 0. -/
def lineOffsets (buf : List Char) : List Nat := 0 :: lineEnds buf

/-- `SM.translateLineCol(MainFileID, line, 1)`; line 0 gets no location. -/
def translateLineCol (buf : List Char) : Nat → Option Nat
  | 0 => none
  | line + 1 => some ((lineOffsets buf)[line]?.getD (buf.length - 1))

/-- `SourceLineCache[getLineNumber(FID, offs) - 1]`: the start of the line that holds `offs`. -/
def lineStartOf (buf : List Char) (offs : Nat) : Nat :=
  (((lineOffsets buf).filter (· ≤ offs)).getLast?).getD 0

/-- `isWhitespaceExceptNL` of clang's rewriter. -/
def isWhitespaceExceptNL (c : Char) : Bool :=
  c == ' ' || c == '\t' || c == '\x0c' || c == '\x0b' || c == '\r'

/-- `Rewriter::InsertText(Loc, Str, false, true)` at the offset `offs` of an unedited file. -/
def insertText (buf : List Char) (offs : Nat) (str : List Char) : List Char :=
  let indentSpace := (buf.drop (lineStartOf buf offs)).takeWhile isWhitespaceExceptNL
  let indented := if '\n' ∈ str then ('\n' :: indentSpace).intercalate (str.splitOn '\n') else str
  buf.take offs ++ indented ++ buf.drop offs

/-- What `EndSourceFileAction` writes; `some none` when `--outfile` does not open. -/
def injectedSource (opened : Bool) (buf : List Char) (targetLine : Nat) (target : List Char) :
    Option (Option (List Char)) :=
  (findInjectLoc (translateLineCol buf) targetLine).2.map fun offs =>
    if opened then some (insertText buf offs (codeToInject target ++ ['\n'])) else none

/-- A file of lines, each ended by a newline. -/
def text (lines : List (List Char)) : List Char := (lines.map (· ++ ['\n'])).flatten

/-- A line that holds no line ending. -/
def PlainLine (l : List Char) : Prop := '\n' ∉ l ∧ '\r' ∉ l

instance : DecidablePred PlainLine := fun _ => inferInstanceAs (Decidable (_ ∧ _))

theorem text_append_last (pre : List (List Char)) (last : List Char) :
    text (pre ++ [last]) = text pre ++ last ++ ['\n'] := by
  simp [text]

/-! ### The line table -/

theorem lineEnds_line_append {l : List Char} (plain : PlainLine l) (rest : List Char) :
    lineEnds (l ++ '\n' :: rest) = (l.length + 1) :: (lineEnds rest).map (· + (l.length + 1)) := by
  induction l with
  | nil => simp [lineEnds]
  | cons c l ih =>
      simp only [PlainLine, List.mem_cons, not_or] at plain
      obtain ⟨⟨notNL, nl⟩, notCR, cr⟩ := plain
      rw [List.cons_append, lineEnds.eq_3 _ _ (fun _ eq => absurd eq.symm notCR), ih ⟨nl, cr⟩]
      simp [Ne.symm notNL, Ne.symm notCR, List.map_map, Function.comp_def, Nat.add_assoc]

theorem lineOffsets_line_append {l : List Char} (plain : PlainLine l) (rest : List Char) :
    lineOffsets (l ++ '\n' :: rest) = 0 :: (lineOffsets rest).map (· + (l.length + 1)) := by
  simp [lineOffsets, lineEnds_line_append plain]

theorem lineEnds_pos (buf : List Char) : ∀ e ∈ lineEnds buf, 0 < e := by
  induction buf using lineEnds.induct with
  | case1 => simp [lineEnds]
  | case2 rest ih => simp [lineEnds]
  | case3 c rest notCRLF ih =>
      rw [lineEnds.eq_3 _ _ notCRLF]
      intro e member
      simp only [List.mem_append, List.mem_map] at member
      rcases member with one | ⟨e, _, rfl⟩
      · split at one <;> simp_all
      · omega

theorem lineOffsets_text_append {pre : List (List Char)} (plain : ∀ l ∈ pre, PlainLine l)
    (suf : List Char) :
    ∃ starts, lineOffsets (text pre ++ suf) = starts ++ (lineOffsets suf).map (· + (text pre).length) ∧
      starts.length = pre.length ∧ ∀ s ∈ starts, s ≤ (text pre).length := by
  induction pre with
  | nil => exact ⟨[], by simp [text], rfl, by simp⟩
  | cons l pre ih =>
      obtain ⟨starts, offsets, length, below⟩ := ih fun l' m => plain l' (List.mem_cons_of_mem _ m)
      have textCons : text (l :: pre) = l ++ '\n' :: text pre := by simp [text]
      refine ⟨0 :: starts.map (· + (l.length + 1)), ?_, by simp [length], ?_⟩
      · rw [textCons, List.append_assoc, List.cons_append,
          lineOffsets_line_append (plain l (List.mem_cons_self _ _)), offsets]
        simp only [List.map_cons, List.map_append, List.map_map, Function.comp_def, List.cons_append,
          List.length_append, List.length_cons]
        exact congrArg _ (congrArg _ (List.map_congr_left fun x _ => by omega))
      · simp only [textCons, List.mem_cons, List.mem_map]
        rintro s (rfl | ⟨s, member, rfl⟩)
        · exact Nat.zero_le _
        · have := below s member
          simp
          omega

theorem lineStartOf_text_append {pre : List (List Char)} (plain : ∀ l ∈ pre, PlainLine l)
    (suf : List Char) : lineStartOf (text pre ++ suf) (text pre).length = (text pre).length := by
  obtain ⟨starts, offsets, -, below⟩ := lineOffsets_text_append plain suf
  have after : ((lineEnds suf).map (· + (text pre).length)).filter (· ≤ (text pre).length) = [] := by
    simp only [List.filter_eq_nil_iff, List.mem_map]
    rintro _ ⟨e, member, rfl⟩
    have := lineEnds_pos suf e member
    simp
    omega
  rw [lineStartOf, offsets, lineOffsets, List.map_cons, List.filter_append, List.filter_cons, after,
    List.filter_eq_self.2 (fun s member => by simpa using below s member)]
  simp

theorem translateLineCol_text_append {pre : List (List Char)} (plain : ∀ l ∈ pre, PlainLine l)
    (suf : List Char) :
    translateLineCol (text pre ++ suf) (pre.length + 1) = some (text pre).length := by
  obtain ⟨starts, offsets, length, -⟩ := lineOffsets_text_append plain suf
  rw [translateLineCol, offsets, List.getElem?_append_right (by omega), length, Nat.sub_self]
  simp [lineOffsets]

/-! ### The insertion -/

theorem findInjectLoc_of_some {α : Type} {translate : Nat → Option α} {line : Nat} {loc : α}
    (found : translate (line + 1) = some loc) :
    findInjectLoc translate (line + 1) = (line + 1, some loc) := by
  cases line with
  | zero => simp [findInjectLoc, found]
  | succ line => simp [findInjectLoc, found]

theorem findInjectLoc_translateLineCol (buf : List Char) (line : Nat) :
    findInjectLoc (translateLineCol buf) (line + 1) = (line + 1, translateLineCol buf (line + 1)) :=
  findInjectLoc_of_some rfl

theorem newline_not_mem_codeToInject {target : List Char} (plain : '\n' ∉ target) :
    '\n' ∉ codeToInject target := by
  simp only [codeToInject, List.mem_append, plain, not_or, or_false, false_or]
  set_option maxRecDepth 4000 in
  exact ⟨by decide, by decide⟩

theorem indented_codeToInject {target : List Char} (plain : '\n' ∉ target) (indent : List Char) :
    ('\n' :: indent).intercalate ((codeToInject target ++ ['\n']).splitOn '\n') =
      codeToInject target ++ '\n' :: indent := by
  have split : (codeToInject target ++ ['\n']).splitOn '\n' = [codeToInject target, []] := by
    have noNewline : ∀ l ∈ [codeToInject target, []], '\n' ∉ l := by
      simpa using newline_not_mem_codeToInject plain
    simpa [List.intercalate] using List.splitOn_intercalate _ '\n' noNewline (List.cons_ne_nil _ _)
  simp [split, List.intercalate]

theorem takeWhile_whitespace_newline {rest : List Char} : ∀ l : List Char,
    (l ++ '\n' :: rest).takeWhile isWhitespaceExceptNL = l.takeWhile isWhitespaceExceptNL
  | [] => rfl
  | c :: l => by simp only [List.cons_append, List.takeWhile_cons, takeWhile_whitespace_newline l]

theorem injectedSource_text {pre : List (List Char)} (plain : ∀ l ∈ pre, PlainLine l)
    (suf : List Char) {target : List Char} (plainTarget : '\n' ∉ target) (opened : Bool) :
    injectedSource opened (text pre ++ suf) (pre.length + 1) target = some (if opened then
      some (text pre ++ codeToInject target ++ '\n' :: (suf.takeWhile isWhitespaceExceptNL ++ suf))
      else none) := by
  rw [injectedSource, findInjectLoc_translateLineCol, translateLineCol_text_append plain,
    Option.map_some', insertText, lineStartOf_text_append plain, List.drop_left, List.take_left,
    if_pos (List.mem_append_right _ (List.mem_singleton_self _)), indented_codeToInject plainTarget]
  simp

/-- A function whose first line is before the target, and the rest of the file. -/
def bodyLines : List (List Char) := ["int f(void) \x7b".toList]

def bodyRest : List Char := "  return 0;\n\x7d\n".toList

theorem injectedSource_text_return : (∀ l ∈ bodyLines, PlainLine l) ∧ '\n' ∉ "7".toList ∧
    injectedSource true (text bodyLines ++ bodyRest) (bodyLines.length + 1) "7".toList =
      some (if true then some (text bodyLines ++ codeToInject "7".toList ++
        '\n' :: (bodyRest.takeWhile isWhitespaceExceptNL ++ bodyRest)) else none) :=
  ⟨by decide, by decide, injectedSource_text (by decide) _ (by decide) true⟩

theorem injectedSource_past_end {pre : List (List Char)} {last : List Char}
    (plain : ∀ l ∈ pre, PlainLine l) (plainLast : PlainLine last) {target : List Char}
    (plainTarget : '\n' ∉ target) {line : Nat} (past : pre.length + 2 < line) (opened : Bool) :
    injectedSource opened (text (pre ++ [last])) line target = some (if opened then
      some (text pre ++ last ++ codeToInject target ++
        '\n' :: (last.takeWhile isWhitespaceExceptNL ++ ['\n'])) else none) := by
  obtain ⟨starts, offsets, length, below⟩ := lineOffsets_text_append plain (last ++ ['\n'])
  have table : lineOffsets (text (pre ++ [last])) =
      starts ++ [(text pre).length, last.length + 1 + (text pre).length] := by
    rw [text_append_last, List.append_assoc, offsets, lineOffsets_line_append plainLast]
    simp [lineOffsets, lineEnds]
  have start : lineStartOf (text (pre ++ [last])) (text pre ++ last).length = (text pre).length := by
    rw [lineStartOf, table, List.filter_append,
      List.filter_eq_self.2 (fun s member => by simpa using (below s member).trans (Nat.le_add_right _ _))]
    have over : ¬last.length + 1 + (text pre).length ≤ (text pre).length + last.length := by omega
    simp [over]
  obtain ⟨k, rfl⟩ : ∃ k, line = k + 1 := ⟨line - 1, by omega⟩
  have loc : translateLineCol (text (pre ++ [last])) (k + 1) = some (text pre ++ last).length := by
    rw [translateLineCol, table, List.getElem?_eq_none (by simp [length]; omega), text_append_last]
    simp
  rw [injectedSource, findInjectLoc_of_some loc, Option.map_some', insertText, start,
    if_pos (List.mem_append_right _ (List.mem_singleton_self _)), indented_codeToInject plainTarget,
    text_append_last, List.take_left, List.drop_left, List.append_assoc (text pre) last ['\n'],
    List.drop_left, takeWhile_whitespace_newline]
  simp

theorem injectedSource_past_end_five : (∀ l ∈ bodyLines, PlainLine l) ∧ PlainLine "\x7d".toList ∧
    '\n' ∉ "7".toList ∧ bodyLines.length + 2 < 5 ∧
    injectedSource true (text (bodyLines ++ ["\x7d".toList])) 5 "7".toList =
      some (if true then some (text bodyLines ++ "\x7d".toList ++ codeToInject "7".toList ++
        '\n' :: ("\x7d".toList.takeWhile isWhitespaceExceptNL ++ ['\n'])) else none) :=
  ⟨by decide, by decide, by decide, by decide,
    injectedSource_past_end (by decide) (by decide) (by decide) (by decide) true⟩

end SliceAnalyzer.CodeInjector
