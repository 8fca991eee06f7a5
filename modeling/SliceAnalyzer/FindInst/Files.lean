import SliceAnalyzer.FindInst.Config
import Mathlib.Algebra.Order.BigOperators.Group.Finset

/-!
# Reading back the configuration files

Cond and prop files written as lines of words and numerals (`CondLine`, `PropRecord`), and what
the lookups find in them once loaded (`lookupCond_condFile`, `lookupProp_propFile`).
-/

namespace SliceAnalyzer.FindInst

/-! ## Tokens separated by whitespace -/

@[simp] theorem isSpace_blank : isSpace ' ' = true := rfl

@[simp] theorem isSpace_newline : isSpace '\n' = true := rfl

theorem cString_word {size : Nat} (w : Word size) : cString w.chars = w.chars :=
  List.takeWhile_eq_self_iff.2 fun c member => by
    simpa using fun nul : c = '\x00' => w.noNul (nul ▸ member)

theorem scanString_blank {spaces : List Char} (blank : ∀ c ∈ spaces, isSpace c = true)
    (input : List Char) : scanString (spaces ++ input) = scanString input := by
  simp only [scanString, skipSpace_append blank]

theorem scanf_str_blank {c : Char} (sep : isSpace c = true) (size : Nat) (format : List Directive)
    (input : List Char) : scanf (.str size :: format) (c :: input) = scanf (.str size :: format) input := by
  have read : scanString (c :: input) = scanString input :=
    @scanString_blank [c] (by simpa using sep) input
  simp only [scanf, read]

theorem scanf_space_cons {c : Char} (sep : isSpace c = true) (format : List Directive)
    (rest : List Char) : scanf (.space :: format) (c :: rest) = scanf format (skipSpace rest) := by
  simp [scanf, skipSpace, sep]

@[simp] theorem scanf_nil (input : List Char) : scanf [] input = some ([], input) := rfl

theorem scanf_str_word {size : Nat} (w : Word size) {c : Char} (sep : isSpace c = true)
    (format : List Directive) (rest : List Char) :
    scanf (.str size :: format) (w.chars ++ c :: rest) =
      (scanf format (c :: rest)).map (Prod.map (.str w.chars :: ·) id) := by
  have read : scanString (w.chars ++ c :: rest) = (some w.chars, c :: rest) :=
    scanString_word w fun d head => by
      simp only [List.head?_cons, Option.some.injEq] at head
      exact head ▸ sep
  simp only [scanf, read, if_neg (Nat.not_le.2 w.fits)]

theorem scanf_int_numeral (n : Numeral) {c : Char} (sep : isSpace c = true)
    (format : List Directive) (rest : List Char) :
    scanf (.int :: format) (n.text ++ c :: rest) =
      (scanf format (c :: rest)).map (Prod.map (.int n.value :: ·) id) := by
  have ends : StartsWithNonDigit (c :: rest) := fun d head => by
    simp only [List.head?_cons, Option.some.injEq] at head
    cases digit : d.isDigit
    · rfl
    · exact absurd sep (by rw [head, isSpace_of_isDigit digit]; decide)
  have read : scanInt (n.text ++ c :: rest) = (some n.value, c :: rest) :=
    @scanInt_numeral n [] (c :: rest) (fun _ => False.elim ∘ List.not_mem_nil _) ends
  simp only [scanf, read]

/-! ## The cond file -/

/-- A line `name field file line func` of the cond file. -/
structure CondLine where
  name : Word maxStructName
  field : Numeral
  file : Word maxFileName
  line : Numeral
  func : Word maxFileName

namespace CondLine

def text (r : CondLine) : List Char :=
  r.name.chars ++ ' ' :: r.field.text ++ ' ' :: r.file.chars ++ ' ' :: r.line.text ++ ' ' ::
    r.func.chars ++ ['\n']

/-- What `load_cond_file` does with the line. -/
def load (g : Globals) (r : CondLine) : Globals :=
  addCond g r.name.chars r.field.value r.file.chars r.line.value r.func.chars

/-- Whether the line is about a struct field. -/
def IsFor (name : List Char) (field : Int) (r : CondLine) : Bool :=
  r.name.chars == name && r.field.value == field

/-- The location of the value feedback point the line gives. -/
def site (r : CondLine) : List Char × Int × List Char := (r.file.chars, r.line.value, r.func.chars)

end CondLine

/-- The location of the value feedback point of a cond. -/
def Cond.site (c : Cond) : List Char × Int × List Char := (c.filename, c.line, c.funcname)

theorem skipSpace_condLines : ∀ lines : List CondLine,
    skipSpace (lines.flatMap CondLine.text) = lines.flatMap CondLine.text
  | [] => rfl
  | r :: _ => by simpa only [List.flatMap_cons, CondLine.text, List.append_assoc] using
      skipSpace_word r.name _

theorem scanf_condLine (r : CondLine) (rest : List Char) :
    scanf condFormat (r.text ++ rest) =
      some ([.str r.name.chars, .int r.field.value, .str r.file.chars, .int r.line.value,
        .str r.func.chars], skipSpace rest) := by
  simp [condFormat, CondLine.text, scanf_str_word, scanf_int_numeral, scanf_space_cons,
    skipSpace_word, skipSpace_numeral]

theorem loadCondLoop_text : ∀ (lines : List CondLine) (fuel : Nat) (g : Globals),
    (lines.flatMap CondLine.text).length < fuel →
      loadCondLoop fuel (lines.flatMap CondLine.text) g = some (lines.foldl CondLine.load g)
  | _, 0, _, enough => absurd enough (Nat.not_lt_zero _)
  | [], fuel + 1, g, _ => rfl
  | r :: lines, fuel + 1, g, enough => by
      have longer : (lines.flatMap CondLine.text).length < fuel := by
        simp only [List.flatMap_cons, List.length_append] at enough
        have : 0 < r.text.length := List.length_pos.2 (by simp [CondLine.text])
        omega
      simp only [loadCondLoop, List.flatMap_cons, scanf_condLine, skipSpace_condLines, cString_word,
        Word.chars_isEmpty, Bool.or_false, Bool.false_eq_true, if_false]
      exact loadCondLoop_text lines fuel _ longer

theorem loadCondFile_text (lines : List CondLine) (g : Globals) :
    loadCondFile (some (lines.flatMap CondLine.text)) g = some (lines.foldl CondLine.load g) :=
  loadCondLoop_text lines _ g (Nat.lt_succ_self _)

theorem lookupCond_cons (c : Cond) (condList : List Cond) (name : List Char) (field : Int) :
    lookupCond (c :: condList) name field =
      if c.key = (name, field) then some c else lookupCond condList name field := by
  unfold lookupCond
  by_cases same : c.st.name = name ∧ c.st.field = field <;> simp [List.find?_cons, Cond.key, same]

theorem lookupCond_load (g : Globals) (r : CondLine) (name : List Char) (field : Int) :
    (lookupCond (r.load g).condList name field).map Cond.site =
      ((lookupCond g.condList name field).map Cond.site).or
        (if r.IsFor name field then some r.site else none) := by
  unfold CondLine.load addCond
  by_cases same : r.IsFor name field
  · simp only [CondLine.IsFor, Bool.and_eq_true, beq_iff_eq] at same
    obtain ⟨rfl, rfl⟩ := same
    split
    · rename_i found
      obtain ⟨c, found⟩ := Option.isSome_iff_exists.1 found
      simp [found]
    · rename_i fresh
      rw [Option.not_isSome_iff_eq_none] at fresh
      simp [lookupCond_cons, fresh, Cond.key, Cond.site, CondLine.site, CondLine.IsFor]
  · have other : ¬(r.name.chars, r.field.value) = (name, field) := by
      simpa [CondLine.IsFor] using same
    split <;> simp [lookupCond_cons, Cond.key, same, other]

theorem lookupCond_foldl : ∀ (lines : List CondLine) (g : Globals) (name : List Char) (field : Int),
    (lookupCond (lines.foldl CondLine.load g).condList name field).map Cond.site =
      ((lookupCond g.condList name field).map Cond.site).or
        ((lines.find? (CondLine.IsFor name field)).map CondLine.site)
  | [], g, name, field => by simp
  | r :: lines, g, name, field => by
      rw [List.foldl_cons, lookupCond_foldl lines, lookupCond_load, Option.or_assoc, List.find?_cons]
      by_cases same : r.IsFor name field <;> simp [same]

theorem lookupCond_condFile (lines : List CondLine) (propFile : Option (List Char))
    (name : List Char) (field : Int) (propFits : ∀ input ∈ propFile, WordsFit maxStructName input) :
    ∃ g, initStructs (some (lines.flatMap CondLine.text)) propFile = some g ∧
      (lookupCond g.condList name field).map Cond.site =
        (lines.find? (CondLine.IsFor name field)).map CondLine.site := by
  obtain ⟨g, loaded, kept⟩ :=
    loadPropFile_condList propFile (lines.foldl CondLine.load Globals.initial) propFits
  refine ⟨g, by simp only [initStructs, loadCondFile_text, Option.some_bind, loaded], ?_⟩
  rw [kept, lookupCond_foldl]
  rfl

/-- The cond line `S 4294967300 a.c 1 f`, whose field `%d` stores as 4. -/
def wrappedLine : CondLine :=
  ⟨⟨['S'], by simp, by decide, by decide, by decide⟩, ⟨false, "4294967300".toList, by simp, by decide⟩,
    ⟨"a.c".toList, by simp, by decide, by decide, by decide⟩, ⟨false, ['1'], by simp, by decide⟩,
    ⟨['f'], by simp, by decide, by decide, by decide⟩⟩

theorem lookupCond_condFile_wrapped :
    (∀ input ∈ some shortPropFile, WordsFit maxStructName input) ∧
    ∃ g, initStructs (some ([wrappedLine].flatMap CondLine.text)) (some shortPropFile) = some g ∧
      (lookupCond g.condList ['S'] 4).map Cond.site =
        ([wrappedLine].find? (CondLine.IsFor ['S'] 4)).map CondLine.site :=
  ⟨wordsFit_some (by decide), lookupCond_condFile _ _ _ _ (wordsFit_some (by decide))⟩

/-! ## The prop file -/

/-- A pair `name field` of a `pre` or a `post` list. -/
structure StructEntry where
  name : Word maxStructName
  field : Numeral
  notEnd : name.chars.head? ≠ some '-'

namespace StructEntry

def text (e : StructEntry) : List Char := e.name.chars ++ ' ' :: e.field.text ++ ['\n']

/-- The struct field of the pair, as `read_struct` stores it. -/
def st (e : StructEntry) : St := ⟨e.field.value, e.name.chars⟩

end StructEntry

/-- The line `- 0` that ends a list of pairs. -/
def endLine : List Char := ['-', ' ', '0', '\n']

/-- A record of the prop file: `file line func`, its `pre` pairs and its `post` pairs. -/
structure PropRecord where
  file : Word maxFileName
  line : Numeral
  func : Word maxFileName
  pre : List StructEntry
  post : List StructEntry

namespace PropRecord

def text (r : PropRecord) : List Char :=
  r.file.chars ++ ' ' :: r.line.text ++ ' ' :: r.func.chars ++ '\n' ::
    (r.pre.flatMap StructEntry.text ++ endLine ++ r.post.flatMap StructEntry.text ++ endLine)

/-- What `load_prop_file` does with the record. -/
def load (g : Globals) (r : PropRecord) : Globals :=
  let opened := openProp g r.file.chars r.line.value r.func.chars
  let pre := r.pre.foldl (fun p e => addStruct p true e.name.chars e.field.value) opened.2
  let post := r.post.foldl (fun p e => addStruct p false e.name.chars e.field.value) pre
  { opened.1 with pList := setProp opened.1.pList post }

end PropRecord

theorem scanf_pair (w : Word maxStructName) (n : Numeral) (rest : List Char) :
    scanf structFormat ('\n' :: (w.chars ++ ' ' :: (n.text ++ '\n' :: rest))) =
      some ([.str w.chars, .int n.value], '\n' :: rest) := by
  simp [structFormat, scanf_str_blank, scanf_str_word, scanf_space_cons, skipSpace_numeral,
    scanf_int_numeral]

theorem scanf_endLine (rest : List Char) :
    scanf structFormat ('\n' :: (endLine ++ rest)) = some ([.str ['-'], .int 0], '\n' :: rest) := by
  have zero : (⟨false, ['0'], by simp, by decide⟩ : Numeral).value = 0 := by decide
  simpa only [zero] using
    scanf_pair ⟨['-'], by simp, by decide, by decide, by decide⟩ ⟨false, ['0'], by simp, by decide⟩ rest

theorem readStruct_text (isPre : Bool) (rest : List Char) : ∀ (entries : List StructEntry)
    (fuel : Nat) (p : PropList), (entries.flatMap StructEntry.text).length < fuel →
    readStruct fuel ('\n' :: (entries.flatMap StructEntry.text ++ (endLine ++ rest))) p isPre =
      some (entries.foldl (fun p e => addStruct p isPre e.name.chars e.field.value) p, '\n' :: rest)
  | _, 0, _, enough => absurd enough (Nat.not_lt_zero _)
  | [], fuel + 1, p, _ => by
      simp only [readStruct, List.flatMap_nil, List.nil_append, scanf_endLine]
      rfl
  | e :: entries, fuel + 1, p, enough => by
      have longer : (entries.flatMap StructEntry.text).length < fuel := by
        simp only [List.flatMap_cons, List.length_append] at enough
        have : 0 < e.text.length := List.length_pos.2 (by simp [StructEntry.text])
        omega
      have notEnd : (e.name.chars.head? == some '-') = false := by simpa using e.notEnd
      simp only [readStruct, List.flatMap_cons, StructEntry.text, List.append_assoc, List.cons_append,
        List.singleton_append, scanf_pair, cString_word, Word.chars_isEmpty, notEnd, Bool.or_false,
        Bool.false_eq_true, if_false, List.foldl_cons]
      exact readStruct_text isPre rest entries fuel _ longer

theorem scanf_propRecord (r : PropRecord) (rest : List Char) :
    scanf propFormat (r.text ++ rest) =
      some ([.str r.file.chars, .int r.line.value, .str r.func.chars],
        '\n' :: (r.pre.flatMap StructEntry.text ++ (endLine ++
          (r.post.flatMap StructEntry.text ++ (endLine ++ rest))))) := by
  simp [propFormat, PropRecord.text, scanf_str_word, scanf_int_numeral, scanf_space_cons,
    skipSpace_word, skipSpace_numeral]

theorem loadPropLoop_text : ∀ (records : List PropRecord) (spaces : List Char) (fuel : Nat)
    (g : Globals), (∀ c ∈ spaces, isSpace c = true) →
    (spaces ++ records.flatMap PropRecord.text).length < fuel →
    loadPropLoop fuel (spaces ++ records.flatMap PropRecord.text) g =
      some (records.foldl PropRecord.load g)
  | _, _, 0, _, _, enough => absurd enough (Nat.not_lt_zero _)
  | [], spaces, fuel + 1, g, blank, _ => by
      have read : scanString spaces = (none, []) := by
        simpa using scanString_blank blank []
      simp [loadPropLoop, propFormat, scanf, read]
  | r :: records, spaces, fuel + 1, g, blank, enough => by
      have read : scanf propFormat (spaces ++ (r.text ++ records.flatMap PropRecord.text)) =
          scanf propFormat (r.text ++ records.flatMap PropRecord.text) := by
        simp only [propFormat, scanf, scanString_blank blank]
      have longer : ('\n' :: records.flatMap PropRecord.text).length < fuel := by
        simp only [List.flatMap_cons, List.length_append, List.length_cons] at enough ⊢
        have : 2 ≤ r.text.length := by
          obtain ⟨c, chars, split⟩ := List.exists_cons_of_ne_nil r.file.nonempty
          simp only [PropRecord.text, split, List.length_append, List.length_cons]
          omega
        omega
      simp only [loadPropLoop, List.flatMap_cons, read, scanf_propRecord, cString_word,
        Word.chars_isEmpty, Bool.and_false, Bool.false_eq_true, if_false]
      rw [readStruct_text true _ r.pre _ _ (by simp; omega), Option.some_bind,
        readStruct_text false _ r.post _ _ (by simp; omega), Option.some_bind]
      exact loadPropLoop_text records ['\n'] fuel _ (by simp) longer

theorem loadPropFile_text (records : List PropRecord) (g : Globals) :
    loadPropFile (some (records.flatMap PropRecord.text)) g = some (records.foldl PropRecord.load g) :=
  loadPropLoop_text records [] _ g (fun _ => False.elim ∘ List.not_mem_nil _) (Nat.lt_succ_self _)

/-! ## What the loaded entries hold -/

/-- A struct field one of the lists of an entry holds. -/
def PropList.Holds (p : PropList) (s : St) : Prop := s ∈ p.pre ∨ s ∈ p.post

theorem lookupStruct_isSome (l : List St) (name : List Char) (field : Int) :
    (lookupStruct l name field).isSome ↔ ⟨field, name⟩ ∈ l := by
  simp only [lookupStruct, List.find?_isSome, Bool.and_eq_true, beq_iff_eq]
  constructor
  · rintro ⟨⟨field, name⟩, member, rfl, rfl⟩
    exact member
  · exact fun member => ⟨_, member, rfl, rfl⟩

theorem lookupProp_isSome (pList : List PropList) (file : List Char) (line : Int) :
    (lookupProp pList (some file) line).isSome ↔ (file, line) ∈ pList.map PropList.key := by
  simp [lookupProp, List.find?_isSome, PropList.key, and_comm]

theorem addStruct_holds (p : PropList) (isPre : Bool) (name : List Char) (field : Int) (s : St) :
    (addStruct p isPre name field).Holds s ↔ p.Holds s ∨ s = ⟨field, name⟩ := by
  unfold addStruct
  split
  · rename_i found
    rw [lookupStruct_isSome] at found
    exact ⟨.inl, fun held => held.elim id fun same => .inl (same ▸ found)⟩
  · split <;> simp only [PropList.Holds, List.mem_cons] <;> tauto

theorem foldl_addStruct_holds (isPre : Bool) : ∀ (entries : List StructEntry) (p : PropList) (s : St),
    (entries.foldl (fun p e => addStruct p isPre e.name.chars e.field.value) p).Holds s ↔
      p.Holds s ∨ s ∈ entries.map StructEntry.st
  | [], p, s => by simp
  | e :: entries, p, s => by
      rw [List.foldl_cons, foldl_addStruct_holds isPre entries, addStruct_holds, List.map_cons,
        List.mem_cons, or_assoc]
      rfl

theorem foldl_addStruct_grows (isPre : Bool) : ∀ (entries : List StructEntry) (p : PropList),
    p.Grows (entries.foldl (fun p e => addStruct p isPre e.name.chars e.field.value) p)
  | [], p => .refl p
  | _ :: entries, p => (addStruct_grows p isPre _ _).trans (foldl_addStruct_grows isPre entries _)

theorem lookupProp_cons (x : PropList) (pList : List PropList) (file : List Char) (line : Int) :
    lookupProp (x :: pList) (some file) line =
      if x.key = (file, line) then some x else lookupProp pList (some file) line := by
  unfold lookupProp
  by_cases same : x.filename = file ∧ x.line = line <;> simp [List.find?_cons, PropList.key, same]

theorem lookupProp_some {pList : List PropList} {file : List Char} {line : Int} {q : PropList}
    (found : lookupProp pList (some file) line = some q) : q ∈ pList ∧ q.key = (file, line) := by
  simp only [lookupProp] at found
  exact ⟨List.mem_of_find?_eq_some found, by simpa [PropList.key] using List.find?_some found⟩

theorem setProp_holds {p q : PropList} (grows : ∀ s, q.Holds s → p.Holds s) (s : St) :
    ∀ {pList : List PropList}, lookupProp pList (some p.filename) p.line = some q →
      ((∃ x ∈ setProp pList p, x.Holds s) ↔ (∃ x ∈ pList, x.Holds s) ∨ p.Holds s)
  | [], found => by cases found
  | x :: pList, found => by
      rw [lookupProp_cons] at found
      by_cases same : x.key = (p.filename, p.line)
      · rw [if_pos same, Option.some.injEq] at found
        subst found
        simp only [PropList.key, Prod.mk.injEq] at same
        simp only [setProp, same, beq_self_eq_true, Bool.and_self, if_true, List.exists_mem_cons_iff]
        exact ⟨fun held => held.elim .inr (.inl ∘ .inr),
          fun held => held.elim (·.elim (.inl ∘ grows s) .inr) .inl⟩
      · rw [if_neg same] at found
        simp only [PropList.key, Prod.mk.injEq] at same
        have other : (x.filename == p.filename && x.line == p.line) = false := by
          simpa using same
        simp only [setProp, other, Bool.false_eq_true, if_false, List.exists_mem_cons_iff,
          setProp_holds grows s found, or_assoc]

theorem openProp_holds (g : Globals) (file : List Char) (line : Int) (func : List Char) (s : St)
    (held : (openProp g file line func).2.Holds s) : ∃ x ∈ g.pList, x.Holds s := by
  revert held
  unfold openProp
  split
  · exact fun held => ⟨_, (lookupProp_some ‹_›).1, held⟩
  · simp [PropList.Holds]

theorem setProp_openProp (g : Globals) (file : List Char) (line : Int) (func : List Char)
    {p : PropList} (grows : (openProp g file line func).2.Grows p) (s : St) :
    (∃ x ∈ setProp (openProp g file line func).1.pList p, x.Holds s) ↔
      (∃ x ∈ g.pList, x.Holds s) ∨ p.Holds s := by
  revert grows
  unfold openProp
  split
  · rename_i q found
    intro grows
    have at_ := (lookupProp_some found).2
    simp only [PropList.key, Prod.mk.injEq] at at_
    refine setProp_holds (fun s held => held.elim (.inl ∘ grows.pre s) (.inr ∘ grows.post s)) s ?_
    rw [grows.filename, grows.line, at_.1, at_.2]
    exact found
  · intro grows
    simp [setProp, grows.filename, grows.line, List.exists_mem_cons_iff, or_comm]

theorem openProp_keys_mem (g : Globals) (file : List Char) (line : Int) (func : List Char)
    (k : List Char × Int) :
    k ∈ (openProp g file line func).1.pList.map PropList.key ↔
      k ∈ g.pList.map PropList.key ∨ k = (file, line) := by
  unfold openProp
  split
  · rename_i q found
    have present := List.mem_map_of_mem PropList.key (lookupProp_some found).1
    rw [(lookupProp_some found).2] at present
    exact ⟨.inl, fun member => member.elim id fun same => same ▸ present⟩
  · simp [PropList.key, or_comm]

theorem PropRecord.load_holds (g : Globals) (r : PropRecord) (s : St) :
    (∃ p ∈ (r.load g).pList, p.Holds s) ↔
      (∃ p ∈ g.pList, p.Holds s) ∨ s ∈ (r.pre ++ r.post).map StructEntry.st := by
  have grows := (foldl_addStruct_grows true r.pre (openProp g r.file.chars r.line.value
    r.func.chars).2).trans (foldl_addStruct_grows false r.post _)
  have opened := openProp_holds g r.file.chars r.line.value r.func.chars s
  rw [PropRecord.load, setProp_openProp g _ _ _ grows, foldl_addStruct_holds, foldl_addStruct_holds,
    List.map_append, List.mem_append]
  constructor
  · rintro (held | (held | held) | held)
    · exact .inl held
    · exact .inl (opened held)
    · exact .inr (.inl held)
    · exact .inr (.inr held)
  · rintro (held | held | held)
    · exact .inl held
    · exact .inr (.inl (.inr held))
    · exact .inr (.inr held)

theorem PropRecord.load_keys_mem (g : Globals) (r : PropRecord) (k : List Char × Int) :
    k ∈ (r.load g).pList.map PropList.key ↔
      k ∈ g.pList.map PropList.key ∨ k = (r.file.chars, r.line.value) := by
  rw [PropRecord.load, setProp_keys, openProp_keys_mem]

theorem foldl_load_holds : ∀ (records : List PropRecord) (g : Globals) (s : St),
    (∃ p ∈ (records.foldl PropRecord.load g).pList, p.Holds s) ↔
      (∃ p ∈ g.pList, p.Holds s) ∨ ∃ r ∈ records, s ∈ (r.pre ++ r.post).map StructEntry.st
  | [], g, s => by simp
  | r :: records, g, s => by
      rw [List.foldl_cons, foldl_load_holds records, PropRecord.load_holds, List.exists_mem_cons_iff,
        or_assoc]

theorem foldl_load_keys_mem : ∀ (records : List PropRecord) (g : Globals) (k : List Char × Int),
    k ∈ (records.foldl PropRecord.load g).pList.map PropList.key ↔
      k ∈ g.pList.map PropList.key ∨ ∃ r ∈ records, k = (r.file.chars, r.line.value)
  | [], g, k => by simp
  | r :: records, g, k => by
      rw [List.foldl_cons, foldl_load_keys_mem records, PropRecord.load_keys_mem,
        List.exists_mem_cons_iff, or_assoc]

theorem lookupProp_propFile (condFile : Option (List Char)) (records : List PropRecord)
    (file : List Char) (line : Int) (name : List Char) (field : Int)
    (condFits : ∀ input ∈ condFile, WordsFit maxStructName input) :
    ∃ g, initStructs condFile (some (records.flatMap PropRecord.text)) = some g ∧
      ((lookupProp g.pList (some file) line).isSome ↔
        ∃ r ∈ records, r.file.chars = file ∧ r.line.value = line) ∧
      (lookupPropSt g.pList name field ≠ 0 ↔
        ∃ r ∈ records, ∃ e ∈ r.pre ++ r.post, e.name.chars = name ∧ e.field.value = field) := by
  obtain ⟨g, loaded, empty, -⟩ := loadCondFile_pList condFile Globals.initial condFits
  refine ⟨_, by rw [initStructs, loaded, Option.some_bind, loadPropFile_text], ?_, ?_⟩
  · rw [lookupProp_isSome, foldl_load_keys_mem, empty]
    simp [Globals.initial, eq_comm, and_comm]
  · simp only [lookupPropSt_ne_zero_iff, lookupStruct_isSome]
    refine (foldl_load_holds records g ⟨field, name⟩).trans ?_
    rw [empty]
    simp [Globals.initial, StructEntry.st, and_comm, or_and_right, exists_or]

/-- A record of an enable point at `a.c:3` in `main`, with no pairs. -/
def enableRecord : PropRecord :=
  ⟨⟨"a.c".toList, by simp, by decide, by decide, by decide⟩, ⟨false, ['3'], by simp, by decide⟩,
    ⟨"main".toList, by simp, by decide, by decide, by decide⟩, [], []⟩

theorem lookupProp_propFile_enable : (∀ input ∈ some shortCondFile, WordsFit maxStructName input) ∧
    ∃ g, initStructs (some shortCondFile) (some ([enableRecord].flatMap PropRecord.text)) = some g ∧
      ((lookupProp g.pList (some "a.c".toList) 3).isSome ↔
        ∃ r ∈ [enableRecord], r.file.chars = "a.c".toList ∧ r.line.value = 3) ∧
      (lookupPropSt g.pList ['S'] 4 ≠ 0 ↔
        ∃ r ∈ [enableRecord], ∃ e ∈ r.pre ++ r.post, e.name.chars = ['S'] ∧ e.field.value = 4) :=
  ⟨wordsFit_some (by decide), lookupProp_propFile _ _ _ _ _ _ (wordsFit_some (by decide))⟩

/-! ## The indices of the entries -/

theorem setProp_length (pList : List PropList) (p : PropList) :
    (setProp pList p).length = pList.length := by
  simpa using congrArg List.length (setProp_keys pList p)

theorem mem_setProp {p x : PropList} : ∀ {pList : List PropList},
    x ∈ setProp pList p → x ∈ pList ∨ x = p
  | [], member => .inl member
  | q :: pList, member => by
      unfold setProp at member
      split at member
      · exact (List.mem_cons.1 member).elim .inr (.inl ∘ List.mem_cons_of_mem q)
      · exact (List.mem_cons.1 member).elim (.inl ∘ (· ▸ List.mem_cons_self q pList))
          fun member => (mem_setProp member).elim (.inl ∘ List.mem_cons_of_mem q) .inr

theorem setProp_openProp_idx (g : Globals) (file : List Char) (line : Int) (func : List Char)
    {p : PropList} (grows : (openProp g file line func).2.Grows p)
    (counted : g.propIdx.toNat = g.pList.length + 1) (nonzero : ∀ p ∈ g.pList, p.idx ≠ 0)
    (room : g.pList.length + 2 < 2 ^ 32) :
    (openProp g file line func).1.propIdx.toNat =
        (setProp (openProp g file line func).1.pList p).length + 1 ∧
      (∀ x ∈ setProp (openProp g file line func).1.pList p, x.idx ≠ 0) ∧
      (setProp (openProp g file line func).1.pList p).length ≤ g.pList.length + 1 := by
  revert grows
  unfold openProp
  split
  · rename_i q found
    intro grows
    refine ⟨by simpa [setProp_length] using counted, fun x member => ?_, by simp [setProp_length]⟩
    rcases mem_setProp member with old | rfl
    · exact nonzero x old
    · rw [grows.idx]
      exact nonzero q (lookupProp_some found).1
  · intro grows
    have first : setProp (⟨func, file, line, g.propIdx, [], []⟩ :: g.pList) p = p :: g.pList := by
      simp [setProp, grows.filename, grows.line]
    simp only [first, List.length_cons]
    refine ⟨?_, fun x member => ?_, Nat.le_refl _⟩
    · have one : (1 : BitVec 32).toNat = 1 := rfl
      rw [BitVec.toNat_add, counted, one, Nat.mod_eq_of_lt (by omega)]
    · rcases List.mem_cons.1 member with rfl | old
      · rw [grows.idx]
        intro zero
        change g.propIdx = 0 at zero
        rw [zero] at counted
        simp at counted
      · exact nonzero x old

theorem foldl_load_idx : ∀ (records : List PropRecord) (g : Globals),
    g.propIdx.toNat = g.pList.length + 1 → (∀ p ∈ g.pList, p.idx ≠ 0) →
      g.pList.length + records.length < 2 ^ 32 - 1 →
        ∀ p ∈ (records.foldl PropRecord.load g).pList, p.idx ≠ 0
  | [], g, _, nonzero, _ => nonzero
  | r :: records, g, counted, nonzero, few => by
      have grows := (foldl_addStruct_grows true r.pre (openProp g r.file.chars r.line.value
        r.func.chars).2).trans (foldl_addStruct_grows false r.post _)
      simp only [List.length_cons] at few
      obtain ⟨counted', nonzero', grown⟩ := setProp_openProp_idx g _ _ _ grows counted nonzero
        (by omega)
      exact foldl_load_idx records _ counted' nonzero' (by simp only [PropRecord.load]; omega)

end SliceAnalyzer.FindInst
