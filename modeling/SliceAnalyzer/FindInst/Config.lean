import SliceAnalyzer.FindInst.Scan

/-!
# The configuration of `gcc_find_inst`

`init_structs` and the loaders of the cond and prop files. Loading finishes and keeps the keys of
both lists distinct (`initStructs_keys`).
-/

namespace SliceAnalyzer.FindInst

/-- `struct st`: a struct name and a field offset. -/
structure St where
  field : Int
  name : List Char
  deriving DecidableEq

/-- `struct cond`. -/
structure Cond where
  funcname : List Char
  filename : List Char
  line : Int
  idx : BitVec 32
  st : St
  deriving DecidableEq

/-- `struct prop_list`. -/
structure PropList where
  funcname : List Char
  filename : List Char
  line : Int
  idx : BitVec 32
  pre : List St
  post : List St
  deriving DecidableEq

/-- The plugin's globals `cond_list`, `p_list`, `prop_idx`, and the counter of `load_cond_file`. -/
structure Globals where
  condList : List Cond
  pList : List PropList
  condIdx : BitVec 32
  propIdx : BitVec 32

/-- The globals when the plugin is loaded: both lists empty, both counters at 1. -/
def Globals.initial : Globals := ⟨[], [], 1, 1⟩

/-! ## Lookups -/

/-- `lookup_cond(NULL, name, field)`: the first cond of `cond_list` for the struct field. -/
def lookupCond (condList : List Cond) (name : List Char) (field : Int) : Option Cond :=
  condList.find? fun c => c.st.name == name && c.st.field == field

/-- `lookup_struct(s, name, field)`: the first entry of the list for the struct field. -/
def lookupStruct (s : List St) (name : List Char) (field : Int) : Option St :=
  s.find? fun cur => name == cur.name && cur.field == field

/-- `lookup_prop_st(name, field)`. -/
def lookupPropSt : List PropList → List Char → Int → BitVec 32
  | [], _, _ => 0
  | p :: pList, name, field =>
      if (lookupStruct p.pre name field).isSome then p.idx <<< 8 ||| 1
      else if (lookupStruct p.post name field).isSome then p.idx <<< 8 ||| 2
      else lookupPropSt pList name field

/-- `lookup_prop(file, line)`; none for a `NULL` file. -/
def lookupProp (pList : List PropList) : Option (List Char) → Int → Option PropList
  | none, _ => none
  | some file, line => pList.find? fun p => p.filename == file && p.line == line

/-! ## Loading -/

/-- The insertion of `load_cond_file`. -/
def addCond (g : Globals) (buf : List Char) (field : Int) (filename : List Char) (line : Int)
    (func : List Char) : Globals :=
  if (lookupCond g.condList buf field).isSome then g
  else
    { g with
      condList := ⟨func, filename, line, g.condIdx, ⟨field, buf⟩⟩ :: g.condList
      condIdx := g.condIdx + 1 }

/-- The loop of `load_cond_file`; `none` when a word overflows or the fuel runs out. -/
def loadCondLoop : Nat → List Char → Globals → Option Globals
  | 0, _, _ => none
  | fuel + 1, input, g =>
      match scanf condFormat input with
      | none => none
      | some ([.str buf, .int field, .str filename, .int line, .str func], rest) =>
          if (cString buf).isEmpty || (cString func).isEmpty then some g
          else
            loadCondLoop fuel rest
              (addCond g (cString buf) field (cString filename) line (cString func))
      | some _ => some g

/-- `load_cond_file()`, given the contents of the file `COND_FILE` names, if it opens. -/
def loadCondFile (condFile : Option (List Char)) (g : Globals) : Option Globals :=
  match condFile with
  | none => some g
  | some input => loadCondLoop (input.length + 1) input g

/-- One pair of `read_struct`. -/
def addStruct (p : PropList) (isPre : Bool) (name : List Char) (field : Int) : PropList :=
  if (lookupStruct p.pre name field).isSome then p
  else if isPre then { p with pre := ⟨field, name⟩ :: p.pre }
  else { p with post := ⟨field, name⟩ :: p.post }

/-- `read_struct(fp, p, is_pre)`; `none` when a word overflows or the fuel runs out. -/
def readStruct : Nat → List Char → PropList → Bool → Option (PropList × List Char)
  | 0, _, _, _ => none
  | fuel + 1, input, p, isPre =>
      match scanf structFormat input with
      | none => none
      | some ([.str structName, .int field], rest) =>
          if (cString structName).isEmpty || (cString structName).head? == some '-' then
            some (p, rest)
          else readStruct fuel rest (addStruct p isPre (cString structName) field) isPre
      | some (_, rest) => some (p, rest)

/-- The entry `load_prop_file` reads pairs into. -/
def openProp (g : Globals) (filename : List Char) (line : Int) (func : List Char) :
    Globals × PropList :=
  match lookupProp g.pList (some filename) line with
  | some p => (g, p)
  | none =>
      ({ g with
          pList := ⟨func, filename, line, g.propIdx, [], []⟩ :: g.pList
          propIdx := g.propIdx + 1 },
        ⟨func, filename, line, g.propIdx, [], []⟩)

/-- `read_struct` writing through the pointer `lookup_prop` returned. -/
def setProp : List PropList → PropList → List PropList
  | [], _ => []
  | q :: pList, p =>
      if q.filename == p.filename && q.line == p.line then p :: pList else q :: setProp pList p

/-- The loop of `load_prop_file`; `none` when a word overflows or the fuel runs out. -/
def loadPropLoop : Nat → List Char → Globals → Option Globals
  | 0, _, _ => none
  | fuel + 1, input, g =>
      match scanf propFormat input with
      | none => none
      | some ([.str filename, .int line, .str func], rest) =>
          if (cString filename).isEmpty && (cString func).isEmpty then some g
          else
            let opened := openProp g (cString filename) line (cString func)
            (readStruct (rest.length + 1) rest opened.2 true).bind fun pre =>
              (readStruct (pre.2.length + 1) pre.2 pre.1 false).bind fun post =>
                loadPropLoop fuel post.2 { opened.1 with pList := setProp opened.1.pList post.1 }
      | some _ => some g

/-- `load_prop_file()`, given the contents of the file `PROP_FILE` names, if it opens. -/
def loadPropFile (propFile : Option (List Char)) (g : Globals) : Option Globals :=
  match propFile with
  | none => some g
  | some input => loadPropLoop (input.length + 1) input g

/-- `init_structs()`, run once when the pass is built. -/
def initStructs (condFile propFile : Option (List Char)) : Option Globals :=
  (loadCondFile condFile Globals.initial).bind (loadPropFile propFile)

/-! ## `lookup_prop_st` -/

theorem shift_or_one_ne_zero (idx : BitVec 32) : idx <<< 8 ||| 1 ≠ 0 := fun zero => by
  simpa using congrArg (·.getLsbD 0) zero

theorem shift_or_two_ne_zero (idx : BitVec 32) : idx <<< 8 ||| 2 ≠ 0 := fun zero => by
  simpa using congrArg (·.getLsbD 1) zero

theorem lookupPropSt_ne_zero_iff (pList : List PropList) (name : List Char) (field : Int) :
    lookupPropSt pList name field ≠ 0 ↔
      ∃ p ∈ pList, (lookupStruct p.pre name field).isSome ∨ (lookupStruct p.post name field).isSome := by
  induction pList with
  | nil => simp [lookupPropSt]
  | cons p pList ih =>
      unfold lookupPropSt
      split
      · exact iff_of_true (shift_or_one_ne_zero _) ⟨p, .head _, .inl ‹_›⟩
      · split
        · exact iff_of_true (shift_or_two_ne_zero _) ⟨p, .head _, .inr ‹_›⟩
        · rename_i notPre notPost
          rw [ih, List.exists_mem_cons_iff]
          simp [notPre, notPost]

/-! ## Loading from any contents -/

/-- What `lookup_cond` compares. -/
def Cond.key (c : Cond) : List Char × Int := (c.st.name, c.st.field)

def PropList.key (p : PropList) : List Char × Int := (p.filename, p.line)

theorem lookupCond_eq_none {condList : List Cond} {name : List Char} {field : Int} :
    lookupCond condList name field = none ↔ ∀ c ∈ condList, c.key ≠ (name, field) := by
  simp [lookupCond, Cond.key]

theorem lookupProp_eq_none {pList : List PropList} {file : List Char} {line : Int} :
    lookupProp pList (some file) line = none ↔ ∀ p ∈ pList, p.key ≠ (file, line) := by
  simp [lookupProp, PropList.key]

/-- `read_struct` changes only the lists of an entry, and only adds to them. -/
structure PropList.Grows (p p' : PropList) : Prop where
  funcname : p'.funcname = p.funcname
  filename : p'.filename = p.filename
  line : p'.line = p.line
  idx : p'.idx = p.idx
  pre : ∀ s ∈ p.pre, s ∈ p'.pre
  post : ∀ s ∈ p.post, s ∈ p'.post

theorem PropList.Grows.refl (p : PropList) : p.Grows p :=
  ⟨rfl, rfl, rfl, rfl, fun _ => id, fun _ => id⟩

theorem PropList.Grows.trans {p q r : PropList} (first : p.Grows q) (second : q.Grows r) :
    p.Grows r :=
  ⟨second.funcname.trans first.funcname, second.filename.trans first.filename,
    second.line.trans first.line, second.idx.trans first.idx,
    fun s member => second.pre s (first.pre s member),
    fun s member => second.post s (first.post s member)⟩

theorem PropList.Grows.key {p p' : PropList} (grows : p.Grows p') : p'.key = p.key := by
  simp [PropList.key, grows.filename, grows.line]

theorem addStruct_grows (p : PropList) (isPre : Bool) (name : List Char) (field : Int) :
    p.Grows (addStruct p isPre name field) := by
  unfold addStruct
  split
  · exact .refl p
  · split
    · exact ⟨rfl, rfl, rfl, rfl, fun _ => List.mem_cons_of_mem _, fun _ => id⟩
    · exact ⟨rfl, rfl, rfl, rfl, fun _ => id, fun _ => List.mem_cons_of_mem _⟩

theorem condFormat_sizes : ∀ n, Directive.str n ∈ condFormat → maxStructName ≤ n := by
  simp [condFormat, maxStructName, maxFileName]

theorem structFormat_sizes : ∀ n, Directive.str n ∈ structFormat → maxStructName ≤ n := by
  simp [structFormat]

theorem propFormat_sizes : ∀ n, Directive.str n ∈ propFormat → maxStructName ≤ n := by
  simp [propFormat, maxStructName, maxFileName]

theorem loadCondLoop_inv (Inv : Globals → Prop)
    (step : ∀ g buf field filename line func, Inv g → Inv (addCond g buf field filename line func)) :
    ∀ fuel input g, input.length < fuel → WordsFit maxStructName input → Inv g →
      ∃ g', loadCondLoop fuel input g = some g' ∧ Inv g'
  | 0, _, _, enough, _, _ => absurd enough (Nat.not_lt_zero _)
  | fuel + 1, input, g, enough, fits, inv => by
      unfold loadCondLoop
      split
      · rename_i undefined
        simpa [undefined] using scanf_isSome condFormat condFormat_sizes input fits
      · rename_i read
        split
        · exact ⟨g, rfl, inv⟩
        · exact loadCondLoop_inv Inv step fuel _ _ (Nat.lt_of_lt_of_le
            (scanf_length_lt condFormat input read (by simp)) (Nat.le_of_lt_succ enough))
            (fits.suffix (scanf_suffix condFormat input read)) (step _ _ _ _ _ _ inv)
      · exact ⟨g, rfl, inv⟩

theorem readStruct_inv (Inv : PropList → Prop) (isPre : Bool)
    (step : ∀ p name field, Inv p → Inv (addStruct p isPre name field)) :
    ∀ fuel input p, input.length < fuel → WordsFit maxStructName input → Inv p →
      ∃ p' rest, readStruct fuel input p isPre = some (p', rest) ∧ rest <:+ input ∧ Inv p'
  | 0, _, _, enough, _, _ => absurd enough (Nat.not_lt_zero _)
  | fuel + 1, input, p, enough, fits, inv => by
      unfold readStruct
      split
      · rename_i undefined
        simpa [undefined] using scanf_isSome structFormat structFormat_sizes input fits
      · rename_i read
        have left := scanf_suffix structFormat input read
        split
        · exact ⟨p, _, rfl, left, inv⟩
        · obtain ⟨p', rest', stepped, after, inv'⟩ := readStruct_inv Inv isPre step fuel _ _
            (Nat.lt_of_lt_of_le (scanf_length_lt structFormat input read (by simp))
              (Nat.le_of_lt_succ enough)) (fits.suffix left) (step _ _ _ inv)
          exact ⟨p', rest', stepped, after.trans left, inv'⟩
      · rename_i rest _ read
        exact ⟨p, rest, rfl, scanf_suffix structFormat input read, inv⟩

theorem loadPropLoop_inv (Inv : Globals → Prop)
    (step : ∀ g filename line func p', Inv g → (openProp g filename line func).2.Grows p' →
      Inv { (openProp g filename line func).1 with
        pList := setProp (openProp g filename line func).1.pList p' }) :
    ∀ fuel input g, input.length < fuel → WordsFit maxStructName input → Inv g →
      ∃ g', loadPropLoop fuel input g = some g' ∧ Inv g'
  | 0, _, _, enough, _, _ => absurd enough (Nat.not_lt_zero _)
  | fuel + 1, input, g, enough, fits, inv => by
      unfold loadPropLoop
      split
      · rename_i undefined
        simpa [undefined] using scanf_isSome propFormat propFormat_sizes input fits
      · rename_i filename line func rest read
        split
        · exact ⟨g, rfl, inv⟩
        · have shorter := scanf_length_lt propFormat input read (by simp)
          have restFits := fits.suffix (scanf_suffix propFormat input read)
          obtain ⟨pre, preRest, readPre, preLeft, grownPre⟩ := readStruct_inv
            ((openProp g (cString filename) line (cString func)).2.Grows ·) true
            (fun p name field grown => grown.trans (addStruct_grows p true name field))
            _ rest _ (Nat.lt_succ_self _) restFits (.refl _)
          obtain ⟨post, postRest, readPost, postLeft, grownPost⟩ := readStruct_inv
            ((openProp g (cString filename) line (cString func)).2.Grows ·) false
            (fun p name field grown => grown.trans (addStruct_grows p false name field))
            _ preRest _ (Nat.lt_succ_self _) (restFits.suffix preLeft) grownPre
          obtain ⟨g', looped, inv'⟩ := loadPropLoop_inv Inv step fuel postRest _
            (by have := postLeft.length_le; have := preLeft.length_le; simp only at shorter; omega)
            ((restFits.suffix preLeft).suffix postLeft) (step g _ _ _ post inv grownPost)
          exact ⟨g', by simp only [readPre, readPost, Option.some_bind, looped], inv'⟩
      · exact ⟨g, rfl, inv⟩

theorem loadCondFile_inv (Inv : Globals → Prop)
    (step : ∀ g buf field filename line func, Inv g → Inv (addCond g buf field filename line func))
    {condFile : Option (List Char)} (fits : ∀ input ∈ condFile, WordsFit maxStructName input)
    (g : Globals) (inv : Inv g) : ∃ g', loadCondFile condFile g = some g' ∧ Inv g' := by
  cases condFile with
  | none => exact ⟨g, rfl, inv⟩
  | some input => exact loadCondLoop_inv Inv step _ input g (Nat.lt_succ_self _) (fits input rfl) inv

theorem loadPropFile_inv (Inv : Globals → Prop)
    (step : ∀ g filename line func p', Inv g → (openProp g filename line func).2.Grows p' →
      Inv { (openProp g filename line func).1 with
        pList := setProp (openProp g filename line func).1.pList p' })
    {propFile : Option (List Char)} (fits : ∀ input ∈ propFile, WordsFit maxStructName input)
    (g : Globals) (inv : Inv g) : ∃ g', loadPropFile propFile g = some g' ∧ Inv g' := by
  cases propFile with
  | none => exact ⟨g, rfl, inv⟩
  | some input => exact loadPropLoop_inv Inv step _ input g (Nat.lt_succ_self _) (fits input rfl) inv

@[simp] theorem addCond_pList (g : Globals) (buf : List Char) (field : Int) (filename : List Char)
    (line : Int) (func : List Char) : (addCond g buf field filename line func).pList = g.pList := by
  unfold addCond
  split <;> rfl

theorem addCond_keys (g : Globals) (buf : List Char) (field : Int) (filename : List Char)
    (line : Int) (func : List Char) (unique : (g.condList.map Cond.key).Nodup) :
    ((addCond g buf field filename line func).condList.map Cond.key).Nodup := by
  unfold addCond
  split
  · exact unique
  · rename_i fresh
    rw [Option.not_isSome_iff_eq_none, lookupCond_eq_none] at fresh
    exact List.nodup_cons.2 ⟨fun member => by
      obtain ⟨c, member, same⟩ := List.mem_map.1 member
      exact fresh c member same, unique⟩

theorem setProp_keys : ∀ (pList : List PropList) (p : PropList),
    (setProp pList p).map PropList.key = pList.map PropList.key
  | [], _ => rfl
  | q :: pList, p => by
      unfold setProp
      split
      · rename_i same
        simp only [Bool.and_eq_true, beq_iff_eq] at same
        simp [PropList.key, same.1, same.2]
      · simp [setProp_keys pList p]

theorem openProp_keys (g : Globals) (filename : List Char) (line : Int) (func : List Char)
    (unique : (g.pList.map PropList.key).Nodup) :
    ((openProp g filename line func).1.pList.map PropList.key).Nodup := by
  unfold openProp
  split
  · exact unique
  · rename_i fresh
    rw [lookupProp_eq_none] at fresh
    exact List.nodup_cons.2 ⟨fun member => by
      obtain ⟨p, member, same⟩ := List.mem_map.1 member
      exact fresh p member same, unique⟩

@[simp] theorem openProp_condList (g : Globals) (filename : List Char) (line : Int)
    (func : List Char) : (openProp g filename line func).1.condList = g.condList := by
  unfold openProp
  split <;> rfl

theorem loadPropFile_condList (propFile : Option (List Char)) (g : Globals)
    (fits : ∀ input ∈ propFile, WordsFit maxStructName input) :
    ∃ g', loadPropFile propFile g = some g' ∧ g'.condList = g.condList :=
  loadPropFile_inv (·.condList = g.condList) (fun g' _ _ _ _ kept _ => by simpa using kept) fits g rfl

@[simp] theorem addCond_propIdx (g : Globals) (buf : List Char) (field : Int) (filename : List Char)
    (line : Int) (func : List Char) : (addCond g buf field filename line func).propIdx = g.propIdx := by
  unfold addCond
  split <;> rfl

theorem loadCondFile_pList (condFile : Option (List Char)) (g : Globals)
    (fits : ∀ input ∈ condFile, WordsFit maxStructName input) :
    ∃ g', loadCondFile condFile g = some g' ∧ g'.pList = g.pList ∧ g'.propIdx = g.propIdx :=
  loadCondFile_inv (fun g' => g'.pList = g.pList ∧ g'.propIdx = g.propIdx)
    (fun g' _ _ _ _ _ kept => by simpa using kept) fits g ⟨rfl, rfl⟩

theorem initStructs_keys (condFile propFile : Option (List Char))
    (condFits : ∀ input ∈ condFile, WordsFit maxStructName input)
    (propFits : ∀ input ∈ propFile, WordsFit maxStructName input) :
    ∃ g, initStructs condFile propFile = some g ∧
      (g.condList.map Cond.key).Nodup ∧ (g.pList.map PropList.key).Nodup := by
  let Keyed (g : Globals) : Prop := (g.condList.map Cond.key).Nodup ∧ (g.pList.map PropList.key).Nodup
  obtain ⟨g, loaded, keyed⟩ := loadCondFile_inv Keyed (fun g _ _ _ _ _ keyed =>
    ⟨addCond_keys g _ _ _ _ _ keyed.1, by simpa only [addCond_pList] using keyed.2⟩) condFits
    Globals.initial ⟨List.nodup_nil, List.nodup_nil⟩
  obtain ⟨g', propsLoaded, keyed'⟩ := loadPropFile_inv Keyed
    (fun g filename line func _ keyed _ => ⟨by simpa only [openProp_condList] using keyed.1,
      by simpa only [setProp_keys] using openProp_keys g filename line func keyed.2⟩) propFits g keyed
  exact ⟨g', by simp [initStructs, loaded, propsLoaded], keyed'⟩

/-- A cond file of the one line `S 4294967300 a.c 1 f`. -/
def shortCondFile : List Char := "S 4294967300 a.c 1 f\n".toList

/-- A prop file with the enable point `a.c 3 main`, the pair `S 4` in `pre` and none in `post`. -/
def shortPropFile : List Char := "a.c 3 main\nS 4\n- 0\n- 0\n".toList

theorem initStructs_keys_short :
    (∀ input ∈ some shortCondFile, WordsFit maxStructName input) ∧
    (∀ input ∈ some shortPropFile, WordsFit maxStructName input) ∧
    ∃ g, initStructs (some shortCondFile) (some shortPropFile) = some g ∧
      (g.condList.map Cond.key).Nodup ∧ (g.pList.map PropList.key).Nodup :=
  ⟨wordsFit_some (by decide), wordsFit_some (by decide),
    initStructs_keys _ _ (wordsFit_some (by decide)) (wordsFit_some (by decide))⟩

end SliceAnalyzer.FindInst
