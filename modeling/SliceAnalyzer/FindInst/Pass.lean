import SliceAnalyzer.FindInst.Files

/-!
# The pass of `gcc_find_inst`

`find_pass` over a function given as blocks of statements, each with the nodes `walk_gimple_op`
hands to `find_st`, and the lines it appends to `OUTPUT_FILE`.
-/

namespace SliceAnalyzer.FindInst

/-! ## Trees -/

/-- What `process_tree` reads of the `FIELD_DECL` of an access. -/
structure FieldDecl where
  offset : Option (Nat × Nat)
  integral : Bool
  deriving DecidableEq

/-- `field_offset` in `process_tree`. -/
def FieldDecl.fieldOffset (f : FieldDecl) : Int :=
  match f.offset with
  | none => -1
  | some (bytes, bits) => (bytes + bits / 8 : Nat)

/-- What `process_tree` reads of the type of the object of an access. -/
structure ObjectType where
  isRecord : Bool
  identifier : Option (List Char)
  deriving DecidableEq

/-- A GCC tree as `process_tree` reads it. -/
inductive Tree where
  | null
  | componentRef (object : ObjectType) (field : FieldDecl) (file : Option (List Char)) (line : Int)
      (type : Tree)
  | node (type : Tree)
  deriving DecidableEq

/-- `enum INST_STATE`: the flag `process_tree` leaves in the callback data. -/
inductive InstState where
  | preInst
  | postInst
  | propInst
  | valInst
  | condInst
  deriving DecidableEq

/-- `process_tree(t, cb)`: the flag it sets when it returns a tree, `none` for `NULL`. -/
def processTree (g : Globals) : Tree → Option InstState
  | .null => none
  | .componentRef object field file line type =>
      match object.isRecord, object.identifier with
      | true, some typeName =>
          match lookupCond g.condList typeName field.fieldOffset with
          | none =>
              if lookupPropSt g.pList typeName field.fieldOffset ≠ 0 then some .propInst
              else processTree g type
          | some cond =>
              if field.integral && file == some cond.filename && cond.line == line then
                some .valInst
              else some .condInst
      | _, _ => processTree g type
  | .node type => processTree g type

/-- `find_st(t, walk_subtrees, cb)`: nothing while both lists are empty. -/
def findSt (g : Globals) (t : Tree) : Option InstState :=
  if g.condList.isEmpty && g.pList.isEmpty then none else processTree g t

/-- `walk_gimple_op(stmt, find_st, &cb)` and the flag it leaves. -/
def walkGimpleOp (g : Globals) (nodes : List Tree) : Option InstState :=
  nodes.findSome? (findSt g)

/-! ## Statements, blocks and the lines written -/

/-- The kinds of GIMPLE statement `find_pass` tells apart. -/
inductive StmtKind where
  | label
  | debug
  | other
  deriving DecidableEq

/-- A GIMPLE statement as `find_pass` reads it. -/
structure Stmt where
  kind : StmtKind
  nodes : List Tree
  file : Option (List Char)
  line : Int

/-- `gsi_stmt(gsi_start_nondebug_after_labels_bb(bb))`. -/
def firstNondebugAfterLabels (bb : List Stmt) : Option Stmt :=
  ((bb.dropWhile (·.kind == .label)).dropWhile (·.kind == .debug)).head?

/-- `gsi_stmt(gsi_last_nondebug_bb(bb))`: the last statement that is not a debug statement. -/
def lastNondebug (bb : List Stmt) : Option Stmt :=
  (bb.filter (·.kind != .debug)).getLast?

/-- A function as `find_pass` reads it. -/
structure Function where
  declName : Option (List Char)
  blocks : List (List Stmt)

/-- The first argument of `output_to_file`. -/
inductive Point where
  | valInst
  | propInst
  | enablePoint
  | condInst
  deriving DecidableEq

def Point.name : Point → List Char
  | .valInst => "VAL_INST".toList
  | .propInst => "PROP_INST".toList
  | .enablePoint => "ENABLE_POINT".toList
  | .condInst => "COND_INST".toList

/-- A line of `OUTPUT_FILE`: the point, the location of the statement, and the function's name. -/
structure OutputLine where
  point : Point
  file : Option (List Char)
  funname : List Char
  line : Int
  deriving DecidableEq

/-- `output_to_file(type, stmt, fun)`: the function's name is `"unknown"` without `DECL_NAME`. -/
def output (fn : Function) (point : Point) (stmt : Stmt) : OutputLine :=
  ⟨point, stmt.file, fn.declName.getD "unknown".toList, stmt.line⟩

theorem lookupProp_nil (file : Option (List Char)) (line : Int) : lookupProp [] file line = none := by
  cases file <;> rfl

/-- `p && p->idx` in `find_pass`: the statement's location is an enable point. -/
def isEnablePoint (g : Globals) (stmt : Stmt) : Bool :=
  match lookupProp g.pList stmt.file stmt.line with
  | some p => p.idx != 0
  | none => false

/-- One statement of the loop of `find_pass`: the lines written so far and `insert_cond_inst`. -/
def visitStmt (g : Globals) (fn : Function) (acc : List OutputLine × Bool) (stmt : Stmt) :
    List OutputLine × Bool :=
  let walked : List OutputLine × Bool :=
    match walkGimpleOp g stmt.nodes with
    | some .condInst => (acc.1, true)
    | some .valInst => (acc.1 ++ [output fn .valInst stmt], acc.2)
    | some .propInst => (acc.1 ++ [output fn .propInst stmt], acc.2)
    | _ => acc
  if isEnablePoint g stmt then (walked.1 ++ [output fn .enablePoint stmt], walked.2) else walked

/-- The body of `FOR_EACH_BB_FN` in `find_pass`: the lines written for a block. -/
def findPassBlock (g : Globals) (fn : Function) (bb : List Stmt) : List OutputLine :=
  match firstNondebugAfterLabels bb with
  | none => []
  | some stmt =>
      match lastNondebug bb with
      | none => []
      | some _ =>
          let visited := bb.foldl (visitStmt g fn) ([], false)
          if visited.2 then visited.1 ++ [output fn .condInst stmt] else visited.1

/-- `find_pass(fun)`: nothing unless `-fsanitize-coverage=trace-pc` is on. -/
def findPass (g : Globals) (tracePc : Bool) (fn : Function) : List OutputLine :=
  if tracePc then fn.blocks.flatMap (findPassBlock g fn) else []

/-! ## Writing the lines -/

/-- What `output_to_file` reads of its process. -/
structure Env where
  outputFile : Option (List Char)
  cwd : Option (List Char)
  canOpen : Nat → Bool

/-- The text `fprintf(fp, "%s:%s/%s:%s:%d\n", ...)` appends. -/
def OutputLine.text (cwd : List Char) (o : OutputLine) : List Char :=
  o.point.name ++ ':' :: cwd ++ '/' :: o.file.getD "(null)".toList ++ ':' :: o.funname ++ ':' ::
    (toString o.line).toList ++ ['\n']

/-- The call `call` of `output_to_file`: the text it appends, or the message of its `FATAL`. -/
def outputToFile (env : Env) (call : Nat) (o : OutputLine) : Except (List Char) (List Char) :=
  match env.outputFile, env.cwd with
  | none, _ => .error "Unable to read environment variable OUTPUT_FILE".toList
  | some _, none => .error "getcwd() failed".toList
  | some file, some cwd =>
      if env.canOpen call then .ok (o.text cwd) else .error ("Cannot open ".toList ++ file)

/-- The calls of `output_to_file` of a run from the call `call` on. -/
def outputLines (env : Env) (call : Nat) : List OutputLine → Except (List Char) (List Char)
  | [] => .ok []
  | o :: lines => do
      let text ← outputToFile env call o
      let rest ← outputLines env (call + 1) lines
      pure (text ++ rest)

/-! ## What a walk finds -/

theorem processTree_flag (g : Globals) : ∀ (t : Tree) {flag : InstState},
    processTree g t = some flag →
      flag = .propInst ∧ g.pList ≠ [] ∨ (flag = .valInst ∨ flag = .condInst) ∧ g.condList ≠ []
  | .null, _, found => by cases found
  | .node type, _, found => processTree_flag g type found
  | .componentRef object field file line type, flag, found => by
      unfold processTree at found
      split at found
      · split at found
        · split at found
          · rename_i listed
            cases found
            exact .inl ⟨rfl, fun empty => listed (by rw [empty]; rfl)⟩
          · exact processTree_flag g type found
        · rename_i cond hit
          refine .inr ⟨?_, fun empty => by simp [empty, lookupCond] at hit⟩
          split at found <;> cases found <;> simp
      · exact processTree_flag g type found

theorem walkGimpleOp_flag {g : Globals} {nodes : List Tree} {flag : InstState}
    (found : walkGimpleOp g nodes = some flag) :
    flag = .propInst ∧ g.pList ≠ [] ∨ (flag = .valInst ∨ flag = .condInst) ∧ g.condList ≠ [] := by
  obtain ⟨t, -, hit⟩ := List.exists_of_findSome?_eq_some found
  unfold findSt at hit
  split at hit
  · cases hit
  · exact processTree_flag g t hit

/-! ## The loop over a block -/

/-- The lines `find_pass` writes for a statement itself. -/
def stmtLines (g : Globals) (fn : Function) (stmt : Stmt) : List OutputLine :=
  (match walkGimpleOp g stmt.nodes with
    | some .valInst => [output fn .valInst stmt]
    | some .propInst => [output fn .propInst stmt]
    | _ => []) ++
  (if isEnablePoint g stmt then [output fn .enablePoint stmt] else [])

/-- Whether the walk of a statement makes a condition point. -/
def condHit (g : Globals) (stmt : Stmt) : Bool := walkGimpleOp g stmt.nodes == some .condInst

theorem visitStmt_eq (g : Globals) (fn : Function) (lines : List OutputLine) (insert : Bool)
    (stmt : Stmt) :
    visitStmt g fn (lines, insert) stmt = (lines ++ stmtLines g fn stmt, insert || condHit g stmt) := by
  unfold visitStmt stmtLines condHit
  rcases walkGimpleOp g stmt.nodes with _ | (_ | _ | _ | _ | _) <;>
    cases isEnablePoint g stmt <;> simp

theorem foldl_visitStmt (g : Globals) (fn : Function) : ∀ (bb : List Stmt) (lines : List OutputLine)
    (insert : Bool), bb.foldl (visitStmt g fn) (lines, insert) =
      (lines ++ bb.flatMap (stmtLines g fn), insert || bb.any (condHit g))
  | [], lines, insert => by simp
  | stmt :: bb, lines, insert => by
      rw [List.foldl_cons, visitStmt_eq, foldl_visitStmt g fn bb]
      simp [Bool.or_assoc]

theorem firstNondebugAfterLabels_mem {bb : List Stmt} {stmt : Stmt}
    (first : firstNondebugAfterLabels bb = some stmt) : stmt ∈ bb ∧ stmt.kind ≠ .debug := by
  unfold firstNondebugAfterLabels at first
  have notDebug := List.head?_dropWhile_not (·.kind == StmtKind.debug)
    (bb.dropWhile (·.kind == .label))
  rw [first] at notDebug
  refine ⟨?_, by simpa using notDebug⟩
  exact (List.dropWhile_suffix _).subset ((List.dropWhile_suffix _).subset
    (List.mem_of_mem_head? first))

theorem lastNondebug_isSome {bb : List Stmt} {stmt : Stmt}
    (first : firstNondebugAfterLabels bb = some stmt) : (lastNondebug bb).isSome := by
  obtain ⟨member, notDebug⟩ := firstNondebugAfterLabels_mem first
  exact List.getLast?_isSome.2 (List.ne_nil_of_mem (List.mem_filter.2 ⟨member, by simpa using notDebug⟩))

theorem findPassBlock_eq (g : Globals) (fn : Function) (bb : List Stmt) :
    findPassBlock g fn bb =
      match firstNondebugAfterLabels bb with
      | none => []
      | some stmt =>
          bb.flatMap (stmtLines g fn) ++
            if bb.any (condHit g) then [output fn .condInst stmt] else [] := by
  unfold findPassBlock
  split
  · rfl
  · rename_i stmt first
    obtain ⟨last, found⟩ := Option.isSome_iff_exists.1 (lastNondebug_isSome first)
    simp only [found, foldl_visitStmt, List.nil_append, Bool.false_or]
    split <;> simp [*]

theorem stmtLines_point {g : Globals} {fn : Function} {stmt : Stmt} {o : OutputLine}
    (written : o ∈ stmtLines g fn stmt) :
    o.point ≠ .condInst ∧ (o.point = .propInst ∨ o.point = .enablePoint → g.pList ≠ []) ∧
      (o.point = .valInst → g.condList ≠ []) := by
  unfold stmtLines at written
  rcases List.mem_append.1 written with walked | enabled
  · split at walked
    · rename_i found
      rw [List.mem_singleton.1 walked]
      have := walkGimpleOp_flag found
      simp_all [output]
    · rename_i found
      rw [List.mem_singleton.1 walked]
      have := walkGimpleOp_flag found
      simp_all [output]
    · cases walked
  · split at enabled
    · rename_i point
      rw [List.mem_singleton.1 enabled]
      unfold isEnablePoint at point
      split at point
      · rename_i found
        refine ⟨by simp [output], fun _ empty => ?_, by simp [output]⟩
        rw [empty, lookupProp_nil] at found
        cases found
      · cases point
    · cases enabled

theorem findPass_point {g : Globals} {tracePc : Bool} {fn : Function} {o : OutputLine}
    (written : o ∈ findPass g tracePc fn) :
    (o.point = .valInst ∨ o.point = .condInst) ∧ g.condList ≠ [] ∨
      (o.point = .propInst ∨ o.point = .enablePoint) ∧ g.pList ≠ [] := by
  unfold findPass at written
  split at written
  · obtain ⟨bb, -, written⟩ := List.mem_flatMap.1 written
    rw [findPassBlock_eq] at written
    split at written
    · cases written
    · rcases List.mem_append.1 written with own | cond
      · obtain ⟨stmt, -, own⟩ := List.mem_flatMap.1 own
        obtain ⟨notCond, prop, val⟩ := stmtLines_point own
        cases point : o.point <;> simp_all
      · split at cond
        · rename_i hit
          obtain ⟨stmt, -, hit⟩ := List.any_eq_true.1 hit
          rw [List.mem_singleton.1 cond]
          have := walkGimpleOp_flag (by simpa [condHit] using hit)
          simp_all [output]
        · cases cond
  · cases written

/-- Globals with one enable point, at `a.c:3`, and no cond. -/
def enableGlobals : Globals := ⟨[], [⟨"main".toList, "a.c".toList, 3, 1, [], []⟩], 1, 2⟩

/-- A function of one block, whose one statement is at `a.c:3`. -/
def enableFn : Function := ⟨some "main".toList, [[⟨.other, [], some "a.c".toList, 3⟩]]⟩

theorem findPass_point_enablePoint :
    output enableFn .enablePoint ⟨.other, [], some "a.c".toList, 3⟩ ∈ findPass enableGlobals true enableFn ∧
      ((Point.enablePoint = .valInst ∨ Point.enablePoint = .condInst) ∧ enableGlobals.condList ≠ [] ∨
        (Point.enablePoint = .propInst ∨ Point.enablePoint = .enablePoint) ∧ enableGlobals.pList ≠ []) :=
  ⟨by decide, @findPass_point enableGlobals true enableFn
    (output enableFn .enablePoint ⟨.other, [], some "a.c".toList, 3⟩) (by decide)⟩

theorem findPass_enablePoint (g : Globals) (tracePc : Bool) (fn : Function) (o : OutputLine) :
    o ∈ findPass g tracePc fn ∧ o.point = .enablePoint ↔
      tracePc ∧ ∃ bb ∈ fn.blocks, (firstNondebugAfterLabels bb).isSome ∧
        ∃ stmt ∈ bb, isEnablePoint g stmt ∧ o = output fn .enablePoint stmt := by
  have own : ∀ stmt, o ∈ stmtLines g fn stmt ∧ o.point = .enablePoint ↔
      isEnablePoint g stmt ∧ o = output fn .enablePoint stmt := fun stmt => by
    unfold stmtLines
    constructor
    · rintro ⟨written, point⟩
      rcases List.mem_append.1 written with walked | enabled
      · split at walked <;> simp_all [output]
      · split at enabled <;> simp_all
    · rintro ⟨enabled, rfl⟩
      simp [enabled, output]
  unfold findPass
  cases tracePc
  · simp
  · simp only [if_true, List.mem_flatMap, true_and]
    constructor
    · rintro ⟨⟨bb, block, written⟩, point⟩
      rw [findPassBlock_eq] at written
      split at written
      · cases written
      · rename_i stmt first
        rcases List.mem_append.1 written with lines | cond
        · obtain ⟨s, member, lines⟩ := List.mem_flatMap.1 lines
          exact ⟨bb, block, by simp [first], s, member, (own s).1 ⟨lines, point⟩⟩
        · split at cond <;> simp_all [output]
    · rintro ⟨bb, block, first, stmt, member, enabled⟩
      obtain ⟨head, first⟩ := Option.isSome_iff_exists.1 first
      refine ⟨⟨bb, block, ?_⟩, ((own stmt).2 enabled).2⟩
      rw [findPassBlock_eq, first]
      exact List.mem_append_left _ (List.mem_flatMap.2 ⟨stmt, member, ((own stmt).2 enabled).1⟩)

theorem isEnablePoint_iff {g : Globals} (nonzero : ∀ p ∈ g.pList, p.idx ≠ 0) (stmt : Stmt) :
    isEnablePoint g stmt = true ↔ (lookupProp g.pList stmt.file stmt.line).isSome := by
  rcases stmt with ⟨kind, nodes, _ | file, line⟩
  · simp [isEnablePoint, lookupProp]
  · unfold isEnablePoint
    split
    · rename_i p found
      simpa [found] using nonzero p (lookupProp_some found).1
    · simp [*]

theorem findPass_enablePoint_propFile (condFile : Option (List Char)) (records : List PropRecord)
    (few : records.length < 2 ^ 32 - 1) (condFits : ∀ input ∈ condFile, WordsFit maxStructName input) :
    ∃ g, initStructs condFile (some (records.flatMap PropRecord.text)) = some g ∧
      ∀ tracePc fn o, o ∈ findPass g tracePc fn ∧ o.point = .enablePoint ↔
        tracePc ∧ ∃ bb ∈ fn.blocks, (firstNondebugAfterLabels bb).isSome ∧
          ∃ stmt ∈ bb, (∃ r ∈ records, stmt.file = some r.file.chars ∧ stmt.line = r.line.value) ∧
            o = output fn .enablePoint stmt := by
  obtain ⟨g, loaded, empty, start⟩ := loadCondFile_pList condFile Globals.initial condFits
  have nonzero := foldl_load_idx records g (by rw [empty, start]; rfl)
    (by simp [empty, Globals.initial]) (by simpa [empty, Globals.initial] using few)
  have enabled : ∀ stmt, isEnablePoint (records.foldl PropRecord.load g) stmt = true ↔
      ∃ r ∈ records, stmt.file = some r.file.chars ∧ stmt.line = r.line.value := by
    rintro ⟨kind, nodes, _ | file, line⟩
    · simp [isEnablePoint, lookupProp]
    · rw [isEnablePoint_iff nonzero, lookupProp_isSome, foldl_load_keys_mem, empty]
      simp [Globals.initial, eq_comm, and_comm]
  refine ⟨_, by rw [initStructs, loaded, Option.some_bind, loadPropFile_text], fun tracePc fn o => ?_⟩
  simp only [findPass_enablePoint, enabled]

theorem findPass_enablePoint_propFile_one : [enableRecord].length < 2 ^ 32 - 1 ∧
    (∀ input ∈ some shortCondFile, WordsFit maxStructName input) ∧
    ∃ g, initStructs (some shortCondFile) (some ([enableRecord].flatMap PropRecord.text)) = some g ∧
      ∀ tracePc fn o, o ∈ findPass g tracePc fn ∧ o.point = .enablePoint ↔
        tracePc ∧ ∃ bb ∈ fn.blocks, (firstNondebugAfterLabels bb).isSome ∧
          ∃ stmt ∈ bb, (∃ r ∈ [enableRecord], stmt.file = some r.file.chars ∧
            stmt.line = r.line.value) ∧ o = output fn .enablePoint stmt :=
  ⟨by decide, wordsFit_some (by decide),
    findPass_enablePoint_propFile _ [enableRecord] (by decide) (wordsFit_some (by decide))⟩

end SliceAnalyzer.FindInst
