import SliceAnalyzer.WriteBitcode.FileSystem

/-!
# `WriteBitcodePass::run`

One compile: the bitcode under `OUT`, or beside the source and beside its copy under `/src`.
-/

namespace SliceAnalyzer.WriteBitcode

/-- What the pass reads of its process: `OUT`, the current directory, and MD5. -/
structure Env where
  out : Option String
  cwd : List String
  md5 : String → String

/-- What the pass reads of the module. -/
structure Module where
  sourceFileName : String
  bitcode : String

/-- How `run` ends. -/
inductive Outcome where
  | done
  | threw
  | undefined
  deriving DecidableEq

/-- `BITCODE_FOLDER`. -/
def bitcodeFolder : String := "42_aixcc_bitcode"

/-- The file `/tmp/copy_src_root`. -/
def copySrcRoot : List String := ["tmp", "copy_src_root"]

/-- `calculateMD5(filePath)`. -/
def calculateMD5 (env : Env) (fs : FileSystem) (filePath : String) : String :=
  match (absolute env.cwd filePath).bind fs.lookup with
  | some (.file content) => env.md5 content
  | some .dir => env.md5 ""
  | none => fileName filePath

/-- `writeModuleBitcodeToFile(M, path)` within one compile. -/
def writeModuleBitcodeToFile (fs : FileSystem) (M : Module) (path : List String) : FileSystem :=
  if fs.fileExists path then fs else (fs.write (normal path) M.bitcode).getD fs

/-- The branch of `run` for an `OUT` that exists. -/
def writeToOut (env : Env) (fs : FileSystem) (M : Module) (projectPath : List String) :
    FileSystem × Outcome :=
  let targetFolder := projectPath ++ [bitcodeFolder]
  match fs.createDirectories targetFolder with
  | none => (fs, .threw)
  | some fs =>
      let bcName := calculateMD5 env fs M.sourceFileName ++ ".bc"
      (writeModuleBitcodeToFile fs M (targetFolder ++ [bcName]), .done)

/-- The loop of `run` over the directories of `srcPath`, from the root down. -/
def findCopiedRoot (fs : FileSystem) (srcFilePath : List String) : Option (List String) :=
  srcFilePath.dropLast.inits.find? fun root => fs.fileExists (srcTestPath srcFilePath root)

/-- The directory `run` guesses when the loop finds nothing, or how `run` ends instead. -/
def guessRoot (fs : FileSystem) (srcPath : List String) : Except Outcome (List String) :=
  let srcRootPath := if fs.readFile copySrcRoot = "" then none else some srcPath
  let isParent := match srcRootPath with
    | some root => !hasDotDot ("/".intercalate (relative srcPath root)).toList
    | none => true
  match srcRootPath, isParent with
  | some root, true => .ok root
  | _, _ => if "src" ∈ srcPath then .error .undefined else .error .done

/-- The end of `run` after a guess. -/
def copyToGuess (fs : FileSystem) (M : Module) (srcFilePath root : List String) :
    FileSystem × Outcome :=
  let srcGuessPath := srcTestPath srcFilePath root
  match fs.createDirectories srcGuessPath.dropLast with
  | none => (fs, .threw)
  | some fs =>
      match fs.copy srcFilePath srcGuessPath with
      | none => (fs, .threw)
      | some fs => (writeModuleBitcodeToFile fs M (appendToLast srcGuessPath ".bc"), .done)

/-- The search for the copied source, once the bitcode is beside the source. -/
def searchCopiedSource (fs : FileSystem) (M : Module) (srcFilePath : List String) :
    FileSystem × Outcome :=
  match findCopiedRoot fs srcFilePath with
  | some root =>
      let written := writeModuleBitcodeToFile fs M (appendToLast (srcTestPath srcFilePath root) ".bc")
      (written.writeFile copySrcRoot (pathString root), .done)
  | none =>
      match guessRoot fs srcFilePath.dropLast with
      | .ok root => copyToGuess fs M srcFilePath root
      | .error outcome => (fs, outcome)

/-- The fallback of `run`, for an `OUT` that is unset or does not exist. -/
def fallback (env : Env) (fs : FileSystem) (M : Module) : FileSystem × Outcome :=
  match absolute env.cwd M.sourceFileName with
  | none => (fs, .threw)
  | some srcFilePath =>
      if pathExtension srcFilePath ∉ validExtensions then (fs, .done)
      else
        let fs := writeModuleBitcodeToFile fs M (appendToLast srcFilePath ".bc")
        if srcFilePath.length + 1 < 2 ∨ srcFilePath.head? = some "src" then (fs, .done)
        else searchCopiedSource fs M srcFilePath

/-- `WriteBitcodePass::run(M, MAM)`: the file system it leaves, and how it ends. -/
def run (env : Env) (fs : FileSystem) (M : Module) : FileSystem × Outcome :=
  match env.out with
  | none => fallback env fs M
  | some out =>
      match absolute env.cwd out with
      | none => (fs, .threw)
      | some projectPath =>
          if fs.fileExists projectPath then writeToOut env fs M projectPath else fallback env fs M

/-! ## Writing the bitcode -/

theorem writeModuleBitcodeToFile_extends (fs : FileSystem) (M : Module) (path : List String) :
    fs.Extends (writeModuleBitcodeToFile fs M path) := by
  unfold writeModuleBitcodeToFile
  split
  · exact .refl fs
  · rename_i absent
    cases written : fs.write (normal path) M.bitcode with
    | none => exact .refl fs
    | some fs' =>
        exact FileSystem.write_extends
          (by simpa [FileSystem.fileExists, FileSystem.lookup] using absent) written

theorem writeModuleBitcodeToFile_entries (fs : FileSystem) (M : Module) {path q : List String}
    (other : q ≠ normal path) : (writeModuleBitcodeToFile fs M path).entries q = fs.entries q := by
  unfold writeModuleBitcodeToFile
  split
  · rfl
  · cases written : fs.write (normal path) M.bitcode with
    | none => rfl
    | some fs' => simp [FileSystem.write_entries written, other]

theorem writeModuleBitcodeToFile_fileExists (fs : FileSystem) (M : Module) (path : List String)
    (nonroot : normal path ≠ []) (inDir : fs.entries (normal path).dropLast = some .dir) :
    (writeModuleBitcodeToFile fs M path).fileExists path = true := by
  unfold writeModuleBitcodeToFile
  split
  · assumption
  · rename_i absent
    obtain ⟨fs', written⟩ := fs.write_of_fresh M.bitcode nonroot inDir
      (by simpa [FileSystem.fileExists, FileSystem.lookup] using absent)
    simp [written, FileSystem.fileExists, FileSystem.lookup, FileSystem.write_entries written]

theorem length_append_bc (x : String) : (x ++ ".bc").length = x.length + 3 := by
  rw [String.length_append]
  rfl

theorem name_append_bc (x : String) : Name (x ++ ".bc") :=
  name_of_length (by rw [length_append_bc]; omega)

theorem normal_appendToLast (init : List String) (x : String) :
    normal (appendToLast (init ++ [x]) ".bc") = normal init ++ [x ++ ".bc"] := by
  rw [appendToLast, List.dropLast_concat, List.getLast?_concat, Option.getD_some,
    normal_append_names init fun c member => by rw [List.mem_singleton.1 member]; exact name_append_bc x]

theorem writeModuleBitcodeToFile_entries_of_last (fs : FileSystem) (M : Module) (init : List String)
    (x : String) (q : List String) (last : q.getLast? ≠ some (x ++ ".bc")) :
    (writeModuleBitcodeToFile fs M (appendToLast (init ++ [x]) ".bc")).entries q = fs.entries q :=
  writeModuleBitcodeToFile_entries fs M fun same => last (by rw [same, normal_appendToLast,
    List.getLast?_concat])

theorem append_bc_ne_self (x : String) : x ++ ".bc" ≠ x := fun same => by
  have long := congrArg String.length same
  rw [length_append_bc] at long
  omega

theorem append_bc_ne_src {x : String} (named : Name x) : x ++ ".bc" ≠ "src" := fun same => by
  have long := congrArg String.length same
  rw [length_append_bc, show "src".length = 3 from rfl] at long
  exact named.1 (String.ext (List.eq_nil_of_length_eq_zero (by change x.length = 0; omega)))

theorem append_bc_ne_copySrcRoot (x : String) : x ++ ".bc" ≠ "copy_src_root" := fun same => by
  have last := congrArg (·.data.getLast?) same
  simp only [String.data_append] at last
  rw [List.getLast?_append_of_ne_nil _ (by decide)] at last
  exact absurd last (by decide)

/-! ## What a compile keeps -/

/-- What a later file system keeps of an earlier one. -/
def Keeps (fs fs' : FileSystem) : Prop :=
  ∀ p e, fs.entries p = some e →
    fs'.entries p = some e ∨ p = copySrcRoot ∧ ∃ c c', e = .file c ∧ fs'.entries p = some (.file c')

theorem Keeps.refl (fs : FileSystem) : Keeps fs fs := fun _ _ found => .inl found

theorem FileSystem.Extends.keeps {fs fs' : FileSystem} (grows : fs.Extends fs') : Keeps fs fs' :=
  fun p e found => .inl (grows p e found)

theorem Keeps.trans {a b c : FileSystem} (ab : Keeps a b) (bc : Keeps b c) : Keeps a c := by
  intro p e found
  rcases ab p e found with kept | ⟨root, c₀, c₁, rfl, rewritten⟩
  · exact bc p e kept
  · rcases bc p _ rewritten with kept | ⟨-, -, c₂, -, rewritten'⟩
    · exact .inr ⟨root, c₀, c₁, rfl, kept⟩
    · exact .inr ⟨root, c₀, c₂, rfl, rewritten'⟩

theorem normal_copySrcRoot : normal copySrcRoot = copySrcRoot := rfl

theorem writeFile_keeps (fs : FileSystem) (content : String) :
    Keeps fs (fs.writeFile copySrcRoot content) := by
  unfold FileSystem.writeFile
  rw [normal_copySrcRoot]
  cases written : fs.write copySrcRoot content with
  | none => exact .refl fs
  | some fs' => exact FileSystem.write_keeps written

theorem writeToOut_extends (env : Env) (fs : FileSystem) (M : Module) (projectPath : List String) :
    fs.Extends (writeToOut env fs M projectPath).1 := by
  unfold writeToOut
  dsimp only
  split
  · exact .refl fs
  · rename_i made
    exact (FileSystem.createDirectories_extends made).trans (writeModuleBitcodeToFile_extends _ _ _)

theorem copyToGuess_extends (fs : FileSystem) (M : Module) (srcFilePath root : List String) :
    fs.Extends (copyToGuess fs M srcFilePath root).1 := by
  unfold copyToGuess
  dsimp only
  split
  · exact .refl fs
  · rename_i made
    split
    · exact FileSystem.createDirectories_extends made
    · rename_i copied
      exact (FileSystem.createDirectories_extends made).trans
        ((FileSystem.copy_extends copied).trans (writeModuleBitcodeToFile_extends _ _ _))

theorem searchCopiedSource_keeps (fs : FileSystem) (M : Module) (srcFilePath : List String) :
    Keeps fs (searchCopiedSource fs M srcFilePath).1 := by
  unfold searchCopiedSource
  split
  · exact (writeModuleBitcodeToFile_extends _ _ _).keeps.trans (writeFile_keeps _ _)
  · split
    · exact (copyToGuess_extends _ _ _ _).keeps
    · exact .refl fs

theorem fallback_keeps (env : Env) (fs : FileSystem) (M : Module) : Keeps fs (fallback env fs M).1 := by
  unfold fallback
  split
  · exact .refl fs
  · split
    · exact .refl fs
    · dsimp only
      split
      · exact (writeModuleBitcodeToFile_extends _ _ _).keeps
      · exact (writeModuleBitcodeToFile_extends _ _ _).keeps.trans (searchCopiedSource_keeps _ _ _)

theorem run_keeps (env : Env) (fs : FileSystem) (M : Module) : Keeps fs (run env fs M).1 := by
  unfold run
  split
  · exact fallback_keeps env fs M
  · split
    · exact .refl fs
    · split
      · exact (writeToOut_extends env fs M _).keeps
      · exact fallback_keeps env fs M

/-- The file systems a build leaves, compile after compile, short of undefined behaviour. -/
inductive Reachable (fs : FileSystem) : FileSystem → Prop
  | start : Reachable fs fs
  | compile {fs' : FileSystem} (env : Env) (M : Module) : Reachable fs fs' →
      (run env fs' M).2 ≠ .undefined → Reachable fs (run env fs' M).1

theorem build_keeps {fs fs' : FileSystem} (reachable : Reachable fs fs') : Keeps fs fs' := by
  induction reachable with
  | start => exact .refl fs
  | compile env M _ _ kept => exact kept.trans (run_keeps env _ M)

/-- A checkout at `/work/proj` holding `app.c`, where `/tmp/copy_src_root` records `/work`. -/
def checkout : FileSystem :=
  ((((FileSystem.empty.mkdir ["work"]).bind (·.mkdir ["work", "proj"])).bind
    (·.write ["work", "proj", "app.c"] "int main;")).bind (·.mkdir ["tmp"])).bind
    (·.write copySrcRoot "/work") |>.getD .empty

/-- A process in `/work`, with `OUT` unset. -/
def workEnv : Env := ⟨none, ["work"], fun _ => "0cc175b9c0f1b6a831c399e269772661"⟩

/-- The module of `proj/app.c`. -/
def app : Module := ⟨"proj/app.c", "BC"⟩

theorem build_keeps_compile : Reachable checkout (run workEnv checkout app).1 ∧
    Keeps checkout (run workEnv checkout app).1 :=
  ⟨.compile workEnv app .start (by decide), build_keeps (.compile workEnv app .start (by decide))⟩

/-! ## The bitcode under `OUT` -/

theorem calculateMD5_of_file {env : Env} {fs : FileSystem} {filePath content : String}
    (source : (absolute env.cwd filePath).bind fs.lookup = some (.file content)) :
    calculateMD5 env fs filePath = env.md5 content := by
  simp [calculateMD5, source]

theorem FileSystem.Extends.bind_lookup {fs fs' : FileSystem} (grows : fs.Extends fs')
    {path : Option (List String)} {e : Entry} (found : path.bind fs.lookup = some e) :
    path.bind fs'.lookup = some e := by
  obtain ⟨p, rfl, found⟩ := Option.bind_eq_some.1 found
  exact grows.lookup found

theorem writeToOut_writeToOut (env : Env) (fs : FileSystem) (M₁ M₂ : Module)
    (projectPath : List String) {content : String}
    (source₁ : (absolute env.cwd M₁.sourceFileName).bind fs.lookup = some (.file content))
    (source₂ : (absolute env.cwd M₂.sourceFileName).bind fs.lookup = some (.file content)) :
    writeToOut env (writeToOut env fs M₁ projectPath).1 M₂ projectPath =
      writeToOut env fs M₁ projectPath := by
  cases made : fs.createDirectories (projectPath ++ [bitcodeFolder]) with
  | none => simp [writeToOut, made]
  | some fsA =>
      have growsA := FileSystem.createDirectories_extends made
      have dirA : fsA.entries (normal (projectPath ++ [bitcodeFolder])) = some .dir := by
        simpa using FileSystem.createDirectoriesFrom_dir made fs.root
      have first : writeToOut env fs M₁ projectPath = (writeModuleBitcodeToFile fsA M₁
          (projectPath ++ [bitcodeFolder] ++ [env.md5 content ++ ".bc"]), .done) := by
        simp [writeToOut, made, calculateMD5_of_file (growsA.bind_lookup source₁)]
      have normalTarget : normal (projectPath ++ [bitcodeFolder] ++ [env.md5 content ++ ".bc"]) =
          normal (projectPath ++ [bitcodeFolder]) ++ [env.md5 content ++ ".bc"] :=
        normal_append_names _ fun c member => by
          rw [List.mem_singleton.1 member]
          exact name_append_bc _
      have written := writeModuleBitcodeToFile_fileExists fsA M₁
        (projectPath ++ [bitcodeFolder] ++ [env.md5 content ++ ".bc"]) (by rw [normalTarget]; simp)
        (by rw [normalTarget, List.dropLast_concat]; exact dirA)
      have grows₁ := writeModuleBitcodeToFile_extends fsA M₁
        (projectPath ++ [bitcodeFolder] ++ [env.md5 content ++ ".bc"])
      rw [first]
      generalize writeModuleBitcodeToFile fsA M₁ _ = fs₁ at written grows₁ ⊢
      have again : fs₁.createDirectories (projectPath ++ [bitcodeFolder]) = some fs₁ :=
        FileSystem.createDirectoriesFrom_of_dir _ (by simpa using grows₁ _ _ dirA)
      have digest := calculateMD5_of_file ((growsA.trans grows₁).bind_lookup source₂)
      simp only [writeToOut, again, digest]
      rw [writeModuleBitcodeToFile, if_pos written]

theorem run_of_same_source (env : Env) (fs : FileSystem) (M₁ M₂ : Module) (out content : String)
    (projectPath : List String) (named : env.out = some out)
    (resolved : absolute env.cwd out = some projectPath) (present : fs.fileExists projectPath = true)
    (source₁ : (absolute env.cwd M₁.sourceFileName).bind fs.lookup = some (.file content))
    (source₂ : (absolute env.cwd M₂.sourceFileName).bind fs.lookup = some (.file content)) :
    run env (run env fs M₁).1 M₂ = run env fs M₁ := by
  have toOut : ∀ fs', fs.Extends fs' → ∀ M, run env fs' M = writeToOut env fs' M projectPath :=
    fun fs' grows M => by simp [run, named, resolved, grows.fileExists present]
  rw [toOut fs (.refl fs), toOut _ (writeToOut_extends env fs M₁ projectPath)]
  exact writeToOut_writeToOut env fs M₁ M₂ projectPath source₁ source₂

/-- `/out` and two sources of the same bytes in `/work`. -/
def twoCopies : FileSystem :=
  ((((FileSystem.empty.mkdir ["out"]).bind (·.mkdir ["work"])).bind
    (·.write ["work", "a.c"] "int x;")).bind (·.write ["work", "b.c"] "int x;")) |>.getD .empty

/-- A process in `/work` with `OUT=/out`. -/
def outEnv : Env := ⟨some "/out", ["work"], fun _ => "0cc175b9c0f1b6a831c399e269772661"⟩

theorem run_of_same_source_copies : outEnv.out = some "/out" ∧
    absolute outEnv.cwd "/out" = some ["out"] ∧ twoCopies.fileExists ["out"] = true ∧
    (absolute outEnv.cwd "/work/a.c").bind twoCopies.lookup = some (.file "int x;") ∧
    (absolute outEnv.cwd "/work/b.c").bind twoCopies.lookup = some (.file "int x;") ∧
    run outEnv (run outEnv twoCopies ⟨"/work/a.c", "BC-a"⟩).1 ⟨"/work/b.c", "BC-b"⟩ =
      run outEnv twoCopies ⟨"/work/a.c", "BC-a"⟩ :=
  ⟨rfl, by decide, by decide, by decide, by decide,
    run_of_same_source outEnv twoCopies ⟨"/work/a.c", "BC-a"⟩ ⟨"/work/b.c", "BC-b"⟩ "/out" "int x;"
      ["out"] rfl (by decide) (by decide) (by decide) (by decide)⟩

/-! ## The fallback -/

/-- `run` takes its fallback: `OUT` is unset, or names a path that does not exist. -/
def FallsBack (env : Env) (fs : FileSystem) : Prop :=
  ∀ out, env.out = some out →
    ∃ projectPath, absolute env.cwd out = some projectPath ∧ fs.fileExists projectPath = false

theorem run_of_fallsBack {env : Env} {fs : FileSystem} (fallsBack : FallsBack env fs) (M : Module) :
    run env fs M = fallback env fs M := by
  unfold run
  split
  · rfl
  · rename_i out named
    obtain ⟨projectPath, resolved, absent⟩ := fallsBack out named
    simp [resolved, absent]

theorem fallback_eq (env : Env) (fs : FileSystem) (M : Module) {srcFilePath : List String}
    (resolved : absolute env.cwd M.sourceFileName = some srcFilePath)
    (valid : pathExtension srcFilePath ∈ validExtensions) (outside : srcFilePath.head? ≠ some "src") :
    fallback env fs M =
      searchCopiedSource (writeModuleBitcodeToFile fs M (appendToLast srcFilePath ".bc")) M srcFilePath := by
  obtain ⟨init, x, rfl, -⟩ := pathExtension_valid valid
  have short : ¬((init ++ [x]).length + 1 < 2 ∨ (init ++ [x]).head? = some "src") := by
    simp only [List.length_append, List.length_singleton, not_or]
    exact ⟨by omega, outside⟩
  rw [fallback, resolved]
  dsimp only
  rw [if_neg (not_not.2 valid), if_neg short]

theorem getLast_normal_srcTestPath (init : List String) {x : String} (named : Name x)
    (root : List String) : (normal (srcTestPath (init ++ [x]) root)).getLast? ≠ some (x ++ ".bc") := by
  obtain ⟨pre, t, eq, short, suffix⟩ := normal_srcTestPath (init ++ [x]) root
  rw [eq]
  by_cases empty : t = []
  · subst empty
    rcases short with rfl | rfl
    · simp
    · simpa using (append_bc_ne_src named).symm
  · rw [normal_append_names init fun c member => by rwa [List.mem_singleton.1 member]] at suffix
    obtain ⟨v, ends⟩ := suffix
    have last : t.getLast? = some x := by
      rw [← List.getLast?_append_of_ne_nil v empty, ends, List.getLast?_concat]
    rw [List.getLast?_append_of_ne_nil pre empty, last]
    simpa using (append_bc_ne_self x).symm

theorem findCopiedRoot_eq_none (fs : FileSystem) (M : Module) (init : List String) {x : String}
    (named : Name x) (noCandidate : ∀ root ∈ (init ++ [x]).dropLast.inits,
      fs.fileExists (srcTestPath (init ++ [x]) root) = false) :
    findCopiedRoot (writeModuleBitcodeToFile fs M (appendToLast (init ++ [x]) ".bc")) (init ++ [x]) =
      none := by
  refine List.find?_eq_none.2 fun root member => ?_
  simp only [FileSystem.fileExists, FileSystem.lookup,
    writeModuleBitcodeToFile_entries_of_last fs M init x _ (getLast_normal_srcTestPath init named root)]
  simpa [FileSystem.fileExists, FileSystem.lookup] using noCandidate root member

theorem readFile_writeModuleBitcodeToFile (fs : FileSystem) (M : Module) (init : List String)
    (x : String) :
    (writeModuleBitcodeToFile fs M (appendToLast (init ++ [x]) ".bc")).readFile copySrcRoot =
      fs.readFile copySrcRoot := by
  unfold FileSystem.readFile FileSystem.lookup
  rw [normal_copySrcRoot, writeModuleBitcodeToFile_entries_of_last fs M init x _
    (by simpa [copySrcRoot] using (append_bc_ne_copySrcRoot x).symm)]

theorem guessRoot_of_recorded {fs : FileSystem} (srcPath : List String)
    (recorded : fs.readFile copySrcRoot ≠ "") : guessRoot fs srcPath = .ok srcPath := by
  simp only [guessRoot, recorded, if_false, relative, lexicallyRelative_self]
  rfl

theorem guessRoot_of_empty {fs : FileSystem} (srcPath : List String)
    (empty : fs.readFile copySrcRoot = "") :
    guessRoot fs srcPath = if "src" ∈ srcPath then .error .undefined else .error .done := by
  simp [guessRoot, empty]

theorem copyToGuess_dropLast (fs : FileSystem) (M : Module) (init : List String) {x content : String}
    (named : Name x) (source : fs.lookup (init ++ [x]) = some (.file content))
    (srcNotFile : ∀ c, fs.entries ["src"] ≠ some (.file c)) (absent : fs.entries ["src", x] = none) :
    (copyToGuess fs M (init ++ [x]) init).2 = .done ∧
      (copyToGuess fs M (init ++ [x]) init).1.entries ["src", x] = some (.file content) := by
  obtain ⟨fsB, made, srcDir⟩ : ∃ fsB, fs.createDirectories ["src"] = some fsB ∧
      fsB.entries ["src"] = some .dir := by
    cases srcEntry : fs.entries ["src"] with
    | none =>
        obtain ⟨fsB, madeDir⟩ := fs.mkdir_of_fresh (q := ["src"]) (by simp) fs.root srcEntry
        exact ⟨fsB, by simp [FileSystem.createDirectories, FileSystem.createDirectoriesFrom, normal,
          pushComponent, srcEntry, madeDir], by simp [FileSystem.mkdir_entries madeDir]⟩
    | some e =>
        cases e with
        | dir => exact ⟨fs, FileSystem.createDirectoriesFrom_of_dir fs srcEntry, srcEntry⟩
        | file c => exact absurd srcEntry (srcNotFile c)
  have grows := FileSystem.createDirectories_extends made
  have absentB : fsB.entries ["src", x] = none :=
    FileSystem.createDirectoriesFrom_fresh made absent (by simp [normal, pushComponent])
  obtain ⟨fsC, written⟩ := fsB.write_of_fresh content (q := ["src", x]) (by simp) srcDir absentB
  have sourceB : fsB.lookup (init ++ [x]) = some (.file content) := grows.lookup source
  have copied : fsB.copy (init ++ [x]) ["src", x] = some fsC := by
    simp only [FileSystem.copy, sourceB]
    simp [FileSystem.lookup, FileSystem.fileExists, normal_src_name named, absentB, written]
  have guess : srcTestPath (init ++ [x]) init = ["src", x] := by
    rw [srcTestPath, relative_dropLast init named]
  unfold copyToGuess
  simp only [guess, List.dropLast, made, copied, true_and]
  exact (writeModuleBitcodeToFile_entries_of_last fsC M ["src"] x _
    (by simpa using (append_bc_ne_self x).symm)).trans (by simp [FileSystem.write_entries written])

theorem run_copies_to_src (env : Env) (fs : FileSystem) (M : Module) (srcFilePath : List String)
    (content : String) (fallsBack : FallsBack env fs)
    (resolved : absolute env.cwd M.sourceFileName = some srcFilePath)
    (valid : pathExtension srcFilePath ∈ validExtensions) (outside : srcFilePath.head? ≠ some "src")
    (noCandidate : ∀ root ∈ srcFilePath.dropLast.inits,
      fs.fileExists (srcTestPath srcFilePath root) = false)
    (recorded : fs.readFile copySrcRoot ≠ "") (source : fs.lookup srcFilePath = some (.file content))
    (srcNotFile : ∀ c, fs.entries ["src"] ≠ some (.file c)) :
    (run env fs M).2 = .done ∧
      (run env fs M).1.entries ["src", srcFilePath.getLast?.getD ""] = some (.file content) := by
  obtain ⟨init, x, rfl, named⟩ := pathExtension_valid valid
  have unchanged := writeModuleBitcodeToFile_entries_of_last fs M init x
  have absent : fs.entries ["src", x] = none := by
    have none := noCandidate init (by simp [List.mem_inits])
    rw [srcTestPath, relative_dropLast init named] at none
    simpa [FileSystem.fileExists, FileSystem.lookup, normal_src_name named] using none
  have recorded₁ : (writeModuleBitcodeToFile fs M (appendToLast (init ++ [x]) ".bc")).readFile
      copySrcRoot ≠ "" := by
    rwa [readFile_writeModuleBitcodeToFile]
  rw [run_of_fallsBack fallsBack, fallback_eq env fs M resolved valid outside, searchCopiedSource,
    findCopiedRoot_eq_none fs M init named noCandidate]
  dsimp only
  rw [List.dropLast_concat, guessRoot_of_recorded init recorded₁, List.getLast?_concat, Option.getD_some]
  exact copyToGuess_dropLast _ M init named ((writeModuleBitcodeToFile_extends fs M _).lookup source)
    (fun c => by rw [unchanged ["src"] (by simpa using (append_bc_ne_src named).symm)]; exact srcNotFile c)
    (by rw [unchanged ["src", x] (by simpa using (append_bc_ne_self x).symm)]; exact absent)

theorem workEnv_fallsBack : FallsBack workEnv checkout := fun _ named => nomatch named

theorem checkout_src : ∀ c, checkout.entries ["src"] ≠ some (.file c) := by
  have none : checkout.entries ["src"] = none := by decide
  simp [none]

theorem run_copies_to_src_app : FallsBack workEnv checkout ∧
    absolute workEnv.cwd app.sourceFileName = some ["work", "proj", "app.c"] ∧
    pathExtension ["work", "proj", "app.c"] ∈ validExtensions ∧
    ["work", "proj", "app.c"].head? ≠ some "src" ∧
    (∀ root ∈ ["work", "proj", "app.c"].dropLast.inits,
      checkout.fileExists (srcTestPath ["work", "proj", "app.c"] root) = false) ∧
    checkout.readFile copySrcRoot ≠ "" ∧
    checkout.lookup ["work", "proj", "app.c"] = some (.file "int main;") ∧
    (∀ c, checkout.entries ["src"] ≠ some (.file c)) ∧
    ((run workEnv checkout app).2 = .done ∧
      (run workEnv checkout app).1.entries ["src", ["work", "proj", "app.c"].getLast?.getD ""] =
        some (.file "int main;")) :=
  ⟨workEnv_fallsBack, by decide, by decide, by decide, by decide, by decide, by decide, checkout_src,
    run_copies_to_src workEnv checkout app ["work", "proj", "app.c"] "int main;" workEnv_fallsBack
      (by decide) (by decide) (by decide) (by decide) (by decide) (by decide) checkout_src⟩

theorem run_of_empty_copySrcRoot (env : Env) (fs : FileSystem) (M : Module)
    (srcFilePath : List String) (fallsBack : FallsBack env fs)
    (resolved : absolute env.cwd M.sourceFileName = some srcFilePath)
    (valid : pathExtension srcFilePath ∈ validExtensions) (outside : srcFilePath.head? ≠ some "src")
    (noCandidate : ∀ root ∈ srcFilePath.dropLast.inits,
      fs.fileExists (srcTestPath srcFilePath root) = false)
    (empty : fs.readFile copySrcRoot = "") :
    run env fs M = (writeModuleBitcodeToFile fs M (appendToLast srcFilePath ".bc"),
      if "src" ∈ srcFilePath.dropLast then .undefined else .done) := by
  obtain ⟨init, x, rfl, named⟩ := pathExtension_valid valid
  have empty₁ : (writeModuleBitcodeToFile fs M (appendToLast (init ++ [x]) ".bc")).readFile
      copySrcRoot = "" := by
    rwa [readFile_writeModuleBitcodeToFile]
  rw [run_of_fallsBack fallsBack, fallback_eq env fs M resolved valid outside, searchCopiedSource,
    findCopiedRoot_eq_none fs M init named noCandidate]
  dsimp only
  rw [guessRoot_of_empty _ empty₁]
  by_cases src : "src" ∈ (init ++ [x]).dropLast
  · simp only [src, if_true]
  · simp only [src, if_false]

/-- A source `app.c` in `/home/src`, and no `/tmp/copy_src_root`. -/
def homeSrc : FileSystem :=
  (((FileSystem.empty.mkdir ["home"]).bind (·.mkdir ["home", "src"])).bind
    (·.write ["home", "src", "app.c"] "int main;")) |>.getD .empty

/-- A process in `/home/src`, with `OUT` unset. -/
def homeEnv : Env := ⟨none, ["home", "src"], fun _ => "0cc175b9c0f1b6a831c399e269772661"⟩

theorem run_of_empty_copySrcRoot_home : FallsBack homeEnv homeSrc ∧
    absolute homeEnv.cwd "app.c" = some ["home", "src", "app.c"] ∧
    pathExtension ["home", "src", "app.c"] ∈ validExtensions ∧
    ["home", "src", "app.c"].head? ≠ some "src" ∧
    (∀ root ∈ ["home", "src", "app.c"].dropLast.inits,
      homeSrc.fileExists (srcTestPath ["home", "src", "app.c"] root) = false) ∧
    homeSrc.readFile copySrcRoot = "" ∧
    run homeEnv homeSrc ⟨"app.c", "BC"⟩ =
      (writeModuleBitcodeToFile homeSrc ⟨"app.c", "BC"⟩ (appendToLast ["home", "src", "app.c"] ".bc"),
        if "src" ∈ ["home", "src", "app.c"].dropLast then .undefined else .done) :=
  ⟨(fun _ named => nomatch named), by decide, by decide, by decide, by decide, by decide,
    run_of_empty_copySrcRoot homeEnv homeSrc ⟨"app.c", "BC"⟩ ["home", "src", "app.c"]
      (fun _ named => nomatch named) (by decide) (by decide) (by decide) (by decide) (by decide)⟩

end SliceAnalyzer.WriteBitcode
