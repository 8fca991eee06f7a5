import SliceAnalyzer.WriteBitcode.Path

/-!
# The file system under the bitcode writer

A file system without symbolic links, by its normal paths, and the calls `WriteBitcodePass`
makes; no call removes an entry (`Extends`, `write_keeps`).
-/

namespace SliceAnalyzer.WriteBitcode

/-- What a path names: a directory, or a regular file with its bytes. -/
inductive Entry where
  | dir
  | file (content : String)
  deriving DecidableEq

/-- A file system without symbolic links, by the normal paths of its entries. -/
structure FileSystem where
  entries : List String → Option Entry
  root : entries [] = some .dir
  inDir : ∀ p e, entries p = some e → p ≠ [] → entries p.dropLast = some .dir

namespace FileSystem

def empty : FileSystem where
  entries p := if p = [] then some .dir else none
  root := rfl
  inDir p _ found nonroot := by simp [nonroot] at found

theorem dropLast_ne_self {q : List String} (nonroot : q ≠ []) : q.dropLast ≠ q := fun eq => by
  have shorter := congrArg List.length eq
  have positive : q.length ≠ 0 := by simpa using nonroot
  simp only [List.length_dropLast] at shorter
  omega

/-- `fs` with the entry `e` at the normal path `q`. -/
def put (fs : FileSystem) (q : List String) (e : Entry) (nonroot : q ≠ [])
    (inDir : fs.entries q.dropLast = some .dir) (notDir : fs.entries q ≠ some .dir) : FileSystem where
  entries p := if p = q then some e else fs.entries p
  root := by simp [Ne.symm nonroot, fs.root]
  inDir p e' found nonempty := by
    by_cases same : p = q
    · subst same
      simp [dropLast_ne_self nonroot, inDir]
    · simp only [same, if_false] at found
      have parent := fs.inDir p e' found nonempty
      have other : p.dropLast ≠ q := fun eq => notDir (eq ▸ parent)
      simp [other, parent]

@[simp] theorem put_entries (fs : FileSystem) (q : List String) (e : Entry) (nonroot inDir notDir)
    (p : List String) :
    (fs.put q e nonroot inDir notDir).entries p = if p = q then some e else fs.entries p := rfl

/-- `open` with `O_CREAT`, or `std::ofstream`, at the normal path `q`; `none` when it fails. -/
def write (fs : FileSystem) (q : List String) (content : String) : Option FileSystem :=
  if h : q ≠ [] ∧ fs.entries q.dropLast = some .dir ∧ fs.entries q ≠ some .dir then
    some (fs.put q (.file content) h.1 h.2.1 h.2.2)
  else none

/-- `mkdir` at the normal path `q`, when it lies in a directory and nothing is there. -/
def mkdir (fs : FileSystem) (q : List String) : Option FileSystem :=
  if h : q ≠ [] ∧ fs.entries q.dropLast = some .dir ∧ fs.entries q = none then
    some (fs.put q .dir h.1 h.2.1 (by simp [h.2.2]))
  else none

/-- What lies at a path, by its normal form. -/
def lookup (fs : FileSystem) (p : List String) : Option Entry := fs.entries (normal p)

/-- `exists(p)`, of `std::filesystem` and of `llvm::sys::fs`. -/
def fileExists (fs : FileSystem) (p : List String) : Bool := (fs.lookup p).isSome

/-- The walk of `create_directories` down `done ++ rest`, from the directory `done`. -/
def createDirectoriesFrom (fs : FileSystem) (done : List String) : List String → Option FileSystem
  | [] => some fs
  | e :: rest =>
      match fs.entries (done ++ [e]) with
      | some .dir => fs.createDirectoriesFrom (done ++ [e]) rest
      | some (.file _) => none
      | none => (fs.mkdir (done ++ [e])).bind fun fs => fs.createDirectoriesFrom (done ++ [e]) rest

/-- `std::filesystem::create_directories(p)`; `none` when it throws. -/
def createDirectories (fs : FileSystem) (p : List String) : Option FileSystem :=
  fs.createDirectoriesFrom [] (normal p)

/-- `std::filesystem::copy(from, to)` of a regular file; `none` when it throws. -/
def copy (fs : FileSystem) (source target : List String) : Option FileSystem :=
  match fs.lookup source with
  | some (.file content) =>
      let target := if fs.lookup target = some .dir then target ++ [source.getLast?.getD ""] else target
      if fs.fileExists target then none else fs.write (normal target) content
  | _ => none

/-- `readFile(filePath)` of the pass. -/
def readFile (fs : FileSystem) (p : List String) : String :=
  match fs.lookup p with
  | some (.file content) => content
  | _ => ""

/-- `writeFile(filePath, content)` of the pass. -/
def writeFile (fs : FileSystem) (p : List String) (content : String) : FileSystem :=
  (fs.write (normal p) content).getD fs

/-! ## Ancestors -/

theorem dir_of_append (fs : FileSystem) (a : List String) :
    ∀ b : List String, (fs.entries (a ++ b)).isSome → b ≠ [] → fs.entries a = some .dir := by
  intro b
  induction b using List.reverseRecOn with
  | nil => exact fun _ nonempty => (nonempty rfl).elim
  | append_singleton b x ih =>
      intro present _
      obtain ⟨e, found⟩ := Option.isSome_iff_exists.1 present
      have parent := fs.inDir _ e found (by simp)
      rw [← List.append_assoc, List.dropLast_concat] at parent
      by_cases empty : b = []
      · simpa [empty] using parent
      · exact ih (by simp [parent]) empty

/-! ## What each call changes -/

theorem write_entries {fs fs' : FileSystem} {q : List String} {content : String}
    (written : fs.write q content = some fs') (p : List String) :
    fs'.entries p = if p = q then some (.file content) else fs.entries p := by
  unfold write at written
  split at written
  · cases written
    rfl
  · cases written

theorem write_of_fresh (fs : FileSystem) {q : List String} (content : String) (nonroot : q ≠ [])
    (inDir : fs.entries q.dropLast = some .dir) (fresh : fs.entries q = none) :
    ∃ fs', fs.write q content = some fs' := by
  simp [write, nonroot, inDir, fresh]

theorem mkdir_entries {fs fs' : FileSystem} {q : List String} (made : fs.mkdir q = some fs')
    (p : List String) : fs'.entries p = if p = q then some .dir else fs.entries p := by
  unfold mkdir at made
  split at made
  · cases made
    rfl
  · cases made

theorem mkdir_of_fresh (fs : FileSystem) {q : List String} (nonroot : q ≠ [])
    (inDir : fs.entries q.dropLast = some .dir) (fresh : fs.entries q = none) :
    ∃ fs', fs.mkdir q = some fs' := by
  simp [mkdir, nonroot, inDir, fresh]

def Extends (fs fs' : FileSystem) : Prop := ∀ p e, fs.entries p = some e → fs'.entries p = some e

theorem Extends.refl (fs : FileSystem) : Extends fs fs := fun _ _ => id

theorem Extends.trans {a b c : FileSystem} (ab : Extends a b) (bc : Extends b c) : Extends a c :=
  fun p e found => bc p e (ab p e found)

theorem Extends.lookup {fs fs' : FileSystem} (grows : Extends fs fs') {p : List String} {e : Entry}
    (found : fs.lookup p = some e) : fs'.lookup p = some e := grows _ e found

theorem Extends.fileExists {fs fs' : FileSystem} (grows : Extends fs fs') {p : List String}
    (present : fs.fileExists p = true) : fs'.fileExists p = true := by
  obtain ⟨e, found⟩ := Option.isSome_iff_exists.1 present
  simp [FileSystem.fileExists, grows.lookup found]

theorem write_extends {fs fs' : FileSystem} {q : List String} {content : String}
    (fresh : fs.entries q = none) (written : fs.write q content = some fs') : Extends fs fs' := by
  intro p e found
  rw [write_entries written]
  split
  · rename_i same
    rw [same, fresh] at found
    cases found
  · exact found

theorem mkdir_extends {fs fs' : FileSystem} {q : List String} (made : fs.mkdir q = some fs') :
    Extends fs fs' := by
  intro p e found
  rw [mkdir_entries made]
  split
  · rename_i same
    unfold mkdir at made
    split at made
    · rename_i fresh
      rw [same, fresh.2.2] at found
      cases found
    · cases made
  · exact found

theorem createDirectoriesFrom_extends {fs fs' : FileSystem} {done : List String} {rest : List String}
    (made : fs.createDirectoriesFrom done rest = some fs') : Extends fs fs' := by
  induction rest generalizing fs done with
  | nil =>
      cases made
      exact Extends.refl _
  | cons e rest ih =>
      unfold createDirectoriesFrom at made
      split at made
      · exact ih made
      · cases made
      · obtain ⟨fs₁, madeDir, madeRest⟩ := Option.bind_eq_some.1 made
        exact (mkdir_extends madeDir).trans (ih madeRest)

theorem createDirectories_extends {fs fs' : FileSystem} {p : List String}
    (made : fs.createDirectories p = some fs') : Extends fs fs' :=
  createDirectoriesFrom_extends made

theorem createDirectoriesFrom_dir {fs fs' : FileSystem} {done rest : List String}
    (made : fs.createDirectoriesFrom done rest = some fs') (start : fs.entries done = some .dir) :
    fs'.entries (done ++ rest) = some .dir := by
  induction rest generalizing fs done with
  | nil =>
      cases made
      simpa using start
  | cons e rest ih =>
      rw [← List.singleton_append, ← List.append_assoc]
      unfold createDirectoriesFrom at made
      split at made
      · rename_i isDir
        exact ih made isDir
      · cases made
      · obtain ⟨fs₁, madeDir, madeRest⟩ := Option.bind_eq_some.1 made
        exact ih madeRest (by rw [mkdir_entries madeDir]; simp)

theorem createDirectoriesFrom_of_dir (fs : FileSystem) {done rest : List String}
    (isDir : fs.entries (done ++ rest) = some .dir) : fs.createDirectoriesFrom done rest = some fs := by
  induction rest generalizing done with
  | nil => rfl
  | cons e rest ih =>
      have reassoc : done ++ e :: rest = (done ++ [e]) ++ rest := by simp
      rw [reassoc] at isDir
      have above : fs.entries (done ++ [e]) = some .dir := by
        by_cases empty : rest = []
        · simpa [empty] using isDir
        · exact fs.dir_of_append _ rest (by rw [isDir]; rfl) empty
      unfold createDirectoriesFrom
      rw [above]
      exact ih isDir

theorem createDirectoriesFrom_fresh {fs fs' : FileSystem} {done rest : List String}
    (made : fs.createDirectoriesFrom done rest = some fs') {q : List String}
    (fresh : fs.entries q = none) (away : ¬q <+: done ++ rest) : fs'.entries q = none := by
  induction rest generalizing fs done with
  | nil =>
      cases made
      exact fresh
  | cons e rest ih =>
      have away' : ¬q <+: done ++ [e] ++ rest := by simpa using away
      unfold createDirectoriesFrom at made
      split at made
      · exact ih made fresh away'
      · cases made
      · obtain ⟨fs₁, madeDir, madeRest⟩ := Option.bind_eq_some.1 made
        refine ih madeRest ?_ away'
        have other : q ≠ done ++ [e] := fun same => away' (same ▸ List.prefix_append _ _)
        rw [mkdir_entries madeDir, if_neg other, fresh]

theorem copy_extends {fs fs' : FileSystem} {source target : List String}
    (copied : fs.copy source target = some fs') : Extends fs fs' := by
  unfold copy at copied
  split at copied
  · dsimp only at copied
    generalize (if fs.lookup target = some .dir then target ++ [source.getLast?.getD ""] else target) = dest
      at copied
    split at copied
    · cases copied
    · rename_i absent
      exact write_extends (by simpa [FileSystem.fileExists, lookup] using absent) copied
  · cases copied

theorem write_keeps {fs fs' : FileSystem} {q : List String} {content : String}
    (written : fs.write q content = some fs') (p : List String) (e : Entry)
    (found : fs.entries p = some e) :
    fs'.entries p = some e ∨ p = q ∧ ∃ c c', e = .file c ∧ fs'.entries p = some (.file c') := by
  rw [write_entries written]
  split
  · rename_i same
    subst same
    unfold write at written
    split at written
    · rename_i fresh
      cases e with
      | dir => exact absurd found fresh.2.2
      | file c => exact .inr ⟨rfl, c, content, rfl, by simp⟩
    · cases written
  · exact .inl found

end FileSystem

end SliceAnalyzer.WriteBitcode
