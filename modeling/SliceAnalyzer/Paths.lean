import Mathlib.Data.List.Basic

/-!
# Path normalisation

`Slicing::normalizePath` and `CallGraphPass::normalizePath`, which have the same body.
-/

namespace SliceAnalyzer

/-- The segments `std::getline(ss, component, '/')` reads from `path`. -/
def getlineSegments (path : String) : List String :=
  let parts := (path.toList.splitOn '/').map String.mk
  if parts.getLast? = some "" then parts.dropLast else parts

/-- One segment of the loop of `normalizePath`. -/
def pushComponent (components : List String) (component : String) : List String :=
  if component = ".." then components.dropLast
  else if component ≠ "." ∧ component ≠ "" then components ++ [component]
  else components

/-- `Slicing::normalizePath(pathStr)`. -/
def normalizePath (pathStr : String) : String :=
  let components := (getlineSegments pathStr).foldl pushComponent []
  let normalizedPath := String.join (components.map (· ++ "/"))
  let normalizedPath :=
    if pathStr.toList.head? = some '/' then "/" ++ normalizedPath else normalizedPath
  String.mk (normalizedPath.toList.take (normalizedPath.length - 1))

example : normalizePath "/home/user/../docs/./file.txt" = "/home/docs/file.txt" := by decide

example : normalizePath "/usr//local/./bin/" = "/usr/local/bin" := by decide

/-- `CallGraphPass::normalizePath(pathStr)`, whose body is that of `Slicing::normalizePath`. -/
def CallGraphPass.normalizePath (pathStr : String) : String := SliceAnalyzer.normalizePath pathStr

/-- `file.find("..") != std::string::npos`. -/
def hasDotDot : List Char → Bool
  | '.' :: '.' :: _ => true
  | _ :: rest => hasDotDot rest
  | [] => false

example : getlineSegments "/a//b/" = ["", "a", "", "b"] := by decide

/-- The components `normalizePath` keeps of `pathStr`. -/
def pathComponents (pathStr : String) : List String :=
  (getlineSegments pathStr).foldl pushComponent []

/-- A component `normalizePath` keeps: nonempty, without `/`, and neither `.` nor `..`. -/
def NormalComponent (c : String) : Prop :=
  c.data ≠ [] ∧ '/' ∉ c.data ∧ c ≠ "." ∧ c ≠ ".."

/-- The components joined by `/`, after a `/` when `absolute`. -/
def joinPath (absolute : Bool) (components : List String) : String :=
  ⟨if components = [] then [] else
    (if absolute then ['/'] else []) ++ ['/'].intercalate (components.map String.data)⟩

/-! ## Splitting and joining -/

theorem not_mem_of_mem_splitOn {α : Type} [DecidableEq α] (a : α) :
    ∀ (xs : List α), ∀ piece ∈ xs.splitOn a, a ∉ piece
  | [] => by simp
  | x :: xs => by
      have rest := not_mem_of_mem_splitOn a xs
      simp only [List.splitOn, List.splitOnP_cons] at rest ⊢
      split
      · rintro piece (_ | ⟨_, member⟩)
        · exact List.not_mem_nil a
        · exact rest piece member
      · rename_i other
        obtain ⟨first, pieces, split⟩ := List.exists_cons_of_ne_nil (List.splitOnP_ne_nil _ xs)
        rw [split] at rest ⊢
        rintro piece (_ | ⟨_, member⟩)
        · rintro (_ | ⟨_, inFirst⟩)
          · exact other (beq_self_eq_true a)
          · exact rest first (.head _) inFirst
        · exact rest piece (.tail _ member)

theorem getlineSegments_no_slash (path : String) : ∀ seg ∈ getlineSegments path, '/' ∉ seg.data := by
  have pieces : ∀ seg ∈ (path.toList.splitOn '/').map String.mk, '/' ∉ seg.data := by
    simp only [List.mem_map]
    rintro _ ⟨piece, member, rfl⟩
    exact not_mem_of_mem_splitOn '/' _ piece member
  unfold getlineSegments
  dsimp only
  split
  · exact fun seg member => pieces seg (List.dropLast_subset _ member)
  · exact pieces

theorem data_foldl_append (strings : List String) (acc : String) :
    (strings.foldl (· ++ ·) acc).data = acc.data ++ (strings.map String.data).flatten := by
  induction strings generalizing acc with
  | nil => simp
  | cons s strings ih => simp [ih]

theorem flatten_map_append_sep {α : Type} (sep : α) :
    ∀ parts : List (List α), parts ≠ [] →
      (parts.map (· ++ [sep])).flatten = [sep].intercalate parts ++ [sep]
  | [], absurd => (absurd rfl).elim
  | [part], _ => by simp [List.intercalate]
  | part :: next :: parts, _ => by
      rw [List.map_cons, List.flatten_cons, flatten_map_append_sep sep (next :: parts)
        (List.cons_ne_nil _ _)]
      simp [List.intercalate, List.intersperse_cons_cons]

/-! ## The components -/

theorem pushComponent_normal {components : List String} {component : String}
    (normal : ∀ c ∈ components, NormalComponent c) (noSlash : '/' ∉ component.data) :
    ∀ c ∈ pushComponent components component, NormalComponent c := by
  unfold pushComponent
  split
  · exact fun c member => normal c (List.dropLast_subset _ member)
  · split
    · rename_i dotDot pushed
      intro c member
      rcases List.mem_append.1 member with old | new
      · exact normal c old
      · rw [List.mem_singleton.1 new]
        exact ⟨fun empty => pushed.2 (String.ext empty), noSlash, pushed.1, dotDot⟩
    · exact normal

theorem foldl_pushComponent_normal : ∀ (segments : List String) (components : List String),
    (∀ c ∈ components, NormalComponent c) → (∀ seg ∈ segments, '/' ∉ seg.data) →
      ∀ c ∈ segments.foldl pushComponent components, NormalComponent c
  | [], _, normal, _ => normal
  | seg :: segments, _, normal, noSlash =>
      foldl_pushComponent_normal segments _ (pushComponent_normal normal (noSlash seg (.head _)))
        fun other member => noSlash other (.tail _ member)

theorem pathComponents_normal (pathStr : String) :
    ∀ c ∈ pathComponents pathStr, NormalComponent c :=
  foldl_pushComponent_normal _ [] (fun _ absurd => (List.not_mem_nil _ absurd).elim)
    (getlineSegments_no_slash pathStr)

theorem foldl_pushComponent_of_normal : ∀ (components acc : List String),
    (∀ c ∈ components, NormalComponent c) → components.foldl pushComponent acc = acc ++ components
  | [], acc, _ => by simp
  | c :: components, acc, normal => by
      obtain ⟨nonempty, -, notDot, notDotDot⟩ := normal c (.head _)
      have notEmpty : c ≠ "" := fun empty => nonempty (by rw [empty])
      have pushed : pushComponent acc c = acc ++ [c] := by
        simp [pushComponent, notDotDot, notDot, notEmpty]
      rw [List.foldl_cons, pushed, foldl_pushComponent_of_normal components _
        fun other member => normal other (.tail _ member)]
      simp

/-! ## The result -/

theorem normalizePath_eq (pathStr : String) :
    normalizePath pathStr =
      joinPath (pathStr.data.head? == some '/') (pathComponents pathStr) := by
  apply String.ext
  have joined : (String.join ((pathComponents pathStr).map (· ++ "/"))).data =
      ((pathComponents pathStr).map fun c => c.data ++ ['/']).flatten := by
    simp [String.join, data_foldl_append, Function.comp_def]
  simp only [normalizePath, joinPath, String.toList, String.length,
    show (getlineSegments pathStr).foldl pushComponent [] = pathComponents pathStr from rfl]
  rw [← List.dropLast_eq_take]
  cases components : pathComponents pathStr with
  | nil => split <;> simp [String.join]
  | cons c cs =>
      have sep := flatten_map_append_sep '/' ((c :: cs).map String.data) (List.cons_ne_nil _ _)
      rw [List.map_map] at sep
      have whole : (String.join ((c :: cs).map (· ++ "/"))).data =
          ['/'].intercalate ((c :: cs).map String.data) ++ ['/'] := by
        rw [components] at joined
        rw [joined, ← sep]
        rfl
      split <;> simp only [String.data_append, whole, ← List.append_assoc, List.dropLast_concat] <;>
        simp [*]

theorem getlineSegments_joinPath {components : List String} (nonempty : components ≠ [])
    (normal : ∀ c ∈ components, NormalComponent c) (absolute : Bool) :
    getlineSegments (joinPath absolute components) =
      (if absolute then [""] else []) ++ components := by
  have split : (['/'].intercalate (components.map String.data)).splitOn '/' =
      components.map String.data :=
    List.splitOn_intercalate _ '/' (by simpa using fun c member => (normal c member).2.1)
      (by simpa using nonempty)
  have parts : ((joinPath absolute components).toList.splitOn '/').map String.mk =
      (if absolute then [""] else []) ++ components := by
    cases absolute
    · simp [joinPath, nonempty, String.toList, split, Function.comp_def]
    · simp only [List.splitOn, List.splitOnP_cons, beq_self_eq_true, if_true] at split
      simp [joinPath, nonempty, String.toList, List.splitOn, split, Function.comp_def]
  obtain ⟨init, c, rfl⟩ := (List.eq_nil_or_concat components).resolve_left nonempty
  have lastNormal : c ≠ "" := fun same => (normal c (by simp)).1 (by rw [same])
  unfold getlineSegments
  simp only [parts]
  rw [if_neg (by simp [lastNormal])]

theorem pathComponents_joinPath {components : List String}
    (normal : ∀ c ∈ components, NormalComponent c) (absolute : Bool) :
    pathComponents (joinPath absolute components) = components := by
  by_cases nonempty : components = []
  · subst nonempty
    cases absolute <;> rfl
  · rw [pathComponents, getlineSegments_joinPath nonempty normal]
    cases absolute
    · simpa using foldl_pushComponent_of_normal components [] normal
    · simpa [pushComponent] using foldl_pushComponent_of_normal components [] normal

theorem head_joinPath {components : List String} (normal : ∀ c ∈ components, NormalComponent c)
    (absolute : Bool) :
    (joinPath absolute components).data.head? = some '/' ↔ absolute ∧ components ≠ [] := by
  cases components with
  | nil => simp [joinPath]
  | cons c cs =>
      obtain ⟨nonempty, noSlash, -, -⟩ := normal c (.head _)
      obtain ⟨first, rest, data⟩ := List.exists_cons_of_ne_nil nonempty
      cases absolute
      · have : first ≠ '/' := fun same => noSlash (by simp [data, same])
        cases cs <;> simp [joinPath, List.intercalate, List.intersperse_cons_cons, data, this]
      · simp [joinPath]

theorem normalizePath_joinPath {components : List String}
    (normal : ∀ c ∈ components, NormalComponent c) (absolute : Bool) :
    normalizePath (joinPath absolute components) = joinPath absolute components := by
  rw [normalizePath_eq, pathComponents_joinPath normal]
  by_cases nonempty : components = []
  · simp [joinPath, nonempty]
  · congr 1
    have head := head_joinPath normal absolute
    cases absolute <;> simp_all

theorem normalizePath_idempotent (p : String) :
    normalizePath (normalizePath p) = normalizePath p ∧
      CallGraphPass.normalizePath (CallGraphPass.normalizePath p) = CallGraphPass.normalizePath p := by
  have idem : normalizePath (normalizePath p) = normalizePath p := by
    rw [normalizePath_eq p]
    exact normalizePath_joinPath (pathComponents_normal p) _
  exact ⟨idem, idem⟩

theorem normalizePath_head (pathStr : String) :
    (normalizePath pathStr).data.head? = some '/' ↔
      pathStr.data.head? = some '/' ∧ pathComponents pathStr ≠ [] := by
  rw [normalizePath_eq, head_joinPath (pathComponents_normal pathStr)]
  simp

theorem normalizePath_drops_root :
    "/".data.head? = some '/' ∧ normalizePath "/" = "" ∧ CallGraphPass.normalizePath "/" = "" ∧
      "/a/..".data.head? = some '/' ∧ normalizePath "/a/.." = "" ∧
        CallGraphPass.normalizePath "/a/.." = "" := by
  decide

end SliceAnalyzer
