import SliceAnalyzer.Paths
import Mathlib.Data.List.Infix

/-!
# Paths in the bitcode writer

`std::filesystem::path` as libstdc++ implements the operations the pass calls, over absolute paths
given by their elements.
-/

namespace SliceAnalyzer.WriteBitcode

/-- The elements of a path string after its root. -/
def pathElements (s : String) : List String :=
  ((s.toList.splitOn '/').map String.mk).filter (· ≠ "")

/-- `is_absolute()` of a path string: it starts with `/`. -/
def isAbsolute (s : String) : Bool := s.toList.head? == some '/'

/-- `std::filesystem::absolute(p)`; libstdc++ throws for the empty path. -/
def absolute (cwd : List String) (s : String) : Option (List String) :=
  if s = "" then none
  else if isAbsolute s then some (pathElements s) else some (cwd ++ pathElements s)

/-- `path(s).filename()`: the last element, and nothing after a trailing `/`. -/
def fileName (s : String) : String :=
  if s.toList.getLast? = some '/' then "" else (pathElements s).getLast?.getD ""

/-- `extension()` of a file name, as libstdc++ finds it. -/
def extension (name : String) : String :=
  let afterDot := (name.toList.reverse.takeWhile (· ≠ '.')).reverse
  if name.length ≤ 2 ∧ name.toList.head? = some '.' then ""
  else if afterDot.length + 1 < name.length then ⟨'.' :: afterDot⟩ else ""

example : extension "pass.cc" = ".cc" ∧ extension ".bashrc" = "" ∧ extension "a.tar.gz" = ".gz" := by
  decide

/-- `extension()` of an absolute path: that of its last element, and none for the root. -/
def pathExtension (p : List String) : String := (p.getLast?.map extension).getD ""

/-- `validExtensions` in `run`. -/
def validExtensions : List String := [".c", ".cc", ".cpp"]

/-- The normal form of an absolute path, without symbolic links. -/
def normal (p : List String) : List String := p.foldl pushComponent []

/-- `a.lexically_relative(b)` of two absolute paths in normal form. -/
def lexicallyRelative : List String → List String → List String
  | x :: a, y :: b => if x = y then lexicallyRelative a b else List.replicate (b.length + 1) ".." ++ x :: a
  | [], [] => ["."]
  | [], b => List.replicate b.length ".."
  | a, [] => a

/-- `std::filesystem::relative(p, base)`. -/
def relative (p base : List String) : List String := lexicallyRelative (normal p) (normal base)

/-- The elements of the string `p.string() + suffix`. -/
def appendToLast (p : List String) (suffix : String) : List String :=
  p.dropLast ++ [p.getLast?.getD "" ++ suffix]

/-- `p.string()` of an absolute path. -/
def pathString (p : List String) : String := "/" ++ "/".intercalate p

/-- The candidate `path("/src") / relative(srcFilePath, root)`. -/
def srcTestPath (srcFilePath root : List String) : List String := "src" :: relative srcFilePath root

/-- An element that normalisation keeps: neither empty, `.` nor `..`. -/
def Name (c : String) : Prop := c ≠ "" ∧ c ≠ "." ∧ c ≠ ".."

/-! ## Normal forms -/

theorem pushComponent_name (acc : List String) {c : String} (named : Name c) :
    pushComponent acc c = acc ++ [c] := by
  simp [pushComponent, named.1, named.2.1, named.2.2]

theorem foldl_pushComponent_names (acc : List String) :
    ∀ {t : List String}, (∀ c ∈ t, Name c) → t.foldl pushComponent acc = acc ++ t
  | [], _ => by simp
  | c :: t, named => by
      rw [List.foldl_cons, pushComponent_name acc (named c (.head _)),
        foldl_pushComponent_names _ fun d member => named d (.tail _ member)]
      simp

theorem normal_append_names (p : List String) {t : List String} (named : ∀ c ∈ t, Name c) :
    normal (p ++ t) = normal p ++ t := by
  rw [normal, List.foldl_append, foldl_pushComponent_names _ named, normal]

theorem pushComponent_names {acc : List String} (named : ∀ c ∈ acc, Name c) (c : String) :
    ∀ d ∈ pushComponent acc c, Name d := by
  unfold pushComponent
  split
  · exact fun d member => named d (List.dropLast_subset _ member)
  · split
    · rename_i dotDot pushed
      intro d member
      rcases List.mem_append.1 member with old | new
      · exact named d old
      · rw [List.mem_singleton.1 new]
        exact ⟨pushed.2, pushed.1, dotDot⟩
    · exact named

theorem normal_names (p : List String) : ∀ c ∈ normal p, Name c := by
  suffices ∀ acc : List String, (∀ c ∈ acc, Name c) → ∀ c ∈ p.foldl pushComponent acc, Name c from
    this [] fun _ absurd => (List.not_mem_nil _ absurd).elim
  induction p with
  | nil => exact fun _ named => named
  | cons c p ih => exact fun acc named => ih _ (pushComponent_names named c)

theorem normal_src_dotDots (k : Nat) : normal ("src" :: List.replicate (k + 1) "..") = [] := by
  induction k with
  | zero => rfl
  | succ k ih =>
      rw [List.replicate_succ', ← List.cons_append, normal, List.foldl_append, ← normal, ih]
      rfl

theorem normal_src_name {x : String} (named : Name x) : normal ["src", x] = ["src", x] := by
  rw [show ["src", x] = ["src"] ++ [x] from rfl,
    normal_append_names ["src"] fun c member => by rwa [List.mem_singleton.1 member]]
  rfl

/-! ## Relative paths -/

theorem lexicallyRelative_self : ∀ a : List String, lexicallyRelative a a = ["."]
  | [] => rfl
  | x :: a => by simp [lexicallyRelative, lexicallyRelative_self a]

theorem lexicallyRelative_append_name : ∀ (b : List String) (x : String),
    lexicallyRelative (b ++ [x]) b = [x]
  | [], _ => rfl
  | y :: b, x => by simp [lexicallyRelative, lexicallyRelative_append_name b x]

theorem lexicallyRelative_shape : ∀ a b : List String,
    lexicallyRelative a b = ["."] ∨ ∃ k t, lexicallyRelative a b = List.replicate k ".." ++ t ∧ t <:+ a
  | x :: a, y :: b => by
      unfold lexicallyRelative
      split
      · rcases lexicallyRelative_shape a b with same | ⟨k, t, eq, suffix⟩
        · exact .inl same
        · exact .inr ⟨k, t, eq, suffix.trans (List.suffix_cons x a)⟩
      · exact .inr ⟨b.length + 1, x :: a, rfl, List.suffix_refl _⟩
  | [], [] => .inl rfl
  | [], y :: b => .inr ⟨b.length + 1, [], by simp [lexicallyRelative], List.suffix_refl _⟩
  | x :: a, [] => .inr ⟨0, x :: a, by simp [lexicallyRelative], List.suffix_refl _⟩

theorem relative_dropLast (init : List String) {x : String} (named : Name x) :
    relative (init ++ [x]) init = [x] := by
  rw [relative, normal_append_names init fun c member => by rwa [List.mem_singleton.1 member],
    lexicallyRelative_append_name]

theorem normal_srcTestPath (srcFilePath root : List String) :
    ∃ pre t, normal (srcTestPath srcFilePath root) = pre ++ t ∧ (pre = [] ∨ pre = ["src"]) ∧
      t <:+ normal srcFilePath := by
  rcases lexicallyRelative_shape (normal srcFilePath) (normal root) with same | ⟨k, t, eq, suffix⟩
  · exact ⟨["src"], [], by rw [srcTestPath, relative, same]; rfl, .inr rfl, List.nil_suffix⟩
  · have named : ∀ c ∈ t, Name c := fun c member => normal_names _ c (suffix.subset member)
    rw [srcTestPath, relative, eq, ← List.cons_append, normal_append_names _ named]
    cases k with
    | zero => exact ⟨["src"], t, rfl, .inr rfl, suffix⟩
    | succ k => exact ⟨[], t, by rw [normal_src_dotDots], .inl rfl, suffix⟩

/-! ## File names -/

theorem name_of_length {c : String} (long : 2 < c.length) : Name c := by
  refine ⟨?_, ?_, ?_⟩ <;> rintro rfl <;> exact absurd long (by decide)

theorem name_of_extension {name : String} (ext : extension name ≠ "") : Name name := by
  refine ⟨?_, ?_, ?_⟩ <;> rintro rfl <;> exact ext (by decide)

theorem pathExtension_valid {p : List String} (valid : pathExtension p ∈ validExtensions) :
    ∃ init x, p = init ++ [x] ∧ Name x := by
  cases last : p.getLast? with
  | none => simp [pathExtension, last, validExtensions] at valid
  | some x =>
      have ext : extension x ≠ "" := by
        rintro empty
        simp [pathExtension, last, empty, validExtensions] at valid
      exact ⟨p.dropLast, x, (List.dropLast_append_getLast? x last).symm, name_of_extension ext⟩

end SliceAnalyzer.WriteBitcode
