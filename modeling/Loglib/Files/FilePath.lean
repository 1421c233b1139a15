import Loglib.Basic.Bytes

/-! File paths, their lexical normal form, and the key under which a path is recognized. -/

namespace Loglib

/-- A `std::filesystem::path`: the names between the separators, whether a root stands in front of
them and whether a separator stands behind them. -/
structure FilePath where
  rooted : Bool
  names : List Bytes
  trailing : Bool
deriving DecidableEq, Repr

namespace FilePath

/-- `path::empty`. -/
def isEmpty (path : FilePath) : Bool := !path.rooted && path.names.isEmpty

/-- `path::filename`: nothing behind a trailing separator. -/
def filename (path : FilePath) : Bytes := if path.trailing then [] else path.names.getLastD []

/-- `path::parent_path`. -/
def parentPath (path : FilePath) : FilePath :=
  if path.trailing then { path with trailing := false }
    else { path with names := path.names.dropLast }

/-- `operator/` with one name behind. -/
def child (path : FilePath) (name : Bytes) : FilePath :=
  { path with names := path.names ++ [name], trailing := false }

/-- One name of a path against the names kept so far. The flag asks for a trailing separator. -/
def normalStep (rooted : Bool) (state : List Bytes × Bool) (name : Bytes) : List Bytes × Bool :=
  if name = bytes "." then (state.1, true)
  else if name = bytes ".." then
    match state.1.getLast? with
    | none => if rooted then (state.1, true) else ([bytes ".."], false)
    | some last =>
      if last = bytes ".." then (state.1 ++ [bytes ".."], false) else (state.1.dropLast, true)
  else (state.1 ++ [name], false)

/-- The names that are left, as a path. -/
def render (rooted : Bool) (state : List Bytes × Bool) : FilePath :=
  match state.1.getLast? with
  | none => ⟨rooted, if rooted then [] else [bytes "."], false⟩
  | some last => ⟨rooted, state.1, state.2 && last ≠ bytes ".."⟩

/-- `path::lexically_normal`. -/
def lexicallyNormal (path : FilePath) : FilePath :=
  if path.isEmpty then path
  else
    let state := path.names.foldl (normalStep path.rooted) ([], false)
    render path.rooted (state.1, state.2 || path.trailing)

end FilePath

/-- A directory entry. The iteration leaves out `.` and `..`. -/
structure DirectoryEntry where
  filename : Bytes
  isRegularFile : Bool
  named : filename ≠ [] ∧ filename ≠ bytes "." ∧ filename ≠ bytes ".."

/-- What the program sees of the file system. -/
structure FileSystem where
  /-- The names of the working directory, where it can be read. -/
  currentPath : Option (List Bytes)
  exists_ : FilePath → Bool
  isDirectory : FilePath → Bool
  /-- The entries that the iteration over a directory comes to before it ends or fails. -/
  entries : FilePath → List DirectoryEntry
  distinct : ∀ directory, ((entries directory).map (·.filename)).Nodup

/-- `std::filesystem::absolute`, where it succeeds. -/
def FileSystem.absolute (fs : FileSystem) (path : FilePath) : Option FilePath :=
  if path.isEmpty then none
  else if path.rooted then some path
  else fs.currentPath.map fun names => ⟨true, names ++ path.names, path.trailing⟩

/-- `CanonicalKeyForPath`. The key is the text of a normal path, which tells normal paths apart, so
the path stands for it. -/
def canonicalKeyForPath (fs : FileSystem) (path : FilePath) : FilePath :=
  let abs := (fs.absolute path).getD path
  let normalised := abs.lexicallyNormal
  if normalised.isEmpty then path else normalised

namespace FilePath

/-- A name that is neither `.` nor `..` is kept. -/
theorem normalStep_named {name : Bytes} (notDot : name ≠ bytes ".") (notDots : name ≠ bytes "..")
    (rooted : Bool) (state : List Bytes × Bool) :
    normalStep rooted state name = (state.1 ++ [name], false) := by
  rw [normalStep, if_neg notDot, if_neg notDots]

/-- A name leads to the names so far and one more, or to no more than the names so far. -/
theorem normalStep_cases (rooted : Bool) (state : List Bytes × Bool) (name : Bytes) :
    (normalStep rooted state name = (state.1 ++ [name], false)) ∨
      (normalStep rooted state name).1.length ≤ state.1.length := by
  -- Only a plain name makes the path longer.
  by_cases dot : name = bytes "."
  · simp [normalStep, dot]
  by_cases dots : name = bytes ".."
  · subst dots
    rw [normalStep, if_neg (by decide), if_pos rfl]
    cases found : state.1.getLast? with
    | none =>
      have none_ : state.1 = [] := List.getLast?_eq_none_iff.mp found
      cases rooted <;> simp [none_]
    | some last =>
      by_cases up : last = bytes ".."
      · simp [up]
      · simp [up]
  · exact .inl (normalStep_named dot dots rooted state)

/-- The names that are left are those of the state, or a single dot for an empty relative path. -/
theorem render_names (rooted : Bool) (state : List Bytes × Bool) :
    (render rooted state).names = state.1 ∨ state.1 = [] ∧
      (render rooted state).names = [bytes "."] := by
  unfold render
  -- Only an empty relative path is written as a dot.
  cases found : state.1.getLast? with
  | none =>
    have none_ : state.1 = [] := List.getLast?_eq_none_iff.mp found
    cases rooted
    · exact .inr ⟨none_, rfl⟩
    · exact .inl none_.symm
  | some last => exact .inl rfl

/-- A normal form is never the empty path. -/
theorem render_not_isEmpty (rooted : Bool) (state : List Bytes × Bool) :
    (render rooted state).isEmpty = false := by
  unfold render
  cases found : state.1.getLast? with
  | none => cases rooted <;> rfl
  | some last =>
    have some_ : state.1 ≠ [] := fun none_ => by simp [none_] at found
    simp [isEmpty, some_]

/-- A path that names something is its own name in its parent. -/
theorem eq_child_parentPath {path : FilePath} (named : path.filename ≠ []) :
    path = path.parentPath.child path.filename := by
  obtain ⟨rooted, names, trailing⟩ := path
  cases trailing
  · rcases List.eq_nil_or_concat names with rfl | ⟨front, name, rfl⟩
    · exact absurd rfl named
    · simp [parentPath, child, filename]
  · exact absurd rfl named

/-- The children of one directory are found from one and the same place. -/
theorem canonicalKeyForPath_child (fs : FileSystem) (directory : FilePath) :
    ∃ rooted state, ∀ name,
      canonicalKeyForPath fs (directory.child name) = render rooted
        (normalStep rooted state name) := by
  -- A relative path is looked up from the working directory, where that can be read.
  obtain ⟨rooted, front, found⟩ : ∃ rooted front, ∀ name,
      (fs.absolute (directory.child name)).getD (directory.child name) = ⟨rooted, front ++ [name],
      false⟩ := by
    by_cases root : directory.rooted
    · exact ⟨true, directory.names, fun name => by simp [FileSystem.absolute, isEmpty, child, root]⟩
    · cases current : fs.currentPath with
      | none =>
        exact ⟨false, directory.names, fun name =>
          by simp [FileSystem.absolute, isEmpty, child, root, current]⟩
      | some names =>
        exact ⟨true, names ++ directory.names, fun name => by
          simp [FileSystem.absolute, isEmpty, child, root, current]⟩
  refine ⟨rooted, front.foldl (normalStep rooted) ([], false), fun name => ?_⟩
  have some_ : (FilePath.mk rooted (front ++ [name]) false).isEmpty = false := by simp [isEmpty]
  have normal : (FilePath.mk rooted (front ++ [name]) false).lexicallyNormal =
      render rooted (normalStep rooted (front.foldl (normalStep rooted) ([], false)) name) := by
    simp [lexicallyNormal, some_, List.foldl_append]
  simp only [canonicalKeyForPath, found, normal, render_not_isEmpty]
  rfl

/-- A proper name in a directory has another key than any other name there. -/
theorem canonicalKeyForPath_child_ne (fs : FileSystem) (directory : FilePath) {name other : Bytes}
    (named : name ≠ [] ∧ name ≠ bytes "." ∧ name ≠ bytes "..") (differs : other ≠ name) :
    canonicalKeyForPath fs (directory.child other) ≠ canonicalKeyForPath fs
      (directory.child name) := by
  obtain ⟨rooted, state, keys⟩ := canonicalKeyForPath_child fs directory
  rw [keys, keys, normalStep_named named.2.1 named.2.2]
  intro same
  have names := congrArg FilePath.names same
  have kept : (render rooted (state.1 ++ [name], false)).names = state.1 ++ [name] := by
    rcases render_names rooted (state.1 ++ [name], false) with names | ⟨none_, -⟩
    · exact names
    · simp at none_
  rw [kept] at names
  rcases render_names rooted (normalStep rooted state other) with left | ⟨-, left⟩
  · rw [left] at names
    rcases normalStep_cases rooted state other with step | shorter
    · -- Both names are kept behind the same names.
      rw [step] at names
      exact differs (by simpa using names)
    · rw [names, List.length_append, List.length_singleton] at shorter
      omega
  · -- Nothing is left but the dot that stands for an empty path.
    rw [left] at names
    have alone : state.1 = [] := by
      have sizes := congrArg List.length names
      simp at sizes
      exact sizes
    rw [alone] at names
    exact named.2.1 (by simpa using names.symm)

end FilePath

end Loglib
