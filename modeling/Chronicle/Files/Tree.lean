import Chronicle.Failure
import Chronicle.Files.Path

/-!
# Trees of files

The files below a working directory, each by the names on the way to it.

* `Tree.locate`: the names a path leads to;
* `Tree.read`: the content of a file;
* `Tree.list`: the names in a directory;
* `Tree.makeDirectory`: a directory at a path, whose parent has to be there.
-/

namespace Chronicle.Files

structure Tree where
  files : List (List String × String)
  directories : List (List String)
  deriving Repr, Inhabited

namespace Tree

def ofFiles (files : List (String × String)) : Tree :=
  ⟨files.map fun (p, content) => ((Path.ofText p).names, content), []⟩

/-- All prefixes of a list but the list itself. -/
def properPrefixes (names : List String) : List (List String) :=
  (List.range names.length).map names.take

/-- A directory is one by itself or because files lie in it. -/
def allDirectories (t : Tree) : List (List String) :=
  (t.directories ++ (t.files.map fun (names, _) => properPrefixes names).flatten ++
    (t.directories.map properPrefixes).flatten).eraseDups

def isDirectory (t : Tree) (names : List String) : Bool :=
  names.isEmpty || t.allDirectories.contains names

def file? (t : Tree) (names : List String) : Option String := t.files.lookup names

/-- Why there is nothing below some names: they lead to a file, or nowhere. -/
def dead (t : Tree) (names : List String) : Failure :=
  if (t.file? names).isSome then .notADirectory else .fileNotFound

/-- Follows names from a place in the tree; `none` is a place outside. -/
def follow (t : Tree) : Option (List String) → List String → Except Failure (Option (List String))
  | place, [] => .ok place
  | none, _ :: names => follow t none names
  | some at_, name :: names =>
    if t.isDirectory at_ then
      if name == Path.upwards then follow t (if at_.isEmpty then none else some at_.dropLast) names
      else follow t (some (at_ ++ [name])) names
    else .error (t.dead at_)

def locate (t : Tree) (p : Path) : Except Failure (Option (List String)) :=
  t.follow (if p.isAbsolute then none else some []) p.names

def read (t : Tree) (p : Path) : Except Failure String := do
  match ← t.locate p with
  | none => throw .fileNotFound
  | some names =>
    match t.file? names with
    | some content => return content
    | none => throw (if t.isDirectory names then .isADirectory else .fileNotFound)

/-- The names in a directory, each once; none if there is no such directory. -/
def list (t : Tree) (p : Path) : List String :=
  match t.locate p with
  | .ok (some names) =>
    let below (m : List String) : Option String :=
      if names.isPrefixOf m then m[names.length]? else none
    ((t.files.map (·.1) ++ t.directories).filterMap below).eraseDups
  | _ => []

/-- A directory at a path, new or there already. -/
def makeDirectory (t : Tree) (p : Path) : Except Failure Tree := do
  match ← t.locate p with
  | none => return t
  | some names =>
    if t.isDirectory names then return t
    else if (t.file? names).isSome then throw .fileExists
    else return { t with directories := t.directories ++ [names] }

theorem makeDirectory_files {t u : Tree} {p : Path} (h : t.makeDirectory p = .ok u) :
    u.files = t.files := by
  unfold makeDirectory at h
  cases hl : t.locate p with
  | error f => simp [hl, bind, Except.bind] at h
  | ok place =>
    cases place with
    | none => simp only [hl, bind, Except.bind] at h; cases h; rfl
    | some names =>
      simp only [hl, bind, Except.bind] at h
      split at h
      · cases h; rfl
      · split at h
        · cases h
        · cases h; rfl

end Tree

end Chronicle.Files
