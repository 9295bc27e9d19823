import TypedSettings.Table

/-!
# Files

What the library asks of a file system, and a file system in memory that does the same. Main
statements: a file that was written can be read back, and no other file has changed
(`find?_write`).
-/

namespace TypedSettings

/-- Why a file cannot be read or written. -/
inductive FileFault where
  | notFound
  | isDirectory
  | notDirectory
  | notUnicode
  | other (text : String)
deriving DecidableEq

def FileFault.message : FileFault → String
  | notFound => "No such file or directory (os error 2)"
  | isDirectory => "Is a directory (os error 21)"
  | notDirectory => "Not a directory (os error 20)"
  | notUnicode => "stream did not contain valid UTF-8"
  | other text => text

/-- The operations of a file system. -/
structure Files (m : Type → Type) where
  /-- Whether there is a file or directory. -/
  present : String → m Bool
  /-- The content of a file. -/
  read : String → m (Except FileFault ByteArray)
  /-- Gives a file a content; the file is made if there is none. -/
  write : String → String → m (Except FileFault Unit)
  /-- Makes a directory and those on the way to it. -/
  makeDirectories : String → m (Except FileFault Unit)

def Files.readText {m : Type → Type} [Monad m] (files : Files m) (path : String) :
    m (Except FileFault String) := do
  match ← files.read path with
  | .error fault => return .error fault
  | .ok bytes =>
    match String.fromUTF8? bytes with
    | some text => return .ok text
    | none => return .error .notUnicode

/-! ## Files in memory -/

/-- What stands under a path. -/
inductive FileEntry where
  | directory
  | file (content : ByteArray)

/-- Files and directories below a working directory, by their paths without detours. -/
abbrev FileTree := Table FileEntry

namespace FileTree

def steps (path : String) : List String :=
  (path.splitOn "/").filter fun name => name ≠ "" ∧ name ≠ "."

def pathOf (names : List String) : String := "/".intercalate names

def entryAt? (tree : FileTree) (names : List String) : Option FileEntry :=
  if names.isEmpty then some .directory else tree.find? (pathOf names)

/-- Follows names from a place. Every place that is left has to be a directory. -/
def follow (tree : FileTree) (place : List String) : List String → Except FileFault (List String)
  | [] => .ok place
  | name :: rest =>
    match tree.entryAt? place with
    | none => .error .notFound
    | some (.file _) => .error .notDirectory
    | some .directory =>
      if name = ".." then
        if place.isEmpty then .error .notFound else follow tree place.dropLast rest
      else follow tree (place ++ [name]) rest

/-- The place that a path leads to. Nothing is known of places outside the working directory. -/
def placeOf (tree : FileTree) (path : String) : Except FileFault (List String) :=
  if path.isEmpty ∨ path.startsWith "/" then .error .notFound else tree.follow [] (steps path)

/-- What stands at a path; behind a slash at its end only a directory does. -/
def at? (tree : FileTree) (path : String) : Except FileFault FileEntry := do
  match tree.entryAt? (← tree.placeOf path) with
  | none => .error .notFound
  | some .directory => .ok .directory
  | some (.file content) => if path.endsWith "/" then .error .notDirectory else .ok (.file content)

def present (tree : FileTree) (path : String) : Bool := (tree.at? path).isOk

def read (tree : FileTree) (path : String) : Except FileFault ByteArray := do
  match ← tree.at? path with
  | .directory => .error .isDirectory
  | .file content => .ok content

def write (tree : FileTree) (path : String) (content : ByteArray) : Except FileFault FileTree := do
  let place ← tree.placeOf path
  match tree.entryAt? place with
  | some .directory => .error .isDirectory
  | some (.file _) =>
    if path.endsWith "/" then .error .notDirectory
    else .ok (tree.insert (pathOf place) (.file content))
  | none =>
    if path.endsWith "/" then .error .isDirectory
    else .ok (tree.insert (pathOf place) (.file content))

/-- The tree with the directories of a place made, from the first on. -/
def makePlace (tree : FileTree) (place : List String) : List String → Except FileFault FileTree
  | [] => .ok tree
  | name :: rest =>
    match tree.entryAt? (place ++ [name]) with
    | some (.file _) => .error .notDirectory
    | some .directory => makePlace tree (place ++ [name]) rest
    | none => makePlace (tree.insert (pathOf (place ++ [name])) .directory) (place ++ [name]) rest

/-- The tree with a directory made, and those on the way to it. -/
def makeDirectories (tree : FileTree) (path : String) : Except FileFault FileTree :=
  if path.startsWith "/" then .error .notFound else tree.makePlace [] (steps path)

/-- Runs a change of the tree, which stays as it is if the change fails. -/
def change (f : FileTree → Except FileFault FileTree) : StateM FileTree (Except FileFault Unit) :=
  fun tree =>
    match f tree with
    | .ok tree => (.ok (), tree)
    | .error fault => (.error fault, tree)

/-- The operations on a tree. -/
def files : Files (StateM FileTree) where
  present path := fun tree => (tree.present path, tree)
  read path := fun tree => (tree.read path, tree)
  write path text := change fun tree => tree.write path text.toUTF8
  makeDirectories path := change fun tree => tree.makeDirectories path

theorem find?_write {tree tree' : FileTree} {path : String} {content : ByteArray}
    (h : tree.write path content = .ok tree') :
    ∃ place, tree.placeOf path = .ok place ∧ ∀ other,
      tree'.find? other =
        if pathOf place = other then some (.file content) else tree.find? other := by
  unfold write at h
  cases hp : tree.placeOf path with
  | error fault => simp [hp, bind, Except.bind] at h
  | ok place =>
    refine ⟨place, rfl, fun other => ?_⟩
    simp only [hp, bind, Except.bind] at h
    split at h
    · cases h
    all_goals
      split at h
      · cases h
      · cases h
        exact Table.find?_insert ..

end FileTree

end TypedSettings
