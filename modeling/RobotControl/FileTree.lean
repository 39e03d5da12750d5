/-!
# Files

A tree of files and directories, and how a path is looked up in it. The directory that the tree
describes is the current one; of what lies outside of it nothing is known but that directories are
there.

* `ReadError`: why a text file cannot be read;
* `FileTree.walk`: follows a path, component by component;
* `FileTree.read`: the text of a file.
-/

namespace RobotControl

/-- Why a text file cannot be read. -/
inductive ReadError where
  | notFound
  | notDirectory
  | isDirectory
  | nameTooLong
  | invalidText
  | other (detail : String)
deriving DecidableEq, Repr

/-- The wording of a read error. -/
def ReadError.detail : ReadError → String
  | .notFound => "No such file or directory (os error 2)"
  | .notDirectory => "Not a directory (os error 20)"
  | .isDirectory => "Is a directory (os error 21)"
  | .nameTooLong => "File name too long (os error 36)"
  | .invalidText => "stream did not contain valid UTF-8"
  | .other detail => detail

/-- The text that a file's bytes encode, which have to be UTF-8. -/
def decodeText (bytes : ByteArray) : Except ReadError String :=
  match String.fromUTF8? bytes with
  | some text => .ok text
  | none => .error .invalidText

/-- What a name in a directory stands for. -/
inductive Entry where
  | file (bytes : ByteArray)
  | directory

/-- The named files and directories, each with its path from the current directory. The directories
on the way to them are there without being listed. -/
structure FileTree where
  entries : List (List String × Entry) := []

/-- A place that a path can lead to. -/
inductive Place where
  | inside (path : List String)
  | outside

namespace FileTree

/-- The tree with these entries, whose names may have several components. -/
def ofNames (names : List (String × Entry)) : FileTree where
  entries := names.map fun (name, e) => ((name.splitOn "/").filter fun c => c ≠ "" ∧ c ≠ ".", e)

/-- The entry at a path without dots. -/
def entry? (t : FileTree) (path : List String) : Option Entry :=
  match t.entries.lookup path with
  | some e => some e
  | none =>
    if path = [] ∨ t.entries.any (fun (p, _) => path.isPrefixOf p) then some .directory else none

/-- The bytes of the file at a place; a directory has none. -/
def bytes? (t : FileTree) : Place → Option ByteArray
  | .outside => none
  | .inside path =>
    match t.entry? path with
    | some (.file bytes) => some bytes
    | _ => none

theorem exists_path_of_bytes? {t : FileTree} {p : Place} {bytes : ByteArray}
    (h : t.bytes? p = some bytes) :
    ∃ path, p = .inside path ∧ t.entry? path = some (.file bytes) := by
  cases p with
  | outside => cases h
  | inside path =>
    simp only [bytes?] at h
    split at h
    next hentry =>
      cases h
      exact ⟨path, rfl, hentry⟩
    next => cases h

/-- The bytes that a component of a path may have. -/
def maxName : Nat := 255

/-- The bytes that a path may have. -/
def maxPath : Nat := 4095

/-- Follows one component of a path. Only a directory can be left in any direction. -/
def enter (t : FileTree) (p : Place) (component : String) : Except ReadError Place :=
  if (t.bytes? p).isSome then .error .notDirectory
  else if maxName < component.utf8ByteSize then .error .nameTooLong
  else if component = "" ∨ component = "." then .ok p
  else match p with
    | .outside => if component = ".." then .ok .outside else .error .notFound
    | .inside path =>
      if component = ".." then
        .ok (if path = [] then .outside else .inside path.dropLast)
      else if (t.entry? (path ++ [component])).isSome then .ok (.inside (path ++ [component]))
      else .error .notFound

/-- Follows the components of a path. -/
def walk (t : FileTree) (p : Place) (components : List String) : Except ReadError Place :=
  components.foldlM t.enter p

/-- The text of the file that a path leads to. -/
def read (t : FileTree) (path : String) : Except ReadError String := do
  if path = "" then throw .notFound
  if maxPath < path.utf8ByteSize then throw .nameTooLong
  let start := if path.startsWith "/" then Place.outside else .inside []
  let place ← t.walk start (path.splitOn "/")
  match t.bytes? place with
  | some bytes => decodeText bytes
  | none => throw .isDirectory

/-- What is read is the text of a file in the tree, whichever way the path takes. -/
theorem exists_file_of_read {t : FileTree} {path text : String} (h : t.read path = .ok text) :
    ∃ p bytes, t.entry? p = some (.file bytes) ∧ decodeText bytes = .ok text := by
  simp only [read, bind, Except.bind] at h
  split at h
  · cases h
  split at h
  · cases h
  split at h
  · cases h
  split at h
  next bytes hbytes =>
    obtain ⟨p, -, hentry⟩ := exists_path_of_bytes? hbytes
    exact ⟨p, bytes, hentry, h⟩
  next => cases h

end FileTree

end RobotControl
