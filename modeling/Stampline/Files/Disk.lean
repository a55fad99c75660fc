import Stampline.Files.Path

/-!
# Disks

A tree of directories and files, with one of the directories as the place where paths begin that do
not lead down from the root. There are no links, and nothing is out of bounds.
-/

namespace Stampline

/-- A file or a directory. -/
inductive Entry where
  /-- A file with its contents. -/
  | file (contents : List UInt8)
  /-- A directory with its entries, each name at most once. -/
  | directory (entries : List (String × Entry))

instance : Inhabited Entry := ⟨.file []⟩

namespace Entry

/-- Whether an entry is a directory. -/
def isDirectory : Entry → Bool
  | directory _ => true
  | file _ => false

/-- The entry of a name in a directory. -/
def child? (name : String) : Entry → Option Entry
  | directory entries => entries.lookup name
  | file _ => none

/-- What a list of names leads to. -/
def at? (e : Entry) : List String → Option Entry
  | [] => some e
  | name :: names => (e.child? name).bind (·.at? names)

/-- Puts an entry into a directory, in place of the one of its name if there is one. -/
def insert (name : String) (new : Entry) : List (String × Entry) → List (String × Entry)
  | [] => [(name, new)]
  | (n, e) :: rest => if n = name then (n, new) :: rest else (n, e) :: insert name new rest

/-- Puts an entry where a list of names leads. The directories on the way have to be there. -/
def put (e new : Entry) : List String → Entry
  | [] => new
  | name :: names =>
    match e with
    | file contents => file contents
    | directory entries =>
      match names with
      | [] => directory (insert name new entries)
      | _ =>
        match entries.lookup name with
        | some below => directory (insert name (below.put new names) entries)
        | none => directory entries

end Entry

/-- A tree of directories and files. -/
structure Disk where
  /-- The directory above all others. -/
  root : Entry := .directory []
  /-- The names that lead from the root to the directory where paths begin. -/
  here : List String := []
deriving Inhabited

namespace Disk

/-- The names that lead to where a path begins. -/
def start (d : Disk) (path : String) : List String :=
  if Path.isAbsolute path then [] else d.here

/-- The names that the parts of a path lead to, from the place that `names` lead to. Every part has
to start in a directory. A name is too long only where it is looked for. -/
def follow (d : Disk) (names : List String) : List String → Except FileFault (List String)
  | [] => .ok names
  | part :: parts =>
    match d.root.at? names with
    | none => .error .notFound
    | some (.file _) => .error .notDirectory
    | some (.directory entries) =>
      if part = "" ∨ part = "." then d.follow names parts
      else if part = ".." then d.follow names.dropLast parts
      else if Path.maxName < part.utf8ByteSize then .error .tooLong
      else if (entries.lookup part).isSome then d.follow (names ++ [part]) parts
      else .error .notFound

/-- What is at a path. -/
def look (d : Disk) (path : String) : Except FileFault Entry :=
  match Path.fault? path with
  | some fault => .error fault
  | none =>
    match d.follow (d.start path) (Path.parts path) with
    | .error fault => .error fault
    | .ok names =>
      match d.root.at? names with
      | some e => .ok e
      | none => .error .notFound

/-- Makes a directory at the place that parts lead to. The directory that holds it has to be
there. -/
def makeDirectory (d : Disk) (start parts : List String) : Except FileFault Disk :=
  match parts.getLast? with
  | none => .error .occupied
  | some name =>
    match d.follow start parts.dropLast with
    | .error fault => .error fault
    | .ok names =>
      match d.root.at? names with
      | none => .error .notFound
      | some (.file _) => .error .notDirectory
      | some (.directory entries) =>
        if name = ".." then .error .occupied
        else if Path.maxName < name.utf8ByteSize then .error .tooLong
        else if (entries.lookup name).isSome then .error .occupied
        else .ok { d with root := d.root.put (.directory []) (names ++ [name]) }

/-- Whether parts lead to a directory. -/
def isDirectoryAt (d : Disk) (start parts : List String) : Bool :=
  match d.follow start parts with
  | .error _ => false
  | .ok names => (d.root.at? names).any (·.isDirectory)

/-- Makes the directory that parts lead to, given them from the last to the first, and those above
it as far as they are missing. Nothing is undone when that fails. -/
def makeAll (d : Disk) (start : List String) : List String → Except FileFault Unit × Disk
  | [] => (.ok (), d)
  | part :: above =>
    let parts := (part :: above).reverse
    let settle (d : Disk) (fault : FileFault) : Except FileFault Unit × Disk :=
      if d.isDirectoryAt start parts then (.ok (), d) else (.error fault, d)
    match d.makeDirectory start parts with
    | .ok d => (.ok (), d)
    | .error .notFound =>
      match d.makeAll start above with
      | (.error fault, d) => (.error fault, d)
      | (.ok (), d) =>
        match d.makeDirectory start parts with
        | .ok d => (.ok (), d)
        | .error fault => settle d fault
    | .error fault => settle d fault

/-- Makes the directory at a path and those above it as far as they are missing. -/
def makeDirectories (d : Disk) (path : String) : Except FileFault Unit × Disk :=
  match Path.fault? path with
  | some fault => (.error fault, d)
  | none =>
    let parts := (Path.parts path).filter fun part => part ≠ "" && part ≠ "."
    d.makeAll (d.start path) parts.reverse

/-- Writes a file at a path, over the one that is there if there is one. The directory that holds it
has to be there, and a path that ends in a slash cannot be that of a file. -/
def writeFile (d : Disk) (path : String) (contents : List UInt8) : Except FileFault Disk :=
  match Path.fault? path with
  | some fault => .error fault
  | none =>
    let parts := Path.parts path
    let whole := (parts.reverse.dropWhile (· == "")).reverse
    match d.follow (d.start path) whole.dropLast with
    | .error fault => .error fault
    | .ok names =>
      match d.root.at? names, whole.getLast? with
      | none, _ => .error .notFound
      | some (.file _), _ => .error .notDirectory
      | some (.directory _), none => .error .isDirectory
      | some (.directory entries), some name =>
        if whole.length < parts.length ∨ name = "." ∨ name = ".." then .error .isDirectory
        else if Path.maxName < name.utf8ByteSize then .error .tooLong
        else if (entries.lookup name).any (·.isDirectory) then .error .isDirectory
        else .ok { d with root := d.root.put (.file contents) (names ++ [name]) }

end Disk

end Stampline
