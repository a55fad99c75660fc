import Stampline.Files.Disk

/-!
# Source files

A path names sources: that of a file names this file, whatever it is called, and that of a directory
names the files in and below it whose names have one of the extensions of sources. The entries of a
directory come in the order of their names, and what is below a directory comes in its place.
-/

namespace Stampline

/-- The extensions of the names of sources. -/
def sourceExtensions : List String := ["py", "lpy"]

/-- A source text. -/
structure SourceFile where
  /-- The path it was read from, or what stands for it. -/
  name : String
  /-- The text. -/
  contents : String
deriving DecidableEq, Repr

/-- The text of bytes. -/
def textOf (bytes : List UInt8) : Except FileFault String :=
  match String.fromUTF8? ⟨bytes.toArray⟩ with
  | some text => .ok text
  | none => .error .notText

/-- A source from the contents of a file. -/
def SourceFile.ofBytes (name : String) (bytes : List UInt8) : Except FileFault SourceFile :=
  (textOf bytes).map (⟨name, ·⟩)

/-- Whether a name in a directory is that of a source. -/
def isSourceName (name : String) : Bool := (Path.extension? name).any sourceExtensions.contains

/-- What belongs to the names of a directory, in the order of the names. -/
def inNameOrder {α : Type} (named : List (String × List α)) : List α :=
  (named.mergeSort (fun a b => decide (a.1 ≤ b.1))).flatMap (·.2)

/-- What is found in a directory or below it. -/
inductive Found where
  /-- A source with its contents. -/
  | source (path : String) (contents : List UInt8)
  /-- A directory that cannot be listed, since its path is longer than any can be. -/
  | unlisted (path : String)

/-- The source that was found. Its path may lead nowhere although it was found. -/
def Found.read : Found → Except FileFault SourceFile
  | source path contents =>
    match Path.fault? path with
    | some fault => .error fault
    | none => SourceFile.ofBytes path contents
  | unlisted path => .error (.unlisted path)

mutual

/-- What is found at an entry of a directory: the source that it is, or what it holds. -/
def Entry.sources (path name : String) : Entry → List Found
  | .file contents => if isSourceName name then [.source path contents] else []
  | .directory entries =>
    if Path.maxPath < path.utf8ByteSize then [.unlisted path]
    else inNameOrder (sourcesIn path entries)

/-- The same for each of the entries of a directory, by name. -/
def sourcesIn (path : String) : List (String × Entry) → List (String × List Found)
  | [] => []
  | (name, e) :: rest => (name, e.sources (Path.join path name) name) :: sourcesIn path rest

end

/-- The sources that a path names, given what is there. -/
def Entry.load (path : String) : Entry → Except FileFault (List SourceFile)
  | .file contents => (SourceFile.ofBytes path contents).map ([·])
  | .directory entries => (inNameOrder (sourcesIn path entries)).mapM Found.read

/-- The sources that a path names. -/
def Disk.load (d : Disk) (path : String) : Except FileFault (List SourceFile) :=
  match d.look path with
  | .error fault => .error fault
  | .ok e => e.load path

end Stampline
