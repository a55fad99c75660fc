import Stampline.Files.Fault

/-!
# Paths

A path is text in which slashes separate the names of directories and files. An empty part and the
part `.` stay where they are, and the part `..` leads to the directory above.
-/

namespace Stampline.Path

/-- Text split at its slashes. -/
def split : List Char → List (List Char)
  | [] => [[]]
  | c :: cs =>
    if c = '/' then [] :: split cs
    else
      match split cs with
      | part :: parts => (c :: part) :: parts
      | [] => [[c]]

/-- The parts of a path between its slashes. -/
def parts (path : String) : List String := (split path.toList).map String.ofList

/-- The most bytes that a name can have. -/
def maxName : Nat := 255

/-- The most bytes that a path can have. -/
def maxPath : Nat := 4095

/-- Why a path leads nowhere on any disk, if it does not. -/
def fault? (path : String) : Option FileFault :=
  if path.isEmpty then some .notFound
  else if path.toList.contains '\x00' then some .badName
  else if maxPath < path.utf8ByteSize then some .tooLong
  else none

/-- Whether a path leads down from the root, wherever it is used. -/
def isAbsolute (path : String) : Bool := path.toList.head? == some '/'

/-- The path of an entry of a directory. -/
def join (directory name : String) : String :=
  if directory.isEmpty || directory.toList.getLast? == some '/' then directory ++ name
  else directory ++ "/" ++ name

/-- The reversed text of a path, less what is without effect at its end: slashes, and parts that
stay where they are. -/
def trimmed : List Char → List Char
  | '/' :: cs => trimmed cs
  | '.' :: '/' :: cs => trimmed cs
  | cs => cs

/-- The path of the directory that holds what a path leads to. The root and the empty path have
none. -/
def parent? (path : String) : Option String :=
  match trimmed path.toList.reverse with
  | [] => none
  | cs =>
    match trimmed (cs.dropWhile (· ≠ '/')) with
    | [] => some (if isAbsolute path then "/" else "")
    | above => some (String.ofList above.reverse)

/-- The part of a name behind its last point. A name that has no point, or none but at its
beginning, has no extension. -/
def extension? (name : String) : Option String :=
  let cs := name.toList.reverse
  match cs.dropWhile (· ≠ '.') with
  | [] | [_] => none
  | _ => some (String.ofList (cs.takeWhile (· ≠ '.')).reverse)

end Stampline.Path
