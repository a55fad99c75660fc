import Stampline.Wasm.Basic

/-!
# The functions of the host

A lowered program reaches the world through four functions. It imports all of them, in the order of
`HostFunction.all`, so that the index of an imported function is its place in that list.
-/

namespace Stampline

open Wasm (ValueType FuncType)

/-- A function that the host offers to programs. -/
inductive HostFunction where
  /-- Writes an integer. -/
  | printInt
  /-- Writes a text, given by where it lies in memory and its number of bytes. -/
  | printText
  /-- Reads a global, given by its name in memory. -/
  | readGlobal
  /-- Binds a global, given by its name in memory, to a value. -/
  | writeGlobal
deriving DecidableEq, Repr

namespace HostFunction

/-- The functions of the host in the order in which programs import them. -/
def all : List HostFunction := [printInt, printText, readGlobal, writeGlobal]

/-- The name a function is imported by. -/
def name : HostFunction → String
  | printInt => "print_int"
  | printText => "print_str"
  | readGlobal => "global_get"
  | writeGlobal => "global_set"

/-- The type of a function. -/
def type : HostFunction → FuncType
  | printInt => ⟨[.i64], []⟩
  | printText => ⟨[.i32, .i32], []⟩
  | readGlobal => ⟨[.i32, .i32], [.i64]⟩
  | writeGlobal => ⟨[.i32, .i32, .i64], []⟩

/-- The index of a function among those of a lowered program. -/
def index (f : HostFunction) : Nat := all.idxOf f

/-- The number of functions of the host. The functions of a program are numbered after them. -/
def count : Nat := all.length

theorem mem_all (f : HostFunction) : f ∈ all := by cases f <;> decide

theorem index_lt_count (f : HostFunction) : f.index < count := List.idxOf_lt_length_of_mem f.mem_all

/-- The functions of the host come first wherever functions are numbered. -/
theorem getElem?_map_all_append {α : Type} (g : HostFunction → α) (rest : List α)
    (f : HostFunction) : (all.map g ++ rest)[f.index]? = some (g f) := by
  rw [List.getElem?_append_left (by simpa [count] using f.index_lt_count), List.getElem?_map,
    List.getElem?_eq_getElem f.index_lt_count]
  exact congrArg (some ∘ g) (List.getElem_idxOf f.index_lt_count)

end HostFunction

/-- The name space that the functions of the host are imported from. -/
def hostSpace : String := "env"

/-- The name by which programs call the function that prints. -/
def printName : String := "print"

/-- The export that runs a program. -/
def runName : String := "run"

/-- The export that holds the texts of a program. -/
def memoryName : String := "memory"

end Stampline
