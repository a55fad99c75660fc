import Stampline.Lowering.Code
import Stampline.Wasm.Encode

/-!
# Pooled texts

All the texts of a program lie in memory one behind the other, each of them once, in the order in
which the code first refers to them.
-/

namespace Stampline

/-- The texts of a program in the order in which they lie in memory, each of them once. -/
structure TextPool where
  /-- The texts. -/
  texts : List String
deriving DecidableEq, Repr, Inhabited

namespace TextPool

/-- The pool of the texts that code refers to. -/
def ofCode (code : List Code) : TextPool :=
  ⟨distinctAfter [] ((Wasm.constantsOf code).filterMap fun
    | .offset text => some text
    | .size _ => none)⟩

/-- Where a text begins: behind the texts before it. -/
def offset (pool : TextPool) (text : String) : Nat :=
  (pool.texts.takeWhile (· ≠ text)).foldr (fun t n => t.utf8ByteSize + n) 0

/-- The contents of the memory. -/
def bytes (pool : TextPool) : List UInt8 := pool.texts.flatMap Wasm.textBytes

/-- The word that a reference to a text stands for. -/
def resolve (pool : TextPool) : TextPart → UInt32
  | .offset text => UInt32.ofNat (pool.offset text)
  | .size text => UInt32.ofNat text.utf8ByteSize

/-- The memory that holds the texts. There is always at least one page of it. -/
def limits (pool : TextPool) : Wasm.Limits :=
  ⟨max 1 ((pool.bytes.length + Wasm.pageSize - 1) / Wasm.pageSize), none, false⟩

/-- What the memory is filled with, if there is anything to fill it with. -/
def segments (pool : TextPool) : List Wasm.Segment :=
  if pool.bytes.isEmpty then [] else [⟨.active 0 [.const32 0], pool.bytes⟩]

end TextPool

end Stampline
