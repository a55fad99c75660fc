import Stampline.Lowering.Pool
import Stampline.Proofs.Lowering.Emission
import Stampline.Proofs.Wasm.Structured

/-!
# The size of code

A function has no more slots than its parameters and the bytes of its code: every slot but those of
parameters is set somewhere in the code, by an instruction of its own.
-/

namespace Stampline

open Wasm (Instr encodeInstrs encodeInstrs_append mapInstrs mapInstrs_append unsignedLeb BlockType)

variable {site : Site} {resolve : TextPart → UInt32}

/-- The number of bytes of an instruction. -/
def instrSize (resolve : TextPart → UInt32) (i : Code) : Nat := (i.map resolve).encode.length

/-- The number of bytes of code. -/
def codeSize (resolve : TextPart → UInt32) (code : List Code) : Nat :=
  (encodeInstrs (mapInstrs resolve code)).length

@[simp] theorem codeSize_append (a b : List Code) :
    codeSize resolve (a ++ b) = codeSize resolve a + codeSize resolve b := by
  rw [codeSize, mapInstrs_append, encodeInstrs_append, List.length_append]
  rfl

@[simp] theorem codeSize_cons (i : Code) (is : List Code) :
    codeSize resolve (i :: is) = instrSize resolve i + codeSize resolve is := by
  rw [codeSize, mapInstrs, encodeInstrs, List.length_append]
  rfl

@[simp] theorem codeSize_nil : codeSize resolve [] = 0 := rfl

@[simp] theorem instrSize_localSet (slot : Nat) :
    instrSize resolve (.localSet slot) = (unsignedLeb slot).length + 1 := rfl

@[simp] theorem instrSize_call (func : Nat) :
    instrSize resolve (.call func) = (unsignedLeb func).length + 1 := rfl

@[simp] theorem instrSize_when (body : List Code) :
    instrSize resolve (.when .none body) = codeSize resolve body + 3 := by
  simp [instrSize, codeSize, Instr.map, Instr.encode, BlockType.encode]

@[simp] theorem instrSize_choose (body orelse : List Code) :
    instrSize resolve (.choose .none body orelse) =
      codeSize resolve body + codeSize resolve orelse + 4 := by
  simp [instrSize, codeSize, Instr.map, Instr.encode, BlockType.encode]
  omega

@[simp] theorem instrSize_block (body : List Code) :
    instrSize resolve (.block .none body) = codeSize resolve body + 3 := by
  simp [instrSize, codeSize, Instr.map, Instr.encode, BlockType.encode]

@[simp] theorem instrSize_loop (body : List Code) :
    instrSize resolve (.loop .none body) = codeSize resolve body + 3 := by
  simp [instrSize, codeSize, Instr.map, Instr.encode, BlockType.encode]

mutual

theorem ExprCode.slots_le_size (resolve : TextPart → UInt32) {e : Expr} {n m : Nat}
    {code : List Code} : ExprCode site e n code m → m ≤ n + codeSize resolve code
  | .number | .local _ | .global .. => by omega
  | .call _ _ _ hargs => by
    have := hargs.slots_le_size resolve
    simp
    omega
  | .callBound _ _ _ _ hargs hvalues => by
    have := hargs.slots_le_size resolve
    have := hvalues.slots_le_size resolve
    simp
    omega
  | .print _ _ hargs => by
    have := hargs.slots_le_size resolve
    simp
    omega
  | .binary hleft hright | .compare hleft hright => by
    have := hleft.slots_le_size resolve
    have := hright.slots_le_size resolve
    simp
    omega
  | .negate hoperand => by
    have := hoperand.slots_le_size resolve
    simp
    omega

theorem ArgsCode.slots_le_size (resolve : TextPart → UInt32) {es : List Expr} {n m : Nat}
    {code : List Code} : ArgsCode site es n code m → m ≤ n + codeSize resolve code
  | .nil => by omega
  | .cons hhead htail => by
    have := hhead.slots_le_size resolve
    have := htail.slots_le_size resolve
    simp
    omega

theorem StoredCode.slots_le_size (resolve : TextPart → UInt32) {es : List Expr} {n m : Nat}
    {code : List Code} {temps : List Nat} :
    StoredCode site es n code temps m → m ≤ n + codeSize resolve code
  | .nil => by omega
  | .cons hhead htail => by
    have := hhead.slots_le_size resolve
    have := htail.slots_le_size resolve
    simp
    omega

theorem PrintedCode.slots_le_size (resolve : TextPart → UInt32) {es : List Expr} {n m : Nat}
    {code : List Code} {places : List Printed} :
    PrintedCode site es n code places m → m ≤ n + codeSize resolve code
  | .nil => by omega
  | .text htail => htail.slots_le_size resolve
  | .value _ hhead htail => by
    have := hhead.slots_le_size resolve
    have := htail.slots_le_size resolve
    simp
    omega

end

mutual

/-- Temporaries and assignments together are no more than the bytes of the code. -/
theorem StmtCode.slots_le_size (resolve : TextPart → UInt32) {s : Stmt} {n m : Nat}
    {code : List Code} :
    StmtCode site s n code m → m + s.targets.length ≤ n + codeSize resolve code
  | .define | .pass => by simp [Stmt.targets]
  | .giveZero _ => by simp [Stmt.targets]
  | .give _ hvalue | .eval hvalue => by
    have := hvalue.slots_le_size resolve
    simp [Stmt.targets]
    omega
  | .assignLocal _ hvalue => by
    have := hvalue.slots_le_size resolve
    simp [Stmt.targets]
    omega
  | .assignGlobal _ hvalue => by
    have := hvalue.slots_le_size resolve
    simp [Stmt.targets]
    omega
  | .when htest _ hbody => by
    have := htest.slots_le_size resolve
    have := hbody.slots_le_size resolve
    simp [Stmt.targets, targetsIn]
    omega
  | .choose htest _ hbody _ horelse => by
    have := htest.slots_le_size resolve
    have := hbody.slots_le_size resolve
    have := horelse.slots_le_size resolve
    simp [Stmt.targets]
    omega
  | .loop htest _ hbody => by
    have := htest.slots_le_size resolve
    have := hbody.slots_le_size resolve
    simp [Stmt.targets]
    omega

theorem BlockCode.slots_le_size (resolve : TextPart → UInt32) {ss : List Stmt} {n m : Nat}
    {code : List Code} :
    BlockCode site ss n code m → m + (targetsIn ss).length ≤ n + codeSize resolve code
  | .nil => by simp [targetsIn]
  | .cons hhead htail => by
    have := hhead.slots_le_size resolve
    have := htail.slots_le_size resolve
    simp [targetsIn]
    omega

end

theorem length_distinctAfter_le : ∀ names before : List String,
    (distinctAfter before names).length ≤ before.length + names.length
  | [], before => by simp [distinctAfter]
  | n :: names, before => by
    unfold distinctAfter
    split
    · have := length_distinctAfter_le names before
      rw [List.length_cons]
      omega
    · have := length_distinctAfter_le names (before ++ [n])
      rw [List.length_append, List.length_singleton] at this
      rw [List.length_cons]
      omega

theorem Function.slots_le_size (resolve : TextPart → UInt32) {functions : List Function}
    {f : Function} {code : List Code} {slots : Nat} (h : f.emit functions = .ok (code, slots)) :
    slots ≤ f.params.length + codeSize resolve code := by
  obtain ⟨body, hbody, rfl⟩ := Function.emit_eq_ok h
  have hsize := hbody.slots_le_size resolve
  have hlocals := length_distinctAfter_le (targetsIn f.body) (f.params.map (·.name))
  rw [List.length_map] at hlocals
  simp only [Function.locals, codeSize_append] at hsize ⊢
  omega

theorem Program.slots_le_size (resolve : TextPart → UInt32) {p : Program} {code : List Code}
    {slots : Nat} (h : p.emit = .ok (code, slots)) : slots ≤ codeSize resolve code := by
  have hsize := (Program.emit_eq_ok h).slots_le_size resolve
  omega

end Stampline
