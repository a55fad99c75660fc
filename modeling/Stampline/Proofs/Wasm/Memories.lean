import Stampline.Proofs.Wasm.Invariants
import Stampline.Proofs.Wasm.Structured

/-!
# Code that leaves the memories alone

Memories are written and grown by a few instructions and by nothing else. Where an instance has none of
these in its code, its memories are what they were when it was made, wherever a run has come to.
-/

namespace Stampline.Wasm

variable {ι : Type}

/-- An instruction that neither writes to a memory nor grows one. -/
def Instr.SparesMemories : Instr ι → Prop
  | .store .. | .memoryGrow _ | .memoryFill _ | .memoryCopy .. | .memoryInit .. => False
  | _ => True

/-- Code without any instruction that writes to a memory or grows one. -/
abbrev SparesMemories (is : List (Instr ι)) : Prop := Only Instr.SparesMemories is

/-- Structured code has no instructions that act on memories. -/
theorem Structured.sparesMemories {slots funcs : Nat} {is : List (Instr ι)}
    (h : Structured slots funcs is) : SparesMemories is := by
  induction h with
  | nil => trivial
  | @simple i is hi _ ih =>
    have hfirst : i.Only Instr.SparesMemories := by
      cases i with
      | const32 | const64 | drop | ret | localGet | localSet | call | numeric => trivial
      | _ => exact hi.elim
    exact ⟨hfirst, ih⟩
  | when _ _ ihbody ih => exact ⟨ihbody, ih⟩
  | choose _ _ _ ihbody ihorelse ih => exact ⟨⟨ihbody, ihorelse⟩, ih⟩
  | loop _ _ _ ihtest ihbody ih =>
    have hleave : SparesMemories (ι := ι) [.numeric (.isZero .w64), .brIf 1] :=
      ⟨trivial, trivial, trivial⟩
    have hagain : SparesMemories (ι := ι) [.br 0] := ⟨trivial, trivial⟩
    have hturn := ((ihtest.append hleave).append ihbody).append hagain
    exact ⟨⟨hturn, trivial⟩, ih⟩

/-! ## Steps -/

section Steps

variable {c : Config} {memories : Array Memory}

/-- What is left has the given memories, unless it is a fault. -/
abbrev Outcome.HasMemories (memories : Array Memory) (o : Outcome) : Prop :=
  o.Within (fun s => s.memories = memories) fun _ => True

theorem Config.hasMemories_yield (hc : c.state.memories = memories) (result : Except Fault Value)
    (stack : List Value) : (c.yield result stack).HasMemories memories := by
  cases result with
  | error f => trivial
  | ok v => exact hc

theorem Config.hasMemories_change {stack : List Value} {bound : Fault} {inBounds : Bool}
    {change : State → State} (h : (change c.state).memories = memories) :
    (c.change stack bound inBounds change).HasMemories memories := by
  cases inBounds with
  | false => trivial
  | true => exact h

theorem hasMemories_stepTable (i : Instr UInt32) (hc : c.state.memories = memories) :
    (stepTable i c).HasMemories memories := by
  unfold stepTable
  dsimp only
  split <;> try split
  all_goals first
    | trivial
    | exact hc
    | exact Config.hasMemories_yield hc _ _
    | exact Config.hasMemories_change hc
    | (split <;> first | trivial | exact hc | exact Config.hasMemories_change hc)

theorem hasMemories_stepMemory (i : Instr UInt32) (hi : i.SparesMemories)
    (hc : c.state.memories = memories) : (stepMemory i c).HasMemories memories := by
  unfold stepMemory
  dsimp only
  split <;> try split
  all_goals first
    | exact hi.elim
    | trivial
    | exact hc
    | exact hasMemories_stepTable _ hc
    | (split <;> trivial)

theorem hasMemories_step (i : Instr UInt32) (hi : i.SparesMemories)
    (hc : c.state.memories = memories) : (step i c).HasMemories memories := by
  unfold step
  split <;> try split
  all_goals first
    | trivial
    | exact hc
    | exact Config.hasMemories_yield hc _ _
    | exact hasMemories_stepMemory _ hi hc

/-- Functions of the host read memories at most. -/
theorem hasMemories_hostCall (f : HostFunction) (memory : Option Memory)
    (hc : c.state.memories = memories) :
    (HostFunction.call f memory c).HasMemories memories := by
  unfold HostFunction.call
  split
  · exact hc
  all_goals try (split <;> try split)
  all_goals first
    | trivial
    | exact hc
    | (split <;> trivial)

end Steps

/-- Memories are kept by an instance whose functions leave them alone. -/
theorem upholds_memories {inst : Instance} {memories : Array Memory}
    (h : ∀ (func : Nat) (type : FuncType) (locals : List Value) (body : List (Instr UInt32)),
      inst.callees[func]? = some (.code type locals body) → SparesMemories body) :
    Upholds inst Instr.SparesMemories (fun s => s.memories = memories) fun _ => True where
  stop _ _ := trivial
  step i _ hi hc := hasMemories_step i hi hc
  host f memory _ hc := hasMemories_hostCall f memory hc
  code func type locals body hbody := h func type locals body hbody

end Stampline.Wasm
