import Stampline.Wasm.Instance

/-!
# Invariants of runs

What holds of the state of an instance throughout a run: it holds at first, and every instruction of
the code and every function of the host keeps it. A certificate of the code says which instructions it
is made of. The certificate goes down into the bodies of instructions, so that it need not be proved
again for a part of the code.
-/

namespace Stampline.Wasm

/-- What code leaves behind: a state of which `P` holds or, after a fault, an environment of which `Q`
holds. -/
def Outcome.Within (P : State → Prop) (Q : Environment → Prop) : Outcome → Prop
  | .next c | .branch _ c | .leave c | .tail _ c => P c.state
  | .fault _ env => Q env
  | .stuck | .unfinished => True

section Certificates

variable {ι κ : Type}

mutual

/-- An instruction is made of instructions without a body of which `plain` holds, calls aside. -/
def Instr.Only (plain : Instr ι → Prop) : Instr ι → Prop
  | .block _ body | .loop _ body | .when _ body => Only plain body
  | .choose _ body orelse => Only plain body ∧ Only plain orelse
  | .call _ | .tailCall _ | .callIndirect .. | .tailCallIndirect .. => True
  | i => plain i

/-- The same for every instruction of some code. -/
def Only (plain : Instr ι → Prop) : List (Instr ι) → Prop
  | [] => True
  | i :: is => i.Only plain ∧ Only plain is

end

variable {plain : Instr ι → Prop} {is js : List (Instr ι)}

theorem Only.append (his : Only plain is) (hjs : Only plain js) : Only plain (is ++ js) := by
  induction is with
  | nil => exact hjs
  | cons i is ih => exact ⟨his.1, ih his.2⟩

mutual

/-- Any instruction is made of any instructions. -/
theorem Instr.only_all (i : Instr ι) : i.Only fun _ => True := by
  cases i with
  | block type body | loop type body | when type body => exact Wasm.only_all body
  | choose type body orelse => exact ⟨Wasm.only_all body, Wasm.only_all orelse⟩
  | _ => trivial

theorem only_all : ∀ is : List (Instr ι), Only (fun _ => True) is
  | [] => trivial
  | i :: is => ⟨i.only_all, only_all is⟩

end

end Certificates

section Outcomes

variable {P : State → Prop} {Q : Environment → Prop} {o : Outcome}

theorem Outcome.Within.leaveBlock (h : o.Within P Q) (count : Nat) (below : List Value) :
    (leaveBlock count below o).Within P Q := by
  cases o with
  | branch depth c => cases depth <;> exact h
  | _ => exact h

theorem Outcome.Within.returnTo (h : o.Within P Q) (locals : Array Value) (below : List Value)
    (results : Nat) : (returnTo locals below results o).Within P Q := by
  have hback (c : Config) (hc : P c.state) :
      (if results ≤ c.stack.length then Outcome.next ⟨c.stack.take results ++ below, locals, c.state⟩
        else .stuck).Within P Q := by
    split
    · exact hc
    · trivial
  cases o with
  | next c | leave c => exact hback c h
  | branch depth c =>
    cases depth with
    | zero => exact hback c h
    | succ depth => trivial
  | _ => exact h

theorem within_tail {inst : Instance} {func : Nat} {c : Config} (h : P c.state) :
    (inst.tail func c).Within P Q := by
  unfold Instance.tail
  split
  · exact h
  · trivial

end Outcomes

/-! ## Runs -/

/-- The functions of an instance keep `P`, and where they fault they leave an environment of which `Q`
holds: those of the host, and those of the module in that their code is certified. -/
structure Upholds (inst : Instance) (plain : Instr UInt32 → Prop) (P : State → Prop)
    (Q : Environment → Prop) : Prop where
  stop : ∀ s, P s → Q s.env
  step : ∀ i c, plain i → P c.state → (step i c).Within P Q
  host : ∀ f memory c, P c.state → (HostFunction.call f memory c).Within P Q
  code : ∀ (func : Nat) type locals body,
    inst.callees[func]? = some (.code type locals body) → Only plain body

/-- With so much fuel, certified code and functions keep `P`. -/
structure UpheldWithin (inst : Instance) (plain : Instr UInt32 → Prop) (P : State → Prop)
    (Q : Environment → Prop) (fuel : Nat) : Prop where
  exec : ∀ room i c, i.Only plain → P c.state → (exec inst fuel room i c).Within P Q
  execAll : ∀ room is c, Only plain is → P c.state → (execAll inst fuel room is c).Within P Q
  invoke : ∀ room func c, P c.state → (invoke inst fuel room func c).Within P Q

namespace UpheldWithin

variable {inst : Instance} {plain : Instr UInt32 → Prop} {P : State → Prop}
  {Q : Environment → Prop} {fuel : Nat}

theorem exec_succ (hupholds : Upholds inst plain P Q) (h : UpheldWithin inst plain P Q fuel)
    (room : Room) (i : Instr UInt32) (c : Config) (hi : i.Only plain) (hc : P c.state) :
    (Wasm.exec inst (fuel + 1) room i c).Within P Q := by
  cases i with
  | block type body => exact (h.execAll room body c hi hc).leaveBlock _ _
  | loop type body =>
    have hbody := h.execAll room body c hi hc
    unfold Wasm.exec
    dsimp only
    split
    · next after hafter =>
      rw [hafter] at hbody
      exact h.exec room _ _ hi hbody
    · exact hbody.leaveBlock _ _
  | when type body =>
    unfold Wasm.exec
    dsimp only
    split
    · split
      · exact hc
      · refine (h.execAll room body _ hi ?_).leaveBlock _ _
        exact hc
    · trivial
  | choose type body orelse =>
    unfold Wasm.exec
    dsimp only
    split
    · next test stack _ =>
      have htaken : Only plain (if test = 0 then orelse else body) := by
        split
        · exact hi.2
        · exact hi.1
      refine (h.execAll room _ _ htaken ?_).leaveBlock _ _
      exact hc
    · trivial
  | call func => exact h.invoke room func c hc
  | callIndirect type table =>
    unfold Wasm.exec
    dsimp only
    split
    · trivial
    · split
      · trivial
      · exact hupholds.stop _ hc
      · exact h.invoke room _ _ hc
  | tailCall func => exact within_tail hc
  | tailCallIndirect type table =>
    unfold Wasm.exec
    dsimp only
    split
    · trivial
    · split
      · trivial
      · exact hupholds.stop _ hc
      · exact within_tail hc
  | _ =>
    unfold Wasm.exec
    exact hupholds.step _ c hi hc

theorem execAll_succ (h : UpheldWithin inst plain P Q fuel) (room : Room)
    (is : List (Instr UInt32)) (c : Config) (his : Only plain is) (hc : P c.state) :
    (Wasm.execAll inst (fuel + 1) room is c).Within P Q := by
  cases is with
  | nil => exact hc
  | cons i is =>
    have hfirst := h.exec room i c his.1 hc
    unfold Wasm.execAll
    dsimp only
    split
    · next c' hc' =>
      rw [hc'] at hfirst
      exact h.execAll room is c' his.2 hfirst
    · exact hfirst

theorem invoke_succ (hupholds : Upholds inst plain P Q)
    (h : UpheldWithin inst plain P Q fuel) (room : Room) (func : Nat) (c : Config)
    (hc : P c.state) :
    (Wasm.invoke inst (fuel + 1) room func c).Within P Q := by
  unfold Wasm.invoke
  dsimp only
  split
  · trivial
  · next f hf => exact hupholds.host f _ c hc
  next type locals body hcode =>
    split
    · trivial
    split
    · exact hupholds.stop _ hc
    next inner _ =>
      have hbody := h.execAll inner body
        ⟨[], ((c.stack.take type.params.length).reverse ++ locals).toArray, c.state⟩
        (hupholds.code func type locals body hcode) hc
      split
      · next func after hafter =>
        rw [hafter] at hbody
        exact h.invoke room func _ hbody
      · exact hbody.returnTo _ _ _

end UpheldWithin

/-- The three functions of the machine call each other with less fuel. -/
theorem Upholds.within {inst : Instance} {plain : Instr UInt32 → Prop} {P : State → Prop}
    {Q : Environment → Prop} (h : Upholds inst plain P Q) (fuel : Nat) :
    UpheldWithin inst plain P Q fuel := by
  induction fuel with
  | zero => exact ⟨fun _ _ _ _ _ => trivial, fun _ _ _ _ _ => trivial, fun _ _ _ _ => trivial⟩
  | succ fuel ih => exact ⟨ih.exec_succ h, ih.execAll_succ, ih.invoke_succ h⟩

end Stampline.Wasm
