import Stampline.Lowering.Lower
import Stampline.Proofs.Lowering.Arguments
import Stampline.Proofs.Lowering.Follows
import Stampline.Proofs.Wasm.Structured

/-!
# Programs in the machine

What is known of an instance that a program was loaded into, and what its code can rely on: the host
reads texts back from where they lie, and its functions do what their names say. The slots of a
frame hold the locals of the evaluation, each at the place of its name.
-/

namespace Stampline

open Wasm (Instance State Room Value Config Outcome Ends CallEnds mapInstrs constantsOf
  mapInstrs_append constantsOf_append)

/-- The host reads a text from the place at which `resolve` says that it lies. -/
def ReadsBack (inst : Instance) (s : State) (resolve : TextPart → UInt32) (text : String) : Prop :=
  ∃ m, inst.hostMemory s = some m ∧
    m.readText (resolve (.offset text)).toNat (resolve (.size text)).toNat = .ok text

/-- A program in the machine: an instance, the state in which it is before the program runs, and
what the instance has of the program. -/
structure Loaded where
  /-- The functions of the program. -/
  functions : List Function
  /-- The instance. -/
  inst : Instance
  /-- The state at first. -/
  state : State
  /-- The environment at first. -/
  base : Environment
  /-- Where texts lie. -/
  resolve : TextPart → UInt32
  hosts : ∀ f : HostFunction, inst.callees[f.index]? = some (.host f)
  nodup_params : ∀ f ∈ functions, f.paramNames.Nodup
  codes : ∀ index f, functions[index]? = some f → ∃ code slots,
    f.emit functions = .ok (code, slots) ∧
    inst.callees[HostFunction.count + index]? = some (.code (typeOfArity f.params.length)
      (List.replicate (slots - f.params.length) (.i64 0)) (mapInstrs resolve code)) ∧
    ∀ text, TextPart.offset text ∈ constantsOf code → ReadsBack inst state resolve text

namespace Loaded

variable {L : Loaded}

/-- The state in an environment. -/
def inEnv (L : Loaded) (env : Environment) : State := { L.state with env }

@[simp] theorem env_inEnv {stack : List Value} {locals : Array Value} {env : Environment} :
    Config.env ⟨stack, locals, L.inEnv env⟩ = env := rfl

/-- The state in which the evaluation of the program has come to a store. -/
abbrev stateAt (L : Loaded) (σ : Store) : State := L.inEnv (L.base.after σ)

/-- All texts that code refers to can be read. -/
def Reads (L : Loaded) (code : List Code) : Prop :=
  ∀ text, TextPart.offset text ∈ constantsOf code → ReadsBack L.inst L.state L.resolve text

theorem reads_append {a b : List Code} : L.Reads (a ++ b) ↔ L.Reads a ∧ L.Reads b := by
  simp only [Reads, constantsOf_append, List.mem_append, or_imp, forall_and]

theorem reads_pushText {text : String} (h : L.Reads (pushText text)) :
    ReadsBack L.inst L.state L.resolve text :=
  h text (by simp [pushText, constantsOf, Wasm.Instr.constants])

/-! The texts of a conditional or of a loop are those of the code inside. -/

section Inside

variable {test body orelse : List Code}

theorem reads_when :
    L.Reads [.const64 0, Comparison.code .notEqual, .when .none body] ↔ L.Reads body := by
  simp [Reads, constantsOf, Wasm.Instr.constants, Comparison.code]

theorem reads_choose :
    L.Reads [.const64 0, Comparison.code .notEqual, .choose .none body orelse] ↔
      L.Reads body ∧ L.Reads orelse := by
  simp [Reads, constantsOf, Wasm.Instr.constants, Comparison.code, or_imp, forall_and]

theorem reads_loop : L.Reads [.block .none [.loop .none body]] ↔ L.Reads body := by
  simp [Reads, constantsOf, Wasm.Instr.constants]

theorem reads_round :
    L.Reads (test ++ [.numeric (.isZero .w64), .brIf 1] ++ body ++ [.br 0]) ↔
      L.Reads test ∧ L.Reads body := by
  simp [Reads, constantsOf, constantsOf_append, Wasm.Instr.constants, or_imp, forall_and]

end Inside

/-! ## Calls of the host -/

section Host

variable {bound : Nat} {room : Room} {is : List (Wasm.Instr UInt32)} {stack : List Value}
  {locals : Array Value} {env : Environment} {post : Outcome → Prop}

/-- What is behind the call of a function of the host goes on behind what the function does. -/
theorem ends_host (f : HostFunction) {c : Config}
    (h : Outcome.OrElse (Ends L.inst bound room is · post) post
      (Wasm.HostFunction.call f (L.inst.hostMemory c.state) c)) :
    Ends L.inst bound room (.call f.index :: is) c post :=
  .call (.host (L.hosts f) h)

theorem ends_pushText {text : String}
    (h : Ends L.inst bound room is ⟨.i32 (L.resolve (.size text)) ::
      .i32 (L.resolve (.offset text)) :: stack, locals, L.inEnv env⟩ post) :
    Ends L.inst bound room (mapInstrs L.resolve (pushText text) ++ is)
      ⟨stack, locals, L.inEnv env⟩ post :=
  .const32 (.const32 h)

theorem ends_readGlobal {id : String} (hid : ReadsBack L.inst L.state L.resolve id)
    (hnone : env.global? id = none → post (.fault (.undefinedName id) env))
    (hsome : ∀ v, env.global? id = some v →
      Ends L.inst bound room is ⟨.i64 v :: stack, locals, L.inEnv env⟩ post) :
    Ends L.inst bound room (.call HostFunction.readGlobal.index :: is)
      ⟨.i32 (L.resolve (.size id)) :: .i32 (L.resolve (.offset id)) :: stack, locals,
        L.inEnv env⟩ post := by
  obtain ⟨m, hm, hread⟩ := hid
  have hm : L.inst.hostMemory (L.inEnv env) = some m := hm
  refine ends_host .readGlobal ?_
  cases hv : env.global? id with
  | none =>
    simp only [Wasm.HostFunction.call, hm, hread, env_inEnv, hv]
    exact hnone hv
  | some v =>
    simp only [Wasm.HostFunction.call, hm, hread, env_inEnv, hv]
    exact hsome v hv

theorem ends_writeGlobal {id : String} {v : Int64} (hid : ReadsBack L.inst L.state L.resolve id)
    (h : Ends L.inst bound room is ⟨stack, locals, L.inEnv (env.setGlobal id v)⟩ post) :
    Ends L.inst bound room (.call HostFunction.writeGlobal.index :: is)
      ⟨.i64 v :: .i32 (L.resolve (.size id)) :: .i32 (L.resolve (.offset id)) :: stack, locals,
        L.inEnv env⟩ post := by
  obtain ⟨m, hm, hread⟩ := hid
  have hm : L.inst.hostMemory (L.inEnv env) = some m := hm
  refine ends_host .writeGlobal ?_
  simp only [Wasm.HostFunction.call, hm, hread, env_inEnv]
  exact h

theorem ends_printInt {v : Int64}
    (h : Ends L.inst bound room is ⟨stack, locals, L.inEnv (env.write (toString v.toInt))⟩ post) :
    Ends L.inst bound room (.call HostFunction.printInt.index :: is)
      ⟨.i64 v :: stack, locals, L.inEnv env⟩ post :=
  ends_host .printInt h

theorem ends_printText {text : String} (hreads : L.Reads (printText text))
    (h : Ends L.inst bound room is ⟨stack, locals, L.inEnv (env.write text)⟩ post) :
    Ends L.inst bound room (mapInstrs L.resolve (printText text) ++ is)
      ⟨stack, locals, L.inEnv env⟩ post := by
  unfold printText at hreads ⊢
  split
  · rename_i hempty
    obtain rfl : text = "" := String.isEmpty_iff.1 hempty
    simpa [Environment.write, mapInstrs] using h
  · rename_i hempty
    rw [if_neg hempty] at hreads
    obtain ⟨m, hm, hread⟩ := reads_pushText (reads_append.1 hreads).1
    have hm : L.inst.hostMemory (L.inEnv env) = some m := hm
    rw [mapInstrs_append, List.append_assoc]
    refine ends_pushText (ends_host .printText ?_)
    simp only [Wasm.HostFunction.call, hm, hread, env_inEnv]
    exact h

end Host

end Loaded

/-! ## Frames -/

/-- Two arrays of slots are equal below the slot `n`. -/
structure SameBelow (n : Nat) (before after : Array Value) : Prop where
  size : after.size = before.size
  slots : ∀ i, i < n → after[i]? = before[i]?

namespace SameBelow

variable {n m : Nat} {a b c : Array Value}

theorem refl (n : Nat) (a : Array Value) : SameBelow n a a := ⟨rfl, fun _ _ => rfl⟩

theorem trans (h₁ : SameBelow n a b) (h₂ : SameBelow m b c) (hle : n ≤ m) : SameBelow n a c :=
  ⟨h₂.size.trans h₁.size, fun i hi => (h₂.slots i (by omega)).trans (h₁.slots i hi)⟩

theorem set (slot : Nat) (v : Value) (hle : n ≤ slot) (a : Array Value) :
    SameBelow n a (a.setIfInBounds slot v) :=
  ⟨by simp, fun i hi => by rw [Array.getElem?_setIfInBounds_ne (by omega)]⟩

end SameBelow

/-- The slots of a frame hold the locals of an evaluation, each at the place of its name, and have
room for temporaries up to the slot `m`. -/
structure Framed (names : List String) (b : Bindings) (m : Nat) (slots : Array Value) : Prop where
  length_le : names.length ≤ slots.size
  size : m ≤ slots.size
  holds : ∀ id slot, names.idxOf? id = some slot →
    ∃ v, b.get? id = some v ∧ slots[slot]? = some (.i64 v)
  free : ∀ id, names.idxOf? id = none → b.get? id = none

theorem lt_length_of_idxOf?_eq_some {names : List String} {id : String} {slot : Nat}
    (h : names.idxOf? id = some slot) : slot < names.length :=
  (List.idxOf?_eq_some_iff.1 h).1

namespace Framed

variable {names : List String} {b : Bindings} {m n : Nat} {slots slots' : Array Value}

theorem of_sameBelow (h : Framed names b m slots) (hsame : SameBelow n slots slots')
    (hle : names.length ≤ n) : Framed names b m slots' where
  length_le := hsame.size ▸ h.length_le
  size := hsame.size ▸ h.size
  holds id slot hid := by
    obtain ⟨v, hv, hslot⟩ := h.holds id slot hid
    have := lt_length_of_idxOf?_eq_some hid
    exact ⟨v, hv, (hsame.slots slot (by omega)).trans hslot⟩
  free := h.free

theorem of_le (h : Framed names b m slots) (hle : n ≤ m) : Framed names b n slots :=
  { h with size := Nat.le_trans hle h.size }

/-- A local and its slot are set together. -/
theorem set (h : Framed names b m slots) {id : String} {slot : Nat}
    (hid : names.idxOf? id = some slot) (v : Int64) :
    Framed names (b.set id v) m (slots.setIfInBounds slot (.i64 v)) where
  length_le := by simpa using h.length_le
  size := by simpa using h.size
  holds other k hk := by
    rw [Bindings.get?_set]
    by_cases hother : other = id
    · subst hother
      obtain rfl : slot = k := Option.some.inj (hid.symm.trans hk)
      have := lt_length_of_idxOf?_eq_some hid
      have := h.length_le
      exact ⟨v, if_pos rfl, by rw [Array.getElem?_setIfInBounds_self_of_lt (by omega)]⟩
    · obtain ⟨hlt, hname, -⟩ := List.idxOf?_eq_some_iff.1 hid
      obtain ⟨hlt', hname', -⟩ := List.idxOf?_eq_some_iff.1 hk
      have hne : slot ≠ k := by
        rintro rfl
        exact hother (hname'.symm.trans hname)
      rw [if_neg hother, Array.getElem?_setIfInBounds_ne hne]
      exact h.holds other k hk
  free other hother := by
    have hne : other ≠ id := by
      rintro rfl
      simp [hid] at hother
    rw [Bindings.get?_set, if_neg hne]
    exact h.free other hother

end Framed

end Stampline
