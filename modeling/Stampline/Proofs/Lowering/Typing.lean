import Stampline.Lowering.Lower
import Stampline.Proofs.Lowering.Operators
import Stampline.Proofs.Lowering.Shape
import Stampline.Proofs.Wasm.Typing

/-!
# Emitted code is well typed

An expression pushes one word of 64 bits and a statement leaves the operands as they are. Behind a
statement that returns, the operands are open at the bottom; as a statement needs none, the code
behind it is well typed all the same.
-/

namespace Stampline

open Wasm (Operands Leads Context Instr slotType?)

variable {site : Site} {slots : Nat} {ctx : Context} {labels : List (List Wasm.ValueType)}
  {s : Operands}

/-- The context has what code with `slots` slots refers to. -/
structure Suits (site : Site) (slots : Nat) (ctx : Context) : Prop where
  slot : ∀ k, k < slots → slotType? ctx.locals k = some .i64
  host : ∀ f : HostFunction, ctx.funcs[f.index]? = some f.type
  func : ∀ index f, site.functions[index]? = some f →
    ctx.funcs[HostFunction.count + index]? = some (typeOfArity f.params.length)
  results : site.inFunction = true → ctx.results = [.i64]

/-! ## Pieces of code -/

theorem leads_const (value : Int64) : Leads ctx labels [(.const64 value : Code)] s (s.push .i64) :=
  .one rfl

theorem leads_drop : Leads ctx labels [(.drop : Code)] (s.push .i64) s := .one rfl

theorem leads_pushText (text : String) :
    Leads ctx labels (pushText text) s ((s.push .i32).push .i32) :=
  .cons rfl (.one rfl)

theorem leads_binary (op : BinaryOp) :
    Leads ctx labels [op.code] ((s.push .i64).push .i64) (s.push .i64) :=
  BinaryOp.code_eq op ▸ Leads.numeric (.arith .w64 op.word)

theorem leads_compare (op : Comparison) :
    Leads ctx labels [op.code] ((s.push .i64).push .i64) (s.push .i32) :=
  Comparison.code_eq op ▸ Leads.numeric (.compare .w64 op.word)

theorem leads_extend :
    Leads ctx labels [(.numeric (.extend false) : Code)] (s.push .i32) (s.push .i64) :=
  Leads.numeric (.extend false)

theorem leads_isZero :
    Leads ctx labels [(.numeric (.isZero .w64) : Code)] (s.push .i64) (s.push .i32) :=
  Leads.numeric (.isZero .w64)

theorem leads_flatten : ∀ {parts : List (List Code)},
    (∀ part ∈ parts, Leads ctx labels part s s) → Leads ctx labels parts.flatten s s
  | [], _ => .nil
  | part :: parts, h => by
    rw [List.flatten_cons]
    exact (h part (by simp)).append (leads_flatten fun q hq => h q (by simp [hq]))

namespace Suits

variable (hctx : Suits site slots ctx)
include hctx

theorem leads_printText (text : String) : Leads ctx labels (printText text) s s := by
  unfold printText
  split
  · exact .nil
  · exact (leads_pushText text).append (Leads.call (hctx.host .printText))

theorem leads_call {index : Nat} {f : Function} (hf : site.functions[index]? = some f) :
    Leads ctx labels [(.call (HostFunction.count + index) : Code)]
      (s.pushAll (List.replicate f.params.length .i64)) (s.push .i64) :=
  Leads.call (hctx.func index f hf)

theorem leads_pushBound {f : Function} {given : Nat} {keywords : List Keyword}
    {positions temps : List Nat} (h : BindsAll f given keywords positions)
    (hlength : temps.length = given + keywords.length) (htemps : ∀ t ∈ temps, t < slots) :
    Leads ctx labels (pushBound f.params.length positions temps) s
      (s.pushAll (List.replicate f.params.length .i64)) := by
  have : ∀ (ps : List Nat) (s : Operands), (∀ p ∈ ps, p < f.params.length) → Leads ctx labels
      (ps.map fun p => (.localGet (((positions.zip temps).lookup p).getD 0) : Code)) s
      (s.pushAll (List.replicate ps.length .i64)) := by
    intro ps
    induction ps with
    | nil => exact fun s _ => .nil
    | cons p ps ih =>
      intro s hps
      obtain ⟨t, ht, hlookup⟩ := h.lookup_temp hlength (hps p (by simp))
      rw [List.length_cons, List.replicate_succ, Operands.pushAll_cons, List.map_cons, hlookup]
      exact (Leads.localGet (hctx.slot t (htemps t ht))).append
        (ih _ fun q hq => hps q (by simp [hq]))
  simpa [pushBound] using this (List.range f.params.length) s fun p hp => List.mem_range.1 hp

theorem leads_printCode {separator terminator : String} {places : List Printed}
    (hplaces : PlacesBelow slots places) :
    Leads ctx labels (printCode separator terminator places) s s := by
  refine (leads_flatten fun part hpart => ?_).append (hctx.leads_printText terminator)
  rcases mem_intersperse hpart with hpart | rfl
  · obtain ⟨place, hmem, rfl⟩ := List.mem_map.1 hpart
    cases place with
    | text value => exact hctx.leads_printText value
    | slot index =>
      exact (Leads.localGet (hctx.slot index (hplaces index hmem))).append
        (Leads.call (s := s) (hctx.host .printInt))
  · exact hctx.leads_printText separator

end Suits

/-! ## Expressions -/

mutual

theorem ExprCode.leads {e : Expr} {n m : Nat} {code : List Code} (hctx : Suits site slots ctx)
    (hlocals : site.locals.length ≤ slots) (hm : m ≤ slots) (labels : List (List Wasm.ValueType))
    (s : Operands) :
    ExprCode site e n code m → Leads ctx labels code s (s.push .i64)
  | .number => leads_const _
  | .local hid => Leads.localGet
      (hctx.slot _ (Nat.lt_of_lt_of_le (List.idxOf?_eq_some_iff.1 hid).1 hlocals))
  | .global _ _ => (leads_pushText _).append (Leads.call (hctx.host .readGlobal))
  | .call _ hf hbind hargs => by
    have harity := (bindArguments_eq_ok hbind).arity
    rw [List.length_nil, Nat.add_zero] at harity
    refine (hargs.leads hctx hlocals hm labels s).append ?_
    rw [harity]
    exact hctx.leads_call hf
  | .callBound _ hf _ hbind hargs hvalues => by
    have hle := hvalues.slots_le
    have htemps : ∀ t ∈ _ ++ _, t < slots := fun t ht => (List.mem_append.1 ht).elim
      (fun ht => by have := hargs.temps_lt t ht; omega)
      (fun ht => by have := hvalues.temps_lt t ht; omega)
    refine (((hargs.leads hctx hlocals (by omega) labels s).append
      (hvalues.leads hctx hlocals hm labels s)).append
      (hctx.leads_pushBound (bindArguments_eq_ok hbind) ?_ htemps)).append (hctx.leads_call hf)
    rw [List.length_append, hargs.length_temps, hvalues.length_temps, List.length_map]
  | .print _ _ hargs =>
    ((hargs.leads hctx hlocals hm labels s).append (hctx.leads_printCode fun index hindex =>
      Nat.lt_of_lt_of_le (hargs.placesBelow index hindex) hm)).append (leads_const 0)
  | .binary hleft hright =>
    ((hleft.leads hctx hlocals (Nat.le_trans hright.slots_le hm) labels s).append
      (hright.leads hctx hlocals hm labels (s.push .i64))).append (leads_binary _)
  | .negate hoperand =>
    ((leads_const 0).append (hoperand.leads hctx hlocals hm labels (s.push .i64))).append
      (leads_binary .sub)
  | .compare hleft hright =>
    ((hleft.leads hctx hlocals (Nat.le_trans hright.slots_le hm) labels s).append
      (hright.leads hctx hlocals hm labels (s.push .i64))).append
      ((leads_compare _).append leads_extend)

theorem ArgsCode.leads {es : List Expr} {n m : Nat} {code : List Code}
    (hctx : Suits site slots ctx) (hlocals : site.locals.length ≤ slots) (hm : m ≤ slots)
    (labels : List (List Wasm.ValueType)) (s : Operands) : ArgsCode site es n code m →
      Leads ctx labels code s (s.pushAll (List.replicate es.length .i64))
  | .nil => .nil
  | .cons hhead htail => by
    rw [List.length_cons, List.replicate_succ, Operands.pushAll_cons]
    exact (hhead.leads hctx hlocals (Nat.le_trans htail.slots_le hm) labels s).append
      (htail.leads hctx hlocals hm labels (s.push .i64))

theorem StoredCode.leads {es : List Expr} {n m : Nat} {code : List Code} {temps : List Nat}
    (hctx : Suits site slots ctx) (hlocals : site.locals.length ≤ slots) (hm : m ≤ slots)
    (labels : List (List Wasm.ValueType)) (s : Operands) :
    StoredCode site es n code temps m → Leads ctx labels code s s
  | .nil => .nil
  | .cons hhead htail => by
    have hk := htail.slots_le
    exact (hhead.leads hctx hlocals (by omega) labels s).append
      ((Leads.localSet (hctx.slot _ (by omega))).append (htail.leads hctx hlocals hm labels s))

theorem PrintedCode.leads {es : List Expr} {n m : Nat} {code : List Code} {places : List Printed}
    (hctx : Suits site slots ctx) (hlocals : site.locals.length ≤ slots) (hm : m ≤ slots)
    (labels : List (List Wasm.ValueType)) (s : Operands) :
    PrintedCode site es n code places m → Leads ctx labels code s s
  | .nil => .nil
  | .text htail => htail.leads hctx hlocals hm labels s
  | .value _ hhead htail => by
    have hk := htail.slots_le
    exact (hhead.leads hctx hlocals (by omega) labels s).append
      ((Leads.localSet (hctx.slot _ (by omega))).append (htail.leads hctx hlocals hm labels s))

end

/-! ## Statements -/

/-- The code needs no operands and leaves none, whatever may lie below. -/
def LeadsOn (ctx : Context) (labels : List (List Wasm.ValueType)) (code : List Code) : Prop :=
  ∀ isOpen, ∃ isOpen', Leads ctx labels code ⟨[], isOpen⟩ ⟨[], isOpen'⟩

theorem LeadsOn.append {a b : List Code} (ha : LeadsOn ctx labels a) (hb : LeadsOn ctx labels b) :
    LeadsOn ctx labels (a ++ b) := fun isOpen => by
  obtain ⟨isOpen', ha⟩ := ha isOpen
  obtain ⟨isOpen'', hb⟩ := hb isOpen'
  exact ⟨isOpen'', ha.append hb⟩

theorem Leads.on {code : List Code}
    (h : ∀ isOpen, Leads ctx labels code ⟨[], isOpen⟩ ⟨[], isOpen⟩) : LeadsOn ctx labels code :=
  fun isOpen => ⟨isOpen, h isOpen⟩

theorem Suits.leadsOn_ret (hctx : Suits site slots ctx) (hin : site.inFunction = true)
    {code : List Code} (hcode : ∀ s, Leads ctx labels code s (s.push .i64)) :
    LeadsOn ctx labels (code ++ [.ret]) := fun isOpen =>
  ⟨true, (hcode _).append (.one (by
    simp [Wasm.checkInstr, Wasm.checkPlain, hctx.results hin, Operands.popAll, Operands.pop_push,
      Operands.unreachable]))⟩

/-- The test of a branch. -/
theorem leads_test {code : List Code} (hcode : Leads ctx labels code s (s.push .i64)) :
    Leads ctx labels (code ++ [.const64 0, Comparison.code .notEqual]) s (s.push .i32) :=
  hcode.append ((leads_const 0).append (leads_compare .notEqual))

/-- One turn of a loop: the test, the branch out of the loop, the body and the branch back. -/
theorem leads_turn {test body : List Code}
    (htest : ∀ s, Leads ctx ([] :: [] :: labels) test s (s.push .i64))
    (hbody : LeadsOn ctx ([] :: [] :: labels) body) :
    Leads ctx ([] :: [] :: labels) (test ++ [.numeric (.isZero .w64), .brIf 1] ++ body ++ [.br 0])
      {} ⟨[], true⟩ := by
  obtain ⟨isOpen, hbody⟩ := hbody false
  refine ((Leads.append (htest _) ?_).append hbody).append (.one rfl)
  exact leads_isZero.append (.one rfl)

mutual

theorem StmtCode.leadsOn {st : Stmt} {n m : Nat} {code : List Code} (hctx : Suits site slots ctx)
    (hlocals : site.locals.length ≤ slots) (hm : m ≤ slots) (labels : List (List Wasm.ValueType)) :
    StmtCode site st n code m → LeadsOn ctx labels code
  | .define | .pass => Leads.on fun _ => .nil
  | .giveZero hin => hctx.leadsOn_ret hin fun _ => leads_const 0
  | .give hin hvalue => hctx.leadsOn_ret hin fun s => hvalue.leads hctx hlocals hm labels s
  | .assignLocal htarget hvalue => Leads.on fun isOpen =>
    (hvalue.leads hctx hlocals hm labels _).append (Leads.localSet
      (hctx.slot _ (Nat.lt_of_lt_of_le (List.idxOf?_eq_some_iff.1 htarget).1 hlocals)))
  | .assignGlobal _ hvalue => Leads.on fun isOpen =>
    ((leads_pushText _).append (hvalue.leads hctx hlocals hm labels _)).append
      (Leads.call (s := ⟨[], isOpen⟩) (hctx.host .writeGlobal))
  | .eval hvalue => Leads.on fun isOpen => (hvalue.leads hctx hlocals hm labels _).append leads_drop
  | .when htest _ hbody => Leads.on fun isOpen => by
    obtain ⟨isOpen', hbody'⟩ := hbody.leadsOn hctx hlocals hm ([] :: labels) false
    have htest := htest.leads hctx hlocals (Nat.le_trans hbody.slots_le hm)
      labels ⟨[], isOpen⟩
    simpa using (leads_test htest).append (Leads.when hbody')
  | .choose htest _ hbody _ horelse => Leads.on fun isOpen => by
    have hle := Nat.le_trans horelse.slots_le hm
    obtain ⟨isOpen', hbody'⟩ := hbody.leadsOn hctx hlocals hle ([] :: labels) false
    obtain ⟨isOpen'', horelse'⟩ := horelse.leadsOn hctx hlocals hm ([] :: labels) false
    have htest := htest.leads hctx hlocals (Nat.le_trans hbody.slots_le hle)
      labels ⟨[], isOpen⟩
    simpa using (leads_test htest).append (Leads.choose hbody' horelse')
  | .loop htest _ hbody => Leads.on fun isOpen => Leads.loop
    (leads_turn (fun s => htest.leads hctx hlocals (Nat.le_trans hbody.slots_le hm) _ s)
      (hbody.leadsOn hctx hlocals hm _))

theorem BlockCode.leadsOn {ss : List Stmt} {n m : Nat} {code : List Code}
    (hctx : Suits site slots ctx) (hlocals : site.locals.length ≤ slots) (hm : m ≤ slots)
    (labels : List (List Wasm.ValueType)) : BlockCode site ss n code m → LeadsOn ctx labels code
  | .nil => Leads.on fun _ => .nil
  | .cons hhead htail =>
    (hhead.leadsOn hctx hlocals (Nat.le_trans htail.slots_le hm) labels).append
      (htail.leadsOn hctx hlocals hm labels)

end

end Stampline
