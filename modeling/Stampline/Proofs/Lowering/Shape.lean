import Stampline.Proofs.Lowering.Arguments
import Stampline.Proofs.Lowering.Emission
import Stampline.Proofs.Wasm.Structured

/-!
# The shape of emitted code

Emitted code is structured: its branches are those of its loops, it keeps to the slots that were
taken, and it calls functions that there are.
-/

namespace Stampline

open Wasm (Structured Instr Numeric)

variable {site : Site}

/-- Where the value of a parameter lies that is bound by position or by name. -/
theorem BindsAll.lookup_temp {f : Function} {given : Nat} {keywords : List Keyword}
    {positions temps : List Nat} (h : BindsAll f given keywords positions)
    (hlength : temps.length = given + keywords.length) {p : Nat} (hp : p < f.params.length) :
    ∃ t ∈ temps, (positions.zip temps).lookup p = some t := by
  obtain ⟨j, hj⟩ := List.mem_iff_getElem?.1 (h.perm.mem_iff.2 (List.mem_range.2 hp))
  have hlt := (List.getElem?_eq_some_iff.1 hj).1
  rw [h.length_positions, ← hlength] at hlt
  refine ⟨temps[j], List.getElem_mem hlt, ?_⟩
  rw [lookup_zip _ (h.perm.symm.nodup List.nodup_range) hj, List.getElem?_eq_getElem hlt]

/-- The number of functions of a module for which code is emitted, those of the host among them. -/
def Site.funcs (site : Site) : Nat := HostFunction.count + site.functions.length + 1

section Pieces

variable {slots : Nat}

theorem structured_const {slots funcs : Nat} (value : Int64) :
    Structured slots funcs [(.const64 value : Code)] := .simple trivial .nil

theorem structured_host (f : HostFunction) :
    Structured slots site.funcs [(.call f.index : Code)] :=
  .simple (by have := f.index_lt_count; simp only [Instr.Simple, Site.funcs]; omega) .nil

theorem structured_call {index : Nat} {f : Function} (hf : site.functions[index]? = some f) :
    Structured slots site.funcs [(.call (HostFunction.count + index) : Code)] := by
  have hlt := (List.getElem?_eq_some_iff.1 hf).1
  exact .simple (by simp only [Instr.Simple, Site.funcs]; omega) .nil

theorem structured_pushText {funcs : Nat} (text : String) :
    Structured slots funcs (pushText text) := .simple trivial (.simple trivial .nil)

theorem structured_printText (text : String) : Structured slots site.funcs (printText text) := by
  unfold printText
  split
  · exact .nil
  · exact (structured_pushText text).append (structured_host .printText)

theorem structured_flatten {funcs : Nat} : ∀ {parts : List (List Code)},
    (∀ part ∈ parts, Structured slots funcs part) → Structured slots funcs parts.flatten
  | [], _ => .nil
  | part :: parts, h => by
    rw [List.flatten_cons]
    exact (h part (by simp)).append (structured_flatten fun q hq => h q (by simp [hq]))

/-- The slots that are printed are below `slots`. -/
def PlacesBelow (slots : Nat) (places : List Printed) : Prop :=
  ∀ index, Printed.slot index ∈ places → index < slots

theorem mem_intersperse {α : Type} {sep : α} : ∀ {xs : List α} {x : α},
    x ∈ xs.intersperse sep → x ∈ xs ∨ x = sep
  | [], x, h => by simp at h
  | [y], x, h => .inl (by simpa using h)
  | y :: z :: xs, x, h => by
    rw [List.intersperse_cons_cons, List.mem_cons, List.mem_cons] at h
    rcases h with rfl | rfl | h
    · simp
    · simp
    · exact (mem_intersperse h).imp (fun h => by simp [List.mem_cons.1 h]) id

theorem structured_printCode {separator terminator : String} {places : List Printed}
    (hplaces : PlacesBelow slots places) :
    Structured slots site.funcs (printCode separator terminator places) := by
  refine (structured_flatten fun part hpart => ?_).append (structured_printText terminator)
  rcases mem_intersperse hpart with hpart | rfl
  · obtain ⟨place, hmem, rfl⟩ := List.mem_map.1 hpart
    cases place with
    | text value => exact structured_printText value
    | slot index => exact .simple (hplaces index hmem) (structured_host .printInt)
  · exact structured_printText separator

theorem structured_pushBound {funcs : Nat} {f : Function} {given : Nat} {keywords : List Keyword}
    {positions temps : List Nat} (h : BindsAll f given keywords positions)
    (hlength : temps.length = given + keywords.length) (htemps : ∀ t ∈ temps, t < slots) :
    Structured slots funcs (pushBound f.params.length positions temps) := by
  have : ∀ ps : List Nat, (∀ p ∈ ps, p < f.params.length) → Structured slots funcs
      (ps.map fun p => (.localGet (((positions.zip temps).lookup p).getD 0) : Code)) := by
    intro ps hps
    induction ps with
    | nil => exact .nil
    | cons p ps ih =>
      obtain ⟨t, ht, hlookup⟩ := h.lookup_temp hlength (hps p (by simp))
      refine .simple ?_ (ih fun q hq => hps q (by simp [hq]))
      show ((positions.zip temps).lookup p).getD 0 < slots
      rw [hlookup]
      exact htemps t ht
  exact this _ fun p hp => List.mem_range.1 hp

theorem BinaryOp.structured_code {funcs : Nat} (op : BinaryOp) :
    Structured slots funcs [op.code] := by
  cases op <;> exact .simple (show _ ∈ Numeric.listed by decide) .nil

theorem Comparison.structured_code {funcs : Nat} (op : Comparison) :
    Structured slots funcs [op.code] := by
  cases op <;> exact .simple (show _ ∈ Numeric.listed by decide) .nil

end Pieces

theorem PrintedCode.placesBelow {es : List Expr} {n m : Nat} {code : List Code}
    {places : List Printed} (h : PrintedCode site es n code places m) : PlacesBelow m places := by
  induction es generalizing n code places with
  | nil =>
    cases h
    intro index hindex
    simp at hindex
  | cons e es ih =>
    intro index hindex
    cases h with
    | text htail => exact ih htail index (by simpa using hindex)
    | value _ _ htail =>
      have := htail.slots_le
      rcases List.mem_cons.1 hindex with h | h
      · obtain rfl := Printed.slot.inj h
        omega
      · exact ih htail index h

/-! ## All code -/

mutual

theorem ExprCode.structured {e : Expr} {n m : Nat} {code : List Code}
    (hn : site.locals.length ≤ n) : ExprCode site e n code m → Structured m site.funcs code
  | .number => structured_const _
  | .local hid => .simple
      (Nat.lt_of_lt_of_le (List.idxOf?_eq_some_iff.1 hid).1 hn) .nil
  | .global _ _ => (structured_pushText _).append (structured_host .readGlobal)
  | .call _ hf _ hargs => (hargs.structured hn).append (structured_call hf)
  | .callBound _ hf _ hbind hargs hvalues => by
    have hle := hvalues.slots_le
    have htemps : ∀ t ∈ _ ++ _, t < m := fun t ht => (List.mem_append.1 ht).elim
      (fun ht => Nat.lt_of_lt_of_le (hargs.temps_lt t ht) hle) (hvalues.temps_lt t)
    have hbound : Structured m site.funcs (pushBound _ _ _) :=
      structured_pushBound (bindArguments_eq_ok hbind)
        (by rw [List.length_append, hargs.length_temps, hvalues.length_temps, List.length_map])
        htemps
    have hkeywords := hvalues.structured (Nat.le_trans hn hargs.slots_le)
    exact ((((hargs.structured hn).of_le hle).append hkeywords).append hbound).append
      (structured_call hf)
  | .print _ _ hargs =>
    ((hargs.structured hn).append (structured_printCode hargs.placesBelow)).append
      (structured_const 0)
  | .binary hleft hright =>
    (((hleft.structured hn).of_le hright.slots_le).append
      (hright.structured (Nat.le_trans hn hleft.slots_le))).append (BinaryOp.structured_code _)
  | .negate hoperand =>
    ((structured_const 0).append (hoperand.structured hn)).append (BinaryOp.structured_code .sub)
  | .compare hleft hright =>
    (((hleft.structured hn).of_le hright.slots_le).append
      (hright.structured (Nat.le_trans hn hleft.slots_le))).append
      ((Comparison.structured_code _).append (.simple (show _ ∈ Numeric.listed by decide) .nil))

theorem ArgsCode.structured {es : List Expr} {n m : Nat} {code : List Code}
    (hn : site.locals.length ≤ n) : ArgsCode site es n code m → Structured m site.funcs code
  | .nil => .nil
  | .cons hhead htail => ((hhead.structured hn).of_le htail.slots_le).append
      (htail.structured (Nat.le_trans hn hhead.slots_le))

theorem StoredCode.structured {es : List Expr} {n m : Nat} {code : List Code} {temps : List Nat}
    (hn : site.locals.length ≤ n) :
    StoredCode site es n code temps m → Structured m site.funcs code
  | .nil => .nil
  | .cons hhead htail => by
    have hk := hhead.slots_le
    have hm := htail.slots_le
    exact ((hhead.structured hn).of_le (by omega)).append
      (.simple (show _ < m by omega) (htail.structured (by omega)))

theorem PrintedCode.structured {es : List Expr} {n m : Nat} {code : List Code}
    {places : List Printed} (hn : site.locals.length ≤ n) :
    PrintedCode site es n code places m → Structured m site.funcs code
  | .nil => .nil
  | .text htail => htail.structured hn
  | .value _ hhead htail => by
    have hk := hhead.slots_le
    have hm := htail.slots_le
    exact ((hhead.structured hn).of_le (by omega)).append
      (.simple (show _ < m by omega) (htail.structured (by omega)))

end

mutual

theorem StmtCode.structured {s : Stmt} {n m : Nat} {code : List Code}
    (hn : site.locals.length ≤ n) : StmtCode site s n code m → Structured m site.funcs code
  | .define | .pass => .nil
  | .giveZero _ => .simple trivial (.simple trivial .nil)
  | .give _ hvalue => (hvalue.structured hn).append (.simple trivial .nil)
  | .assignLocal htarget hvalue => (hvalue.structured hn).append (.simple
      (Nat.lt_of_lt_of_le (List.idxOf?_eq_some_iff.1 htarget).1 (Nat.le_trans hn hvalue.slots_le))
      .nil)
  | .assignGlobal _ hvalue =>
    ((structured_pushText _).append (hvalue.structured hn)).append (structured_host .writeGlobal)
  | .eval hvalue => (hvalue.structured hn).append (.simple trivial .nil)
  | .when htest _ hbody =>
    ((htest.structured hn).of_le hbody.slots_le).append
      ((structured_const 0).append ((Comparison.structured_code .notEqual).append
        (.when (hbody.structured (Nat.le_trans hn htest.slots_le)) .nil)))
  | .choose htest _ hbody _ horelse => by
    have hk := htest.slots_le
    have hl := hbody.slots_le
    have hm := horelse.slots_le
    exact ((htest.structured hn).of_le (by omega)).append
      ((structured_const 0).append ((Comparison.structured_code .notEqual).append
        (.choose ((hbody.structured (by omega)).of_le hm) (horelse.structured (by omega)) .nil)))
  | .loop htest _ hbody =>
    .loop ((htest.structured hn).of_le hbody.slots_le)
      (hbody.structured (Nat.le_trans hn htest.slots_le)) .nil

theorem BlockCode.structured {ss : List Stmt} {n m : Nat} {code : List Code}
    (hn : site.locals.length ≤ n) : BlockCode site ss n code m → Structured m site.funcs code
  | .nil => .nil
  | .cons hhead htail => ((hhead.structured hn).of_le htail.slots_le).append
      (htail.structured (Nat.le_trans hn hhead.slots_le))

end

/-- The code of a function is structured. -/
theorem Function.structured_emit {functions : List Function} {f : Function} {code : List Code}
    {slots : Nat} (h : f.emit functions = .ok (code, slots)) :
    Structured slots (HostFunction.count + functions.length + 1) code := by
  obtain ⟨body, hbody, rfl⟩ := Function.emit_eq_ok h
  exact (hbody.structured (Nat.le_refl _)).append (structured_const 0)

/-- The code of a program is structured. -/
theorem Program.structured_emit {p : Program} {code : List Code} {slots : Nat}
    (h : p.emit = .ok (code, slots)) :
    Structured slots (HostFunction.count + p.functions.length + 1) code :=
  (Program.emit_eq_ok h).structured (Nat.zero_le _)

end Stampline
