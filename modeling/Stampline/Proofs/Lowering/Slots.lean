import Stampline.Proofs.Lowering.Emission
import Stampline.Proofs.Lowering.Scopes

/-!
# The slots of emitted code

Code takes the slots that can be read off the tree: one for every temporary, as the values are counted
that are kept aside, and one for every local.
-/

namespace Stampline

/-- The names that have functions in a scope are those that are defined in the blocks `around`. -/
def Scope.Knows (scope : Scope) (around : List (List Stmt)) : Prop :=
  ∀ id, (scope.resolve? id).isSome = (definition? id around).isSome

theorem Scope.Knows.isNone {scope : Scope} {around : List (List Stmt)} (h : scope.Knows around)
    (id : String) : (definition? id around).isNone = (scope.resolve? id).isNone := by
  rw [← Option.not_isSome, ← Option.not_isSome, h id]

theorem temporariesBy_eq (around : List (List Stmt)) (keywords : List Keyword) :
    temporariesBy around keywords = temporariesOf around (keywords.map (·.value)) := by
  induction keywords with
  | nil => rfl
  | cons k ks ih =>
    obtain ⟨span, name, value⟩ := k
    exact congrArg (value.temporaries around + ·) ih

/-- What is printed between and behind values is not computed. -/
theorem temporariesBy_of_printOptions (around : List (List Stmt)) : ∀ {keywords : List Keyword}
    {separator terminator : String} {options : String × String},
    printOptions keywords separator terminator = .ok options → temporariesBy around keywords = 0
  | [], _, _, _, _ => rfl
  | .mk _ name value :: ks, separator, terminator, options, h => by
    cases value with
    | text span value =>
      have hrest : ∃ separator terminator, printOptions ks separator terminator = .ok options := by
        unfold printOptions at h
        split at h
        · exact ⟨_, _, h⟩
        · split at h
          · exact ⟨_, _, h⟩
          · cases h
      obtain ⟨_, _, hrest⟩ := hrest
      rw [temporariesBy, temporariesBy_of_printOptions around hrest]
      rfl
    | _ => cases h

theorem Stands.knows {functions : List Function} {scope : Scope} {around : List (List Stmt)}
    (h : Stands functions scope around) : scope.Knows around := by
  intro id
  have hid := h.resolve? id
  cases hscope : scope.resolve? id with
  | none =>
    rw [hscope] at hid
    rw [show definition? id around = none from hid]
    rfl
  | some index =>
    rw [hscope] at hid
    obtain ⟨f, d, -, hd, -⟩ := hid
    rw [hd]
    rfl

theorem Numbered.knows {all : List Definition} {scope : Scope} {around : List (List Stmt)}
    (h : Numbered all scope around) : scope.Knows around := by
  intro id
  have hmap := congrArg Option.isSome (h.map_resolve? id)
  simpa using hmap

variable {site : Site} {around : List (List Stmt)}

mutual

/-- The temporaries of an expression. -/
theorem ExprCode.slots_eq (hscope : site.scope.Knows around) {e : Expr} {n m : Nat}
    {code : List Code} : ExprCode site e n code m → m = n + e.temporaries around
  | .number | .local _ | .global _ _ => rfl
  | .call hfun _ _ hargs => by
    have hargs := hargs.slots_eq hscope
    simp [Expr.temporaries, temporariesBy, hscope.isNone, hfun, hargs]
  | .callBound hfun _ hkeywords _ hargs hvalues => by
    have hargs := hargs.slots_eq hscope
    have hvalues := hvalues.slots_eq hscope
    rw [List.length_map, ← temporariesBy_eq] at hvalues
    simp only [Expr.temporaries, hscope.isNone, hfun, List.isEmpty_iff, if_neg hkeywords]
    simp only [Option.isNone_some, Bool.false_eq_true, if_false]
    omega
  | .print hfun hoptions hargs => by
    have hargs := hargs.slots_eq hscope
    simp only [Expr.temporaries, hscope.isNone, hfun, temporariesBy_of_printOptions around hoptions]
    simp only [Option.isNone_none, if_true]
    omega
  | .binary hleft hright | .compare hleft hright => by
    have hleft := hleft.slots_eq hscope
    have hright := hright.slots_eq hscope
    rw [Expr.temporaries]
    omega
  | .negate hoperand => hoperand.slots_eq hscope

theorem ArgsCode.slots_eq (hscope : site.scope.Knows around) {es : List Expr} {n m : Nat}
    {code : List Code} : ArgsCode site es n code m → m = n + temporariesOf around es
  | .nil => rfl
  | .cons hhead htail => by
    have hhead := hhead.slots_eq hscope
    have htail := htail.slots_eq hscope
    rw [temporariesOf]
    omega

theorem StoredCode.slots_eq (hscope : site.scope.Knows around) {es : List Expr} {n m : Nat}
    {code : List Code} {temps : List Nat} :
    StoredCode site es n code temps m → m = n + (temporariesOf around es + es.length)
  | .nil => rfl
  | .cons hhead htail => by
    have hhead := hhead.slots_eq hscope
    have htail := htail.slots_eq hscope
    rw [temporariesOf, List.length_cons]
    omega

theorem PrintedCode.slots_eq (hscope : site.scope.Knows around) {es : List Expr} {n m : Nat}
    {code : List Code} {places : List Printed} : PrintedCode site es n code places m →
      m = n + (temporariesOf around es + es.countP fun e => !e.isText)
  | .nil => rfl
  | .text htail => by
    have htail := htail.slots_eq hscope
    rw [List.countP_cons_of_neg Bool.false_ne_true]
    show m = n + (0 + temporariesOf around _ + _)
    omega
  | .value htext hhead htail => by
    have hhead := hhead.slots_eq hscope
    have htail := htail.slots_eq hscope
    rw [temporariesOf, List.countP_cons_of_pos (by rw [Expr.isText_eq_false htext]; rfl)]
    omega

end

mutual

/-- The temporaries of a statement. -/
theorem StmtCode.slots_eq (hscope : site.scope.Knows around) {s : Stmt} {n m : Nat}
    {code : List Code} : StmtCode site s n code m → m = n + s.temporaries around
  | .define | .giveZero _ | .pass => rfl
  | .give _ hvalue | .assignLocal _ hvalue | .assignGlobal _ hvalue | .eval hvalue =>
    hvalue.slots_eq hscope
  | .when htest _ hbody => by
    have htest := htest.slots_eq hscope
    have hbody := hbody.slots_eq hscope
    rw [Stmt.temporaries, temporariesIn]
    omega
  | .choose htest _ hbody _ horelse => by
    have htest := htest.slots_eq hscope
    have hbody := hbody.slots_eq hscope
    have horelse := horelse.slots_eq hscope
    rw [Stmt.temporaries]
    omega
  | .loop htest _ hbody => by
    have htest := htest.slots_eq hscope
    have hbody := hbody.slots_eq hscope
    rw [Stmt.temporaries]
    omega

theorem BlockCode.slots_eq (hscope : site.scope.Knows around) {ss : List Stmt} {n m : Nat}
    {code : List Code} : BlockCode site ss n code m → m = n + temporariesIn around ss
  | .nil => rfl
  | .cons hhead htail => by
    have hhead := hhead.slots_eq hscope
    have htail := htail.slots_eq hscope
    rw [temporariesIn]
    omega

end

/-- The slots of a function that is emitted are those of its definition. -/
theorem Function.slots_eq {functions : List Function} {f : Function} {d : Definition}
    (hparams : d.params = f.params.map (·.name)) (hbody : d.body = f.body)
    (hscope : f.scope.Knows d.around) {code : List Code} {slots : Nat}
    (h : f.emit functions = .ok (code, slots)) : slots = d.slots := by
  obtain ⟨body, hcode, -⟩ := Function.emit_eq_ok h
  rw [Definition.slots, hparams, hbody]
  exact hcode.slots_eq hscope

theorem Program.slots_eq {p : Program} {code : List Code} {slots : Nat}
    (h : p.emit = .ok (code, slots)) : slots = p.slots := by
  have hslots := (Program.emit_eq_ok h).slots_eq p.stands.knows
  rw [Nat.zero_add] at hslots
  exact hslots

end Stampline
