import Stampline.Proofs.Lowering.References
import Stampline.Proofs.Syntax.Nodes

/-!
# The rules for programs that can be lowered

A program can be lowered if its nodes keep the rules that are stated here. Where definitions may stand
is a matter of the tree alone. Every other rule is about a node and the region it stands in: the
statements of the program, or those of the body of one definition, definitions inside them aside.
-/

namespace Stampline

/-! ## Regions -/

/-- Statements whose code is that of one function, and what names mean there. -/
structure Region where
  /-- The statements. -/
  block : List Stmt
  /-- The blocks that they stand in, the innermost first. -/
  around : List (List Stmt)
  /-- The names of the locals. -/
  locals : List String
  /-- Whether they are the body of a definition. -/
  inFunction : Bool

/-- The body of a definition, in which parameters and assigned names are local. -/
def Definition.region (d : Definition) : Region := ⟨d.body, d.around, d.params ++ targetsIn d.body, true⟩

/-- The statements of a program, and the bodies of its definitions. -/
def Program.regions (p : Program) : List Region := ⟨p, [p], [], false⟩ :: p.defined.map Definition.region

mutual

/-- A statement and the nodes below it, those below a definition aside. -/
def Stmt.ownNodes : Stmt → List Node
  | .define span name params body => [.stmt (.define span name params body)]
  | .give span none => [.stmt (.give span none)]
  | .give span (some value) => .stmt (.give span (some value)) :: value.nodes
  | .assign span target value => .stmt (.assign span target value) :: value.nodes
  | .eval span value => .stmt (.eval span value) :: value.nodes
  | .branch span test body orelse =>
    .stmt (.branch span test body orelse) :: (test.nodes ++ (ownNodesIn body ++ ownNodesIn orelse))
  | .loop span test body => .stmt (.loop span test body) :: (test.nodes ++ ownNodesIn body)
  | .pass span => [.stmt (.pass span)]

/-- The nodes of a block, those below definitions aside. -/
def ownNodesIn : List Stmt → List Node
  | [] => []
  | s :: ss => s.ownNodes ++ ownNodesIn ss

end

/-! ## Rules for definitions -/

/-- The name that a statement defines. -/
def Stmt.definedName? : Stmt → Option String
  | .define _ name _ _ => some name
  | _ => none

/-- The names that are defined directly in a block. -/
def definedNames (block : List Stmt) : List String := block.filterMap Stmt.definedName?

/-- A definition has statements and distinct parameters, and no definition stands directly in a
conditional or in a loop. -/
def Node.WellPlaced : Node → Prop
  | .stmt (.define _ _ params body) => body ≠ [] ∧ (params.map (·.name)).Nodup
  | .stmt (.branch _ _ body orelse) => definedNames body = [] ∧ definedNames orelse = []
  | .stmt (.loop _ _ body) => definedNames body = []
  | _ => True

/-! ## Rules for code -/

namespace Region

/-- An expression that stands where a value is needed is no text, and if it is a name then it is local
or no function has it. -/
def Values (r : Region) : Expr → Prop
  | .text .. => False
  | .name _ id => id ∈ r.locals ∨ definition? id r.around = none
  | _ => True

/-- The calls that can be lowered: those of a definition, whose arguments bind every parameter exactly
once and bind nothing else, and those of the printing function, with a separator and a terminator that
are literal if they are there. -/
inductive Calls (r : Region) : Expr → List Expr → List Keyword → Prop where
  | defined {span id d args keywords} (hd : definition? id r.around = some d)
      (hgiven : args.length ≤ d.params.length)
      (hnames : (d.params.take args.length ++ keywords.map Keyword.name).Perm d.params)
      (hargs : ∀ e ∈ args, r.Values e) (hkeywords : ∀ k ∈ keywords, r.Values k.value) :
      Calls r (.name span id) args keywords
  | print {span args keywords} (hd : definition? printName r.around = none)
      (hargs : ∀ e ∈ args, e.isText = true ∨ r.Values e)
      (hkeywords : ∀ k ∈ keywords, (k.name = "sep" ∨ k.name = "end") ∧ k.value.isText = true) :
      Calls r (.name span printName) args keywords

/-- The rule for a node of a region. No member of anything is admitted. -/
def Admits (r : Region) : Node → Prop
  | .stmt (.give _ value) => r.inFunction = true ∧ ∀ e ∈ value, r.Values e
  | .stmt (.assign _ _ value) | .stmt (.eval _ value) => r.Values value
  | .stmt (.branch _ test body _) | .stmt (.loop _ test body) => r.Values test ∧ body ≠ []
  | .expr (.member ..) => False
  | .expr (.call _ callee args keywords) => r.Calls callee args keywords
  | .expr (.binary _ _ left right) | .expr (.compare _ _ left right) => r.Values left ∧ r.Values right
  | .expr (.negate _ operand) => r.Values operand
  | _ => True

end Region

/-- The rules for a program that can be lowered. -/
structure Program.Admissible (p : Program) : Prop where
  /-- Every statement, parameter, expression and keyword argument stands somewhere. -/
  located : ∀ n ∈ p.nodes, n.span.isSome
  /-- Definitions stand where they may, and are well formed. -/
  placed : ∀ n ∈ p.nodes, n.WellPlaced
  /-- No name is defined twice in one block. -/
  distinct : ∀ r ∈ p.regions, (definedNames r.block).Nodup
  /-- The nodes of every region keep the rules for code. -/
  admitted : ∀ r ∈ p.regions, ∀ n ∈ ownNodesIn r.block, r.Admits n

/-! ## The check of definitions -/

section Check

mutual

/-- No rule for definitions is about an expression. -/
theorem Expr.wellPlaced_nodes : ∀ e : Expr, ∀ n ∈ e.nodes, n.WellPlaced
  | .number .. | .text .. | .name .. => by
    intro n hn
    obtain rfl := List.mem_singleton.1 hn
    trivial
  | .member _ e _ | .negate _ e => by
    rw [Expr.nodes, List.forall_mem_cons]
    exact ⟨trivial, e.wellPlaced_nodes⟩
  | .call _ callee args keywords => by
    rw [Expr.nodes, List.forall_mem_cons, List.forall_mem_append, List.forall_mem_append]
    exact ⟨trivial, callee.wellPlaced_nodes, wellPlaced_nodesOf args, wellPlaced_nodesBy keywords⟩
  | .binary _ _ left right | .compare _ _ left right => by
    rw [Expr.nodes, List.forall_mem_cons, List.forall_mem_append]
    exact ⟨trivial, left.wellPlaced_nodes, right.wellPlaced_nodes⟩

theorem wellPlaced_nodesOf : ∀ es : List Expr, ∀ n ∈ nodesOf es, n.WellPlaced
  | [] => nofun
  | e :: es => by
    rw [nodesOf, List.forall_mem_append]
    exact ⟨e.wellPlaced_nodes, wellPlaced_nodesOf es⟩

theorem wellPlaced_nodesBy : ∀ ks : List Keyword, ∀ n ∈ nodesBy ks, n.WellPlaced
  | [] => nofun
  | .mk _ _ value :: ks => by
    rw [nodesBy, List.forall_mem_cons, List.forall_mem_append]
    exact ⟨trivial, value.wellPlaced_nodes, wellPlaced_nodesBy ks⟩

end

theorem wellPlaced_params (params : List Param) : ∀ n ∈ params.map Node.param, n.WellPlaced :=
  List.forall_mem_map.2 fun _ _ => trivial

/-- Parameters pass exactly if their names are distinct and none was there before. -/
theorem checkParams_eq_ok {function : String} : ∀ {before : List String} {params : List Param},
    checkParams function before params = .ok () ↔
      (params.map (·.name)).Nodup ∧ ∀ p ∈ params, p.name ∉ before
  | before, [] => by simp [checkParams]
  | before, p :: ps => by
    unfold checkParams
    by_cases hp : p.name ∈ before
    · simp [hp]
    · have ih : checkParams function (p.name :: before) ps = .ok () ↔ _ := checkParams_eq_ok
      rw [if_neg (by simpa using hp), ih, List.map_cons, List.nodup_cons, List.forall_mem_cons]
      simp only [List.mem_cons, not_or, List.mem_map, not_exists, not_and]
      constructor
      · rintro ⟨hnodup, hbefore⟩
        exact ⟨⟨fun q hq => (hbefore q hq).1, hnodup⟩, hp, fun q hq => (hbefore q hq).2⟩
      · rintro ⟨⟨hfresh, hnodup⟩, -, hbefore⟩
        exact ⟨hnodup, fun q hq => ⟨hfresh q hq, hbefore q hq⟩⟩

/-- A block without definitions holds none at any depth. -/
theorem definedBy_eq_nil {around : List (List Stmt)} {block : List Stmt}
    (h : definedNames block = []) : definedBy around block = [] := by
  induction block with
  | nil => rfl
  | cons s ss ih =>
    cases s with
    | define => simp [definedNames, Stmt.definedName?] at h
    | _ => exact ih h

/-- The definitions of a block that stands in the blocks `around` keep the rules, where the names
`known` are taken and definitions may stand if `allowed`. -/
structure KeepsDefinitions (allowed : Bool) (known : List String) (around : List (List Stmt))
    (block : List Stmt) : Prop where
  allowed : allowed = false → definedNames block = []
  distinct : (definedNames block).Nodup
  untaken : ∀ name ∈ definedNames block, name ∉ known
  placed : ∀ n ∈ nodesIn block, n.WellPlaced
  within : ∀ d ∈ definedBy around block, (definedNames d.body).Nodup

/-- Where no definition may stand, there must be none. -/
theorem keepsDefinitions_false {around : List (List Stmt)} {block : List Stmt} :
    KeepsDefinitions false [] around block ↔
      definedNames block = [] ∧ ∀ n ∈ nodesIn block, n.WellPlaced := by
  constructor
  · intro h
    exact ⟨h.allowed rfl, h.placed⟩
  · rintro ⟨hnone, hplaced⟩
    refine ⟨fun _ => hnone, ?_, ?_, hplaced, ?_⟩
    · simp [hnone]
    · simp
    · simp [definedBy_eq_nil hnone]

/-- A statement that defines nothing keeps the rules if the nodes below it do. -/
theorem keepsDefinitions_cons {allowed : Bool} {known : List String} {around : List (List Stmt)}
    {s : Stmt} {ss : List Stmt} (hname : s.definedName? = none) (hdefined : s.defined around = []) :
    KeepsDefinitions allowed known around (s :: ss) ↔
      (∀ n ∈ s.nodes, n.WellPlaced) ∧ KeepsDefinitions allowed known around ss := by
  have hnames : definedNames (s :: ss) = definedNames ss := List.filterMap_cons_none hname
  have hwithin : definedBy around (s :: ss) = definedBy around ss := by
    rw [definedBy, hdefined, List.nil_append]
  constructor
  · rintro ⟨hallowed, hdistinct, huntaken, hplaced, hinner⟩
    rw [hnames] at hallowed hdistinct huntaken
    rw [nodesIn, List.forall_mem_append] at hplaced
    rw [hwithin] at hinner
    exact ⟨hplaced.1, hallowed, hdistinct, huntaken, hplaced.2, hinner⟩
  · rintro ⟨hs, hallowed, hdistinct, huntaken, hplaced, hinner⟩
    refine ⟨hnames ▸ hallowed, hnames ▸ hdistinct, hnames ▸ huntaken, ?_, hwithin ▸ hinner⟩
    rw [nodesIn, List.forall_mem_append]
    exact ⟨hs, hplaced⟩

/-- A definition takes its name from the statements behind it. -/
theorem keepsDefinitions_define {allowed : Bool} {known : List String} {around : List (List Stmt)}
    {span : Option Span} {name : String} {params : List Param} {body ss : List Stmt} :
    KeepsDefinitions allowed known around (.define span name params body :: ss) ↔
      allowed = true ∧ name ∉ known ∧ body ≠ [] ∧ (params.map (·.name)).Nodup ∧
        KeepsDefinitions true [] (body :: around) body ∧
        KeepsDefinitions allowed (name :: known) around ss := by
  have hnames : definedNames (.define span name params body :: ss) = name :: definedNames ss := rfl
  have hinner : definedBy around (.define span name params body :: ss) =
      ⟨params.map (·.name), body, body :: around⟩ ::
        (definedBy (body :: around) body ++ definedBy around ss) := rfl
  have hnodes : nodesIn (.define span name params body :: ss) =
      .stmt (.define span name params body) ::
        (params.map .param ++ nodesIn body ++ nodesIn ss) := rfl
  constructor
  · rintro ⟨hallowed, hdistinct, huntaken, hplaced, hwithin⟩
    rw [hnames] at hallowed hdistinct huntaken
    rw [List.nodup_cons] at hdistinct
    rw [List.forall_mem_cons] at huntaken
    rw [hnodes, List.forall_mem_cons, List.forall_mem_append, List.forall_mem_append] at hplaced
    rw [hinner, List.forall_mem_cons, List.forall_mem_append] at hwithin
    obtain ⟨⟨hne, hparams⟩, ⟨-, hbody⟩, hss⟩ := hplaced
    obtain ⟨hbodyNames, hbodyWithin, hssWithin⟩ := hwithin
    have htrue : allowed = true := by
      by_contra h
      cases hallowed (by simpa using h)
    refine ⟨htrue, huntaken.1, hne, hparams, ⟨nofun, hbodyNames, by simp, hbody, hbodyWithin⟩, ?_⟩
    refine ⟨fun h => ?_, hdistinct.2, fun n hn => ?_, hss, hssWithin⟩
    · cases htrue.symm.trans h
    · rw [List.mem_cons, not_or]
      exact ⟨fun h => hdistinct.1 (h ▸ hn), huntaken.2 n hn⟩
  · rintro ⟨rfl, hname, hne, hparams, hbody, hss⟩
    refine ⟨nofun, ?_, ?_, ?_, ?_⟩
    · rw [hnames, List.nodup_cons]
      exact ⟨fun h => hss.untaken name h (List.mem_cons_self ..), hss.distinct⟩
    · rw [hnames, List.forall_mem_cons]
      exact ⟨hname, fun n hn h => hss.untaken n hn (List.mem_cons_of_mem _ h)⟩
    · rw [hnodes, List.forall_mem_cons, List.forall_mem_append, List.forall_mem_append]
      exact ⟨⟨hne, hparams⟩, ⟨wellPlaced_params params, hbody.placed⟩, hss.placed⟩
    · rw [hinner, List.forall_mem_cons, List.forall_mem_append]
      exact ⟨hbody.distinct, hbody.within, hss.within⟩

/-- A statement that defines nothing takes no name from the statements behind it. -/
theorem checkDefinitionsIn_cons {allowed : Bool} {known : List String} {s : Stmt} {ss : List Stmt}
    (hname : s.definedName? = none) : checkDefinitionsIn allowed known (s :: ss) = .ok () ↔
      s.checkDefinitions allowed known = .ok () ∧ checkDefinitionsIn allowed known ss = .ok () := by
  have hs : ∀ span name params body, s ≠ .define span name params body := by
    rintro span name params body rfl
    cases hname
  rw [checkDefinitionsIn]
  · cases s.checkDefinitions allowed known with
    | error => simp
    | ok => simp
  · exact hs

/-- A block passes exactly if its definitions keep the rules. -/
theorem checkDefinitionsIn_eq_ok (around : List (List Stmt)) : ∀ (block : List Stmt) (allowed : Bool)
    (known : List String), checkDefinitionsIn allowed known block = .ok () ↔
      KeepsDefinitions allowed known around block
  | [], allowed, known => by
    constructor
    · intro _
      exact ⟨fun _ => rfl, .nil, nofun, nofun, nofun⟩
    · intro _
      rfl
  | .define span name params body :: ss, allowed, known => by
    have hbody := checkDefinitionsIn_eq_ok (body :: around) body true []
    have hss := checkDefinitionsIn_eq_ok around ss allowed (name :: known)
    have hparams : checkParams name [] params = .ok () ↔ (params.map (·.name)).Nodup :=
      checkParams_eq_ok.trans (by simp)
    rw [keepsDefinitions_define, ← hbody, ← hss, ← hparams, checkDefinitionsIn, Stmt.checkDefinitions]
    by_cases hallowed : allowed = true <;> by_cases hknown : name ∈ known <;>
      by_cases hempty : body = [] <;> simp [hallowed, hknown, hempty]
    cases checkParams name [] params with
    | error => simp
    | ok => cases checkDefinitionsIn true [] body <;> simp
  | .branch span test body orelse :: ss, allowed, known => by
    have hbody := checkDefinitionsIn_eq_ok around body false []
    have horelse := checkDefinitionsIn_eq_ok around orelse false []
    have hss := checkDefinitionsIn_eq_ok around ss allowed known
    have hnodes : (∀ n ∈ (Stmt.branch span test body orelse).nodes, n.WellPlaced) ↔
        checkDefinitionsIn false [] body = .ok () ∧ checkDefinitionsIn false [] orelse = .ok () := by
      rw [hbody, horelse, keepsDefinitions_false, keepsDefinitions_false, Stmt.nodes,
        List.forall_mem_cons, List.forall_mem_append, List.forall_mem_append]
      constructor
      · rintro ⟨⟨hnames, hnames'⟩, -, hplaced, hplaced'⟩
        exact ⟨⟨hnames, hplaced⟩, hnames', hplaced'⟩
      · rintro ⟨⟨hnames, hplaced⟩, hnames', hplaced'⟩
        exact ⟨⟨hnames, hnames'⟩, test.wellPlaced_nodes, hplaced, hplaced'⟩
    rw [keepsDefinitions_cons rfl rfl, hnodes, ← hss, checkDefinitionsIn_cons rfl]
    simp only [Stmt.checkDefinitions]
    cases checkDefinitionsIn false [] body <;> simp
  | .loop span test body :: ss, allowed, known => by
    have hbody := checkDefinitionsIn_eq_ok around body false []
    have hss := checkDefinitionsIn_eq_ok around ss allowed known
    have hnodes : (∀ n ∈ (Stmt.loop span test body).nodes, n.WellPlaced) ↔
        checkDefinitionsIn false [] body = .ok () := by
      rw [hbody, keepsDefinitions_false, Stmt.nodes, List.forall_mem_cons, List.forall_mem_append]
      constructor
      · rintro ⟨hnames, -, hplaced⟩
        exact ⟨hnames, hplaced⟩
      · rintro ⟨hnames, hplaced⟩
        exact ⟨hnames, test.wellPlaced_nodes, hplaced⟩
    rw [keepsDefinitions_cons rfl rfl, hnodes, ← hss, checkDefinitionsIn_cons rfl]
    simp only [Stmt.checkDefinitions]
  | .give span none :: ss, allowed, known | .pass span :: ss, allowed, known => by
    have hss := checkDefinitionsIn_eq_ok around ss allowed known
    rw [keepsDefinitions_cons rfl rfl, ← hss, checkDefinitionsIn_cons rfl, Stmt.nodes,
      List.forall_mem_singleton]
    simp [Stmt.checkDefinitions, Node.WellPlaced]
  | .give span (some value) :: ss, allowed, known | .assign span _ value :: ss, allowed, known
  | .eval span value :: ss, allowed, known => by
    have hss := checkDefinitionsIn_eq_ok around ss allowed known
    rw [keepsDefinitions_cons rfl rfl, ← hss, checkDefinitionsIn_cons rfl, Stmt.nodes,
      List.forall_mem_cons]
    simpa [Stmt.checkDefinitions, Node.WellPlaced] using fun _ => value.wellPlaced_nodes

/-- The definitions of a program pass exactly if they are well placed and distinct. -/
theorem Program.checkDefinitions_eq_ok (p : Program) : checkDefinitionsIn true [] p = .ok () ↔
    (∀ n ∈ p.nodes, n.WellPlaced) ∧ ∀ r ∈ p.regions, (definedNames r.block).Nodup := by
  rw [checkDefinitionsIn_eq_ok [p] p true [], Program.regions, List.forall_mem_cons,
    List.forall_mem_map]
  constructor
  · rintro ⟨-, hdistinct, -, hplaced, hwithin⟩
    exact ⟨hplaced, hdistinct, hwithin⟩
  · rintro ⟨hplaced, hdistinct, hwithin⟩
    exact ⟨nofun, hdistinct, by simp, hplaced, hwithin⟩

end Check

end Stampline
