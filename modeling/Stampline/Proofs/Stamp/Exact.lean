import Stampline.Proofs.Stamp.Rewritten
import Stampline.Proofs.Syntax.Postorder

/-!
# Stamping does nothing else

The program that comes of stamping is settled by the program, the target and the stamps. The calls of the
target get the stamps in the order in which they are visited. A program stays the same exactly if nothing
was counted as changed.
-/

namespace Stampline

/-! ## Stamps that can be handed out -/

namespace Stamper

theorem exists_handsOut_of_stamps {stamper : Stamper} {n : Nat} {texts : List String}
    (h : stamper.stamps n = .ok texts) :
    texts.length = n ∧ ∃ after, stamper.HandsOut texts after := by
  induction n generalizing stamper texts with
  | zero =>
    cases h
    exact ⟨rfl, stamper, .nil⟩
  | succ n ih =>
    rw [stamps] at h
    cases hstamp : stamper.stamp with
    | mk result next =>
      rw [hstamp] at h
      cases result with
      | error e => cases h
      | ok text =>
        dsimp only at h
        cases hrest : next.stamps n with
        | error e => rw [hrest] at h; cases h
        | ok rest =>
          rw [hrest] at h
          cases h
          obtain ⟨hlength, after, hafter⟩ := ih hrest
          exact ⟨congrArg (· + 1) hlength, after, .cons hstamp hafter⟩

/-- A stamper that hands out more stamps hands out the same ones first. -/
theorem HandsOut.rest {stamper after after' : Stamper} {texts texts' : List String}
    (h : stamper.HandsOut texts after) (h' : stamper.HandsOut texts' after')
    (hlength : texts.length ≤ texts'.length) :
    ∃ more, texts' = texts ++ more ∧ after.HandsOut more after' := by
  induction h generalizing texts' with
  | nil => exact ⟨texts', rfl, h'⟩
  | cons hstamp _ ih =>
    cases h' with
    | nil => cases hlength
    | cons hstamp' hrest' =>
      obtain ⟨htext, rfl⟩ := Prod.mk.inj (hstamp.symm.trans hstamp')
      obtain ⟨more, rfl, hmore⟩ := ih hrest' (Nat.le_of_succ_le_succ hlength)
      exact ⟨more, by rw [Except.ok.inj htext, List.cons_append], hmore⟩

end Stamper

section Exact

variable {target : String}

/-! ## One result -/

mutual

/-- Stamping an expression has one result. -/
theorem Stamps.unique {texts texts' : List String} {e e₁ e₂ : Expr} :
    Stamps target (· = none) texts e e₁ → Stamps target (· = none) texts' e e₂ → texts = texts' → e₁ = e₂
  | .number, .number, _ | .text, .text, _ | .name, .name, _ => rfl
  | .member h, .member h', htexts | .negate h, .negate h', htexts => by rw [h.unique h' htexts]
  | .call hcallee hargs hkeywords _, .call hcallee' hargs' hkeywords' _, htexts => by
    obtain ⟨htexts, hmore⟩ := List.append_inj htexts (hcallee.length_eq.trans hcallee'.length_eq.symm)
    obtain ⟨hmore, hrest⟩ := List.append_inj hmore (hargs.length_eq.trans hargs'.length_eq.symm)
    rw [hcallee.unique hcallee' htexts, hargs.unique hargs' hmore, hkeywords.unique hkeywords' hrest]
  | .stamped hargs hkeywords hspan hhere, .stamped hargs' hkeywords' hspan' hhere', htexts => by
    obtain ⟨htexts, hstamp⟩ := List.append_inj' htexts rfl
    obtain ⟨htexts, hmore⟩ := List.append_inj htexts (hargs.length_eq.trans hargs'.length_eq.symm)
    rw [hargs.unique hargs' htexts, hkeywords.unique hkeywords' hmore, List.cons.inj hstamp |>.1,
      hspan, hspan', hhere, hhere']
  | .call _ _ _ hother, .stamped .., _ | .stamped .., .call _ _ _ hother, _ => by
    simp [Expr.isCallOf] at hother
  | .binary hleft hright, .binary hleft' hright', htexts
  | .compare hleft hright, .compare hleft' hright', htexts => by
    obtain ⟨htexts, hmore⟩ := List.append_inj htexts (hleft.length_eq.trans hleft'.length_eq.symm)
    rw [hleft.unique hleft' htexts, hright.unique hright' hmore]

theorem StampsArgs.unique {texts texts' : List String} {es es₁ es₂ : List Expr} :
    StampsArgs target (· = none) texts es es₁ → StampsArgs target (· = none) texts' es es₂ →
      texts = texts' → es₁ = es₂
  | .nil, .nil, _ => rfl
  | .cons h hrest, .cons h' hrest', htexts => by
    obtain ⟨htexts, hmore⟩ := List.append_inj htexts (h.length_eq.trans h'.length_eq.symm)
    rw [h.unique h' htexts, hrest.unique hrest' hmore]

theorem StampsKeywords.unique {texts texts' : List String} {ks ks₁ ks₂ : List Keyword} :
    StampsKeywords target (· = none) texts ks ks₁ →
    StampsKeywords target (· = none) texts' ks ks₂ → texts = texts' → ks₁ = ks₂
  | .nil, .nil, _ => rfl
  | .cons h hrest, .cons h' hrest', htexts => by
    obtain ⟨htexts, hmore⟩ := List.append_inj htexts (h.length_eq.trans h'.length_eq.symm)
    rw [h.unique h' htexts, hrest.unique hrest' hmore]

end

mutual

/-- Stamping a statement has one result. -/
theorem StampsStmt.unique {texts texts' : List String} {s s₁ s₂ : Stmt} :
    StampsStmt target (· = none) texts s s₁ → StampsStmt target (· = none) texts' s s₂ →
      texts = texts' → s₁ = s₂
  | .define h, .define h', htexts => by rw [h.unique h' htexts]
  | .giveZero, .giveZero, _ | .pass, .pass, _ => rfl
  | .give h, .give h', htexts | .assign h, .assign h', htexts | .eval h, .eval h', htexts => by
    rw [h.unique h' htexts]
  | .branch h hbody horelse, .branch h' hbody' horelse', htexts => by
    obtain ⟨htexts, hmore⟩ := List.append_inj htexts (h.length_eq.trans h'.length_eq.symm)
    obtain ⟨hmore, hrest⟩ := List.append_inj hmore (hbody.length_eq.trans hbody'.length_eq.symm)
    rw [h.unique h' htexts, hbody.unique hbody' hmore, horelse.unique horelse' hrest]
  | .loop h hbody, .loop h' hbody', htexts => by
    obtain ⟨htexts, hmore⟩ := List.append_inj htexts (h.length_eq.trans h'.length_eq.symm)
    rw [h.unique h' htexts, hbody.unique hbody' hmore]

theorem StampsBlock.unique {giving : Bool} {texts texts' : List String} {ss ss₁ ss₂ : List Stmt} :
    StampsBlock target (· = none) giving texts ss ss₁ →
    StampsBlock target (· = none) giving texts' ss ss₂ → texts = texts' → ss₁ = ss₂
  | .nil, .nil, _ => rfl
  | .last h hhere, .last h' hhere', htexts => by rw [h.unique h' htexts, hhere, hhere']
  | .last _ _, .cons _ _ hlast, _ | .cons _ _ hlast, .last _ _, _ =>
    absurd rfl (hlast rfl rfl _ _)
  | .cons h hrest _, .cons h' hrest' _, htexts => by
    obtain ⟨htexts, hmore⟩ := List.append_inj htexts (h.length_eq.trans h'.length_eq.symm)
    rw [h.unique h' htexts, hrest.unique hrest' hmore]

end

/-! ## No change -/

/-- No definition ends in an expression among the nodes of a definition. -/
theorem endings_define_eq_zero {span : Option Span} {name : String} {params : List Param}
    {body : List Stmt} : endings (Stmt.define span name params body).nodes = 0 ↔
      endings (nodesIn body) = 0 ∧ endsInExpr body = false := by
  rw [Stmt.nodes, endings_cons, endings_append, endings_params, Nat.zero_add, Nat.add_eq_zero_iff]
  cases h : endsInExpr body <;> simp [Node.endsInExpr, h]

section Place

variable {place : Option Span → Prop}

mutual

/-- Without stamps an expression stays the same. -/
theorem Stamps.eq_of_nil {texts : List String} {e e' : Expr} :
    Stamps target place texts e e' → texts = [] → e' = e
  | .number, _ | .text, _ | .name, _ => rfl
  | .member h, htexts | .negate h, htexts => by rw [h.eq_of_nil htexts]
  | .call hcallee hargs hkeywords _, htexts => by
    simp only [List.append_eq_nil_iff] at htexts
    rw [hcallee.eq_of_nil htexts.1, hargs.eq_of_nil htexts.2.1, hkeywords.eq_of_nil htexts.2.2]
  | .stamped .., htexts => by simp at htexts
  | .binary hleft hright, htexts | .compare hleft hright, htexts => by
    obtain ⟨htexts, hmore⟩ := List.append_eq_nil_iff.1 htexts
    rw [hleft.eq_of_nil htexts, hright.eq_of_nil hmore]

theorem StampsArgs.eq_of_nil {texts : List String} {es es' : List Expr} :
    StampsArgs target place texts es es' → texts = [] → es' = es
  | .nil, _ => rfl
  | .cons h hrest, htexts => by
    obtain ⟨htexts, hmore⟩ := List.append_eq_nil_iff.1 htexts
    rw [h.eq_of_nil htexts, hrest.eq_of_nil hmore]

theorem StampsKeywords.eq_of_nil {texts : List String} {ks ks' : List Keyword} :
    StampsKeywords target place texts ks ks' → texts = [] → ks' = ks
  | .nil, _ => rfl
  | .cons h hrest, htexts => by
    obtain ⟨htexts, hmore⟩ := List.append_eq_nil_iff.1 htexts
    rw [h.eq_of_nil htexts, hrest.eq_of_nil hmore]

end

mutual

/-- Without stamps, and without definitions that end in an expression, a statement stays the same. -/
theorem StampsStmt.eq_of_nil {texts : List String} {s s' : Stmt} :
    StampsStmt target place texts s s' → texts = [] → endings s.nodes = 0 → s' = s
  | .define h, htexts, hendings => by
    obtain ⟨hbody, hgiving⟩ := endings_define_eq_zero.1 hendings
    rw [h.eq_of_nil htexts hbody fun _ => hgiving]
  | .giveZero, _, _ | .pass, _, _ => rfl
  | .give h, htexts, _ | .assign h, htexts, _ | .eval h, htexts, _ => by rw [h.eq_of_nil htexts]
  | .branch h hbody horelse, htexts, hendings => by
    simp only [List.append_eq_nil_iff] at htexts
    simp only [Stmt.nodes, endings_cons, endings_append, Nat.add_eq_zero_iff] at hendings
    rw [h.eq_of_nil htexts.1, hbody.eq_of_nil htexts.2.1 hendings.1.2.1 nofun,
      horelse.eq_of_nil htexts.2.2 hendings.1.2.2 nofun]
  | .loop h hbody, htexts, hendings => by
    obtain ⟨htexts, hmore⟩ := List.append_eq_nil_iff.1 htexts
    simp only [Stmt.nodes, endings_cons, endings_append, Nat.add_eq_zero_iff] at hendings
    rw [h.eq_of_nil htexts, hbody.eq_of_nil hmore hendings.1.2 nofun]

theorem StampsBlock.eq_of_nil {giving : Bool} {texts : List String} {ss ss' : List Stmt} :
    StampsBlock target place giving texts ss ss' → texts = [] → endings (nodesIn ss) = 0 →
      (giving = true → endsInExpr ss = false) → ss' = ss
  | .nil, _, _, _ => rfl
  | .last _ _, _, _, hgiving => by cases hgiving rfl
  | .cons h hrest hlast, htexts, hendings, hgiving => by
    obtain ⟨htexts, hmore⟩ := List.append_eq_nil_iff.1 htexts
    rw [nodesIn, endings_append, Nat.add_eq_zero_iff] at hendings
    rw [h.eq_of_nil htexts hendings.1, hrest.eq_of_nil hmore hendings.2 fun hg =>
      (endsInExpr_cons (hlast hg)).symm.trans (hgiving hg)]

end

mutual

/-- A node is made for every stamp. -/
theorem Stamps.length_nodes {texts : List String} {e e' : Expr} :
    Stamps target place texts e e' → e'.nodes.length = e.nodes.length + texts.length
  | .number | .text | .name => rfl
  | .member h | .negate h => by
    simp only [Expr.nodes, h.length_nodes, List.length_cons]
    omega
  | .call hcallee hargs hkeywords _ => by
    simp only [Expr.nodes, hcallee.length_nodes, hargs.length_nodes, hkeywords.length_nodes,
      List.length_cons, List.length_append]
    omega
  | .stamped hargs hkeywords _ _ => by
    simp only [Expr.nodes, nodesOf, hargs.length_nodes, hkeywords.length_nodes, List.length_cons,
      List.length_append]
    omega
  | .binary hleft hright | .compare hleft hright => by
    simp only [Expr.nodes, hleft.length_nodes, hright.length_nodes, List.length_cons, List.length_append]
    omega

theorem StampsArgs.length_nodes {texts : List String} {es es' : List Expr} :
    StampsArgs target place texts es es' →
      (nodesOf es').length = (nodesOf es).length + texts.length
  | .nil => rfl
  | .cons h hrest => by
    simp only [nodesOf, h.length_nodes, hrest.length_nodes, List.length_append]
    omega

theorem StampsKeywords.length_nodes {texts : List String} {ks ks' : List Keyword} :
    StampsKeywords target place texts ks ks' →
      (nodesBy ks').length = (nodesBy ks).length + texts.length
  | .nil => rfl
  | .cons h hrest => by
    simp only [nodesBy, h.length_nodes, hrest.length_nodes, List.length_cons, List.length_append]
    omega

end

mutual

theorem StampsStmt.length_nodes {texts : List String} {s s' : Stmt} :
    StampsStmt target place texts s s' → s'.nodes.length = s.nodes.length + texts.length
  | .define h => by
    simp only [Stmt.nodes, h.length_nodes, List.length_cons, List.length_append]
    omega
  | .giveZero | .pass => rfl
  | .give h | .assign h | .eval h => by
    simp only [Stmt.nodes, h.length_nodes, List.length_cons]
    omega
  | .branch h hbody horelse => by
    simp only [Stmt.nodes, h.length_nodes, hbody.length_nodes, horelse.length_nodes,
      List.length_cons, List.length_append]
    omega
  | .loop h hbody => by
    simp only [Stmt.nodes, h.length_nodes, hbody.length_nodes, List.length_cons, List.length_append]
    omega

theorem StampsBlock.length_nodes {giving : Bool} {texts : List String} {ss ss' : List Stmt} :
    StampsBlock target place giving texts ss ss' →
      (nodesIn ss').length = (nodesIn ss).length + texts.length
  | .nil => rfl
  | .last h _ => by
    simp only [nodesIn, Stmt.nodes, h.length_nodes, List.length_cons, List.length_append]
    omega
  | .cons h hrest _ => by
    simp only [nodesIn, h.length_nodes, hrest.length_nodes, List.length_append]
    omega

end

/-- The body of a function does not end in an expression once it is stamped. -/
theorem StampsBlock.endsInExpr_eq_false {giving : Bool} {texts : List String} {ss ss' : List Stmt} :
    StampsBlock target place giving texts ss ss' → giving = true → endsInExpr ss' = false
  | .nil, _ => rfl
  | .last _ _, _ => rfl
  | .cons h hrest hlast, hgiving => by
    rw [endsInExpr_cons, hrest.endsInExpr_eq_false hgiving]
    rintro rfl span e rfl
    cases hrest
    cases h
    exact hlast hgiving rfl _ _ rfl

mutual

/-- Once a statement is stamped, no definition ends in an expression. -/
theorem StampsStmt.endings_eq_zero {texts : List String} {s s' : Stmt} :
    StampsStmt target place texts s s' → endings s'.nodes = 0
  | .define h => endings_define_eq_zero.2 ⟨h.endings_eq_zero, h.endsInExpr_eq_false rfl⟩
  | .giveZero | .pass => rfl
  | .give _ | .assign _ | .eval _ => by simp [Stmt.nodes, Node.endsInExpr, Expr.endings_nodes]
  | .branch _ hbody horelse => by
    simp [Stmt.nodes, Node.endsInExpr, Expr.endings_nodes, hbody.endings_eq_zero,
      horelse.endings_eq_zero]
  | .loop _ hbody => by
    simp [Stmt.nodes, Node.endsInExpr, Expr.endings_nodes, hbody.endings_eq_zero]

theorem StampsBlock.endings_eq_zero {giving : Bool} {texts : List String} {ss ss' : List Stmt} :
    StampsBlock target place giving texts ss ss' → endings (nodesIn ss') = 0
  | .nil => rfl
  | .last _ _ => by simp [nodesIn, Stmt.nodes, Node.endsInExpr, Expr.endings_nodes]
  | .cons h hrest _ => by rw [nodesIn, endings_append, h.endings_eq_zero, hrest.endings_eq_zero]

end

end Place

/-- A program is stamped without change exactly if there are no stamps and no definition ends in an
expression. -/
theorem StampsBlock.eq_iff {place : Option Span → Prop} {texts : List String} {p new : Program}
    (h : StampsBlock target place false texts p new) :
    new = p ↔ texts.length = 0 ∧ endings p.nodes = 0 := by
  constructor
  · rintro rfl
    exact ⟨by simpa using h.length_nodes, h.endings_eq_zero⟩
  · rintro ⟨htexts, hendings⟩
    exact h.eq_of_nil (List.length_eq_zero_iff.1 htexts) hendings (by simp)

/-! ## The order of stamps -/

/-- The calls of the plain name `id` among nodes. -/
def callsNamed (id : String) (nodes : List Node) : List Node := nodes.filter (Node.isCallOf id)

theorem callsNamed_append (id : String) (nodes more : List Node) :
    callsNamed id (nodes ++ more) = callsNamed id nodes ++ callsNamed id more := List.filter_append ..

theorem callsNamed_flatMap {α : Type} (id : String) (as : List α) (f : α → List Node) :
    callsNamed id (as.flatMap f) = as.flatMap fun a => callsNamed id (f a) := List.filter_flatMap

/-- The calls below a call of the plain name come before it. -/
theorem callsNamed_visited_call {id : String} {n : Node} (h : n.isCallOf id = true) :
    callsNamed id n.visited = (n.visitedChildren.flatMap fun c => callsNamed id c.node.visited) ++ [n] := by
  rw [n.visited_eq, callsNamed_append, callsNamed_flatMap]
  congr 1
  rw [callsNamed, List.filter_cons_of_pos h]
  rfl

/-- In any other node there are only the calls below it. -/
theorem callsNamed_visited_other {id : String} {n : Node} (h : n.isCallOf id = false) :
    callsNamed id n.visited = n.visitedChildren.flatMap fun c => callsNamed id c.node.visited := by
  rw [n.visited_eq, callsNamed_append, callsNamed_flatMap]
  refine List.append_right_eq_self.2 ?_
  rw [callsNamed, List.filter_cons_of_neg (by rw [h]; exact Bool.false_ne_true)]
  rfl

variable (target) in
/-- A call of the target is given a stamp as its first argument. Neither the call nor the stamp stands
anywhere, and the other arguments are stamped. -/
inductive StampsCall : Node → String → Node → Prop where
  | mk {span here stamp es es' ks ks' texts texts'} (hargs : StampsArgs target (· = none) texts es es')
      (hkeywords : StampsKeywords target (· = none) texts' ks ks') :
      StampsCall (.expr (.call span (.name here target) es ks)) stamp
        (.expr (.call none (.name here target) (.text none stamp :: es') ks'))

variable (target) in
/-- Calls of the target are given stamps in turn. -/
inductive StampsCalls : List Node → List String → List Node → Prop where
  | nil : StampsCalls [] [] []
  | cons {n n' stamp ns ns' stamps} (h : StampsCall target n stamp n')
      (hrest : StampsCalls ns stamps ns') : StampsCalls (n :: ns) (stamp :: stamps) (n' :: ns')

theorem StampsCalls.append {ns ns' ms ms' : List Node} {stamps stamps' : List String}
    (h : StampsCalls target ns stamps ns') (h' : StampsCalls target ms stamps' ms') :
    StampsCalls target (ns ++ ms) (stamps ++ stamps') (ns' ++ ms') := by
  induction h with
  | nil => exact h'
  | cons hcall _ ih => exact .cons hcall ih

mutual

/-- The calls in an expression get the stamps in the order of visits. -/
theorem Stamps.stampsCalls {texts : List String} {e e' : Expr} : Stamps target (· = none) texts e e' →
    StampsCalls target (callsNamed target (Node.expr e).visited) texts
      (callsNamed target (Node.expr e').visited)
  | .number | .text | .name => by
    rw [callsNamed_visited_other rfl]
    exact .nil
  | .member h | .negate h => by
    rw [callsNamed_visited_other rfl, callsNamed_visited_other rfl]
    simpa [Node.visitedChildren, Child.filling] using h.stampsCalls
  | .call hcallee hargs hkeywords hother => by
    have hcalls := hcallee.stampsCalls.append (hargs.stampsCalls.append hkeywords.stampsCalls)
    rw [callsNamed_visited_other (show (Node.expr _).isCallOf target = false from hother),
      callsNamed_visited_other]
    · simpa [Node.visitedChildren, Child.filling, Child.inSequence, List.flatMap_map] using hcalls
    · exact (hcallee.isCallOf_callee _ _ _ _ _).trans hother
  | .stamped hargs hkeywords hspan hhere => by
    subst hspan hhere
    have hname {here id} : callsNamed target (Node.expr (.name here id)).visited = [] :=
      callsNamed_visited_other rfl
    have htext {here text} : callsNamed target (Node.expr (.text here text)).visited = [] :=
      callsNamed_visited_other rfl
    rw [callsNamed_visited_call (by simp [Node.isCallOf, Expr.isCallOf]),
      callsNamed_visited_call (by simp [Node.isCallOf, Expr.isCallOf])]
    simp only [Node.visitedChildren, Child.filling, Child.inSequence, List.flatMap_cons,
      List.flatMap_append, List.flatMap_map, List.map_cons, Function.comp_apply, hname, htext,
      List.nil_append, List.append_assoc]
    exact hargs.stampsCalls.append (hkeywords.stampsCalls.append (.cons (.mk hargs hkeywords) .nil))
  | .binary hleft hright | .compare hleft hright => by
    rw [callsNamed_visited_other rfl, callsNamed_visited_other rfl]
    simpa [Node.visitedChildren, Child.filling] using hleft.stampsCalls.append hright.stampsCalls

theorem StampsArgs.stampsCalls {texts : List String} {es es' : List Expr} :
    StampsArgs target (· = none) texts es es' →
      StampsCalls target (es.flatMap fun e => callsNamed target (Node.expr e).visited) texts
        (es'.flatMap fun e => callsNamed target (Node.expr e).visited)
  | .nil => .nil
  | .cons h hrest => h.stampsCalls.append hrest.stampsCalls

theorem StampsKeywords.stampsCalls {texts : List String} {ks ks' : List Keyword} :
    StampsKeywords target (· = none) texts ks ks' →
      StampsCalls target (ks.flatMap fun k => callsNamed target (Node.keyword k).visited) texts
        (ks'.flatMap fun k => callsNamed target (Node.keyword k).visited)
  | .nil => .nil
  | .cons h hrest => by
    rw [List.flatMap_cons, List.flatMap_cons, callsNamed_visited_other rfl, callsNamed_visited_other rfl]
    refine StampsCalls.append ?_ hrest.stampsCalls
    simpa [Node.visitedChildren, Child.filling] using h.stampsCalls

end

mutual

/-- The calls in a statement get the stamps in the order of visits. -/
theorem StampsStmt.stampsCalls {texts : List String} {s s' : Stmt} :
    StampsStmt target (· = none) texts s s' →
      StampsCalls target (callsNamed target (Node.stmt s).visited) texts
        (callsNamed target (Node.stmt s').visited)
  | .giveZero | .pass => by
    rw [callsNamed_visited_other rfl]
    exact .nil
  | .define h => by
    rw [callsNamed_visited_other rfl, callsNamed_visited_other rfl]
    simpa [Node.visitedChildren, Child.inSequence, List.flatMap_map] using h.stampsCalls
  | .give h | .assign h | .eval h => by
    rw [callsNamed_visited_other rfl, callsNamed_visited_other rfl]
    simpa [Node.visitedChildren, Child.filling] using h.stampsCalls
  | .branch h hbody horelse => by
    have hcalls := h.stampsCalls.append (hbody.stampsCalls.append horelse.stampsCalls)
    rw [callsNamed_visited_other rfl, callsNamed_visited_other rfl]
    simpa [Node.visitedChildren, Child.filling, Child.inSequence, List.flatMap_map] using hcalls
  | .loop h hbody => by
    have hcalls := h.stampsCalls.append hbody.stampsCalls
    rw [callsNamed_visited_other rfl, callsNamed_visited_other rfl]
    simpa [Node.visitedChildren, Child.filling, Child.inSequence, List.flatMap_map] using hcalls

theorem StampsBlock.stampsCalls {giving : Bool} {texts : List String} {ss ss' : List Stmt} :
    StampsBlock target (· = none) giving texts ss ss' →
      StampsCalls target (ss.flatMap fun s => callsNamed target (Node.stmt s).visited) texts
        (ss'.flatMap fun s => callsNamed target (Node.stmt s).visited)
  | .nil => .nil
  | .last h _ => by
    rw [List.flatMap_singleton, List.flatMap_singleton, callsNamed_visited_other rfl,
      callsNamed_visited_other rfl]
    simpa [Node.visitedChildren, Child.filling] using h.stampsCalls
  | .cons h hrest _ => h.stampsCalls.append hrest.stampsCalls

end

/-! ## Programs -/

/-- If the stamps for the calls of the target can be handed out, rewriting by the rules of stamping
succeeds. -/
theorem Program.exists_rewrite_of_stamps {p : Program} {stamper : Stamper} {texts : List String}
    (h : stamper.stamps (callsTo target p.nodes) = .ok texts) :
    ∃ new progress, p.rewrite (stampRules target) stamper = (.ok new, progress) ∧
      stamper.HandsOut texts progress.state ∧ StampsBlock target (· = none) false texts p new ∧
      progress.count = ⟨callsTo target p.nodes + endings p.nodes, 0⟩ := by
  obtain ⟨hlength, after, hafter⟩ := Stamper.exists_handsOut_of_stamps h
  have hrewritten := p.rewrite_stampRules target stamper
  cases hrun : p.rewrite (stampRules target) stamper with
  | mk result progress =>
    rw [hrun] at hrewritten
    cases result with
    | error e =>
      -- the stamp that could not be handed out is one of those that can
      obtain ⟨texts', stamper', bad, hhands, hbad, -, hless⟩ := hrewritten
      obtain ⟨more, rfl, hmore⟩ := hhands.rest hafter (by omega)
      cases hmore with
      | nil =>
        rw [List.append_nil] at hlength
        omega
      | cons hstamp => cases (Prod.mk.inj (hbad.symm.trans hstamp)).1
    | ok new =>
      obtain ⟨texts', hhands, hstamps, hcount⟩ := hrewritten
      have hlength' : texts'.length = texts.length := by
        rw [hlength, Program.nodes, ← hstamps.length_eq]
      obtain ⟨more, rfl, -⟩ := hhands.rest hafter (Nat.le_of_eq hlength')
      have hmore : more = [] := by simpa using hlength'
      rw [hmore, List.append_nil]
      exact ⟨new, progress, rfl, hhands, hstamps, hcount⟩

/-- If the stamps for the calls of the target can be handed out, rewriting by the rules of stamping
succeeds. It gives the one program in which every call of the target has its stamp, every function that
ends in an expression gives its value, and all else is as it was. In the order of visits the calls get
the stamps in the order in which they are handed out. The program is counted as changed exactly if it
is another one, and it stays the same if there is nothing to stamp and nothing to give. -/
theorem Program.rewrite_exact {p : Program} {stamper : Stamper} {texts : List String}
    (h : stamper.stamps (callsTo target p.nodes) = .ok texts) :
    ∃ new progress, p.rewrite (stampRules target) stamper = (.ok new, progress) ∧
      stamper.HandsOut texts progress.state ∧
      (∀ q, StampsBlock target (· = none) false texts p q ↔ q = new) ∧
      StampsCalls target (callsNamed target p.visited) texts (callsNamed target (Program.visited new)) ∧
      (progress.count.changed = true ↔ new ≠ p) ∧
      (callsTo target p.nodes = 0 → endings p.nodes = 0 → new = p) := by
  obtain ⟨new, progress, hrun, hhands, hstamps, hcount⟩ := Program.exists_rewrite_of_stamps h
  have heq : new = p ↔ callsTo target p.nodes = 0 ∧ endings p.nodes = 0 := by
    rw [hstamps.eq_iff, hstamps.length_eq, Program.nodes]
  refine ⟨new, progress, hrun, hhands, fun q => ⟨fun hq => hq.unique hstamps rfl, ?_⟩, ?_, ?_,
    fun hcalls hendings => heq.2 ⟨hcalls, hendings⟩⟩
  · rintro rfl
    exact hstamps
  · rw [Program.visited, Program.visited, callsNamed_flatMap, callsNamed_flatMap, List.flatMap_map,
      List.flatMap_map]
    exact hstamps.stampsCalls
  · rw [hcount, RewriteCount.changed, decide_eq_true_iff, Ne, heq]
    show 0 < callsTo target p.nodes + endings p.nodes + 0 ↔ _
    omega

end Exact

/-- A function that ends in a call of `f` on a call of `f`. -/
def callInCall : Program :=
  [.define none "g" [] [.eval none (.call none (.name none "f") [.call none (.name none "f") [] []] [])]]

theorem rewrite_exact_callInCall : ∃ stamper new progress,
    Stamper.new .perCall "%S" ⟨fun n => ⟨n, 0⟩⟩ = .ok stamper ∧
    Program.rewrite (stampRules "f") stamper callInCall = (.ok new, progress) ∧
    StampsCalls "f" (callsNamed "f" callInCall.visited) ["00", "01"] (callsNamed "f" (Program.visited new)) ∧
    (progress.count.changed = true ↔ new ≠ callInCall) := by
  cases hnew : Stamper.new .perCall "%S" ⟨fun n => ⟨n, 0⟩⟩ with
  | error e =>
    have hmade : (Stamper.new .perCall "%S" ⟨fun n => ⟨n, 0⟩⟩).toOption.isSome = true := by
      decide +kernel
    rw [hnew] at hmade
    cases hmade
  | ok stamper =>
    have hstamps : ((Stamper.new .perCall "%S" ⟨fun n => ⟨n, 0⟩⟩).toOption.map fun stamper =>
        (stamper.stamps (callsTo "f" (Program.nodes callInCall))).toOption) = some (some ["00", "01"]) := by
      decide +kernel
    rw [hnew] at hstamps
    have htwo : (stamper.stamps (callsTo "f" (Program.nodes callInCall))).toOption =
        some ["00", "01"] := Option.some.inj hstamps
    cases htexts : stamper.stamps (callsTo "f" (Program.nodes callInCall)) with
    | error e =>
      rw [htexts] at htwo
      cases htwo
    | ok texts =>
      rw [htexts] at htwo
      cases htwo
      obtain ⟨new, progress, hrun, -, -, hcalls, hchanged, -⟩ := Program.rewrite_exact htexts
      exact ⟨stamper, new, progress, rfl, hrun, hcalls, hchanged⟩

end Stampline
