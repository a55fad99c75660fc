import Stampline.Proofs.Stamp.Stamped

/-!
# Rewriting by the rules of stamping

Rewriting by the rules of stamping succeeds exactly if a stamp can be handed out for every call of the
target, and then gives the stamped program. A stamper with a fixed text never fails.
-/

namespace Stampline

/-! ## Handing out stamps -/

/-- A stamper hands out texts, one after the other. -/
inductive Stamper.HandsOut : Stamper → List String → Stamper → Prop where
  | nil {stamper} : HandsOut stamper [] stamper
  | cons {stamper stamper' stamper'' text texts} (h : stamper.stamp = (.ok text, stamper'))
      (hrest : HandsOut stamper' texts stamper'') : HandsOut stamper (text :: texts) stamper''

namespace Stamper

theorem HandsOut.append {stamper stamper' stamper'' : Stamper} {texts texts' : List String}
    (h : HandsOut stamper texts stamper') (h' : HandsOut stamper' texts' stamper'') :
    HandsOut stamper (texts ++ texts') stamper'' := by
  induction h with
  | nil => exact h'
  | cons hstamp _ ih => exact .cons hstamp (ih h')

theorem stamp_fixed {stamper : Stamper} {text : String} (h : stamper.policy = .fixed text) :
    stamper.stamp = (.ok text, stamper) := by
  unfold stamp
  rw [h]

/-- A stamper with a fixed text hands out nothing else, and stays as it is. -/
theorem HandsOut.fixed {stamper stamper' : Stamper} {text : String} {texts : List String}
    (h : HandsOut stamper texts stamper') (hpolicy : stamper.policy = .fixed text) :
    stamper' = stamper ∧ ∀ t ∈ texts, t = text := by
  induction h with
  | nil => exact ⟨rfl, by simp⟩
  | cons hstamp _ ih =>
    obtain ⟨htext, rfl⟩ := Prod.mk.inj (hstamp.symm.trans (stamp_fixed hpolicy))
    obtain ⟨hstamper, htexts⟩ := ih hpolicy
    exact ⟨hstamper, List.forall_mem_cons.2 ⟨Except.ok.inj htext, htexts⟩⟩

end Stamper

/-! ## Rewriting -/

/-- Rewriting by the rules of stamping. Where it succeeds, its result has the property `P` together
with the stamps that were handed out on the way, and it counts a replacement for each of them and
`endings` more. Where it fails, a stamp could not be handed out that would have led to a result, with
`more` stamps from this one on. -/
def Rewriting.HandsOut {α : Type} (x : Rewriting Stamper Error α) (endings : Nat)
    (P : List String → α → Prop) : Prop :=
  ∀ before : Progress Stamper,
    match x before with
    | (.ok a, after) => ∃ texts, before.state.HandsOut texts after.state ∧ P texts a ∧
        after.count = ⟨before.count.replaced + texts.length + endings, before.count.deleted⟩
    | (.error e, after) => ∃ texts stamper bad, before.state.HandsOut texts stamper ∧
        stamper.stamp = (.error bad, after.state) ∧ e = .gaveUp (.pattern bad) ∧
        ∃ more a, more ≠ [] ∧ P (texts ++ more) a

namespace Rewriting.HandsOut

variable {α β : Type} {x : Rewriting Stamper Error α} {f : α → Rewriting Stamper Error β}
  {P P' : List String → α → Prop} {Q : List String → β → Prop} {k k' n : Nat}

theorem pure {a : α} (h : P [] a) : HandsOut (Pure.pure a) 0 P := fun _ => ⟨[], .nil, h, rfl⟩

/-- Some stamps lead to a result. -/
theorem exists_result (hx : HandsOut x k P) (before : Progress Stamper) : ∃ texts a, P texts a := by
  have hx := hx before
  cases hresult : x before with
  | mk result after =>
    rw [hresult] at hx
    cases result with
    | ok a =>
      obtain ⟨texts, -, ha, -⟩ := hx
      exact ⟨texts, a, ha⟩
    | error e =>
      obtain ⟨texts, -, -, -, -, -, more, a, -, ha⟩ := hx
      exact ⟨texts ++ more, a, ha⟩

theorem bind (hx : HandsOut x k P)
    (hf : ∀ texts a, P texts a → HandsOut (f a) k' fun texts' => Q (texts ++ texts'))
    (hk : k + k' = n) : HandsOut (x >>= f) n Q := by
  subst hk
  intro before
  have hx := hx before
  cases hresult : x before with
  | mk result middle =>
    rw [hresult] at hx
    cases result with
    | error e =>
      rw [bind_of_error hresult]
      obtain ⟨texts, stamper, bad, hhands, hbad, he, more, a, hmore, ha⟩ := hx
      obtain ⟨texts', b, hb⟩ := (hf _ a ha).exists_result middle
      rw [List.append_assoc] at hb
      exact ⟨texts, stamper, bad, hhands, hbad, he, more ++ texts', b,
        fun hnil => hmore (List.append_eq_nil_iff.1 hnil).1, hb⟩
    | ok a =>
      rw [bind_of_ok hresult]
      obtain ⟨texts, hhands, ha, hcount⟩ := hx
      have hf := hf texts a ha middle
      cases hresult' : f a middle with
      | mk result' after =>
        rw [hresult'] at hf
        cases result' with
        | error e =>
          obtain ⟨texts', stamper, bad, hhands', hbad, he, more, b, hmore, hb⟩ := hf
          rw [← List.append_assoc] at hb
          exact ⟨texts ++ texts', stamper, bad, hhands.append hhands', hbad, he, more, b, hmore, hb⟩
        | ok b =>
          obtain ⟨texts', hhands', hb, hcount'⟩ := hf
          refine ⟨texts ++ texts', hhands.append hhands', hb, ?_⟩
          rw [hcount', hcount, List.length_append]
          simp only [RewriteCount.mk.injEq, and_true]
          omega

theorem imp (hx : HandsOut x k P) (h : ∀ texts a, P texts a → P' texts a) : HandsOut x k P' := by
  intro before
  have hx := hx before
  cases hresult : x before with
  | mk result after =>
    rw [hresult] at hx
    cases result with
    | error e =>
      obtain ⟨texts, stamper, bad, hhands, hbad, he, more, a, hmore, ha⟩ := hx
      exact ⟨texts, stamper, bad, hhands, hbad, he, more, a, hmore, h _ a ha⟩
    | ok a =>
      obtain ⟨texts, hhands, ha, hcount⟩ := hx
      exact ⟨texts, hhands, h texts a ha, hcount⟩

/-- Rewriting goes on with what fills a place. -/
theorem filled {place : Place} {x : Rewriting Stamper Error (Option α)}
    (hx : HandsOut x k fun texts out => ∃ new, out = some new ∧ P texts new)
    (hf : ∀ texts a, P texts a → HandsOut (f a) k' fun texts' => Q (texts ++ texts'))
    (hk : k + k' = n) : HandsOut (x >>= fun out => Rewriter.fill place out >>= f) n Q :=
  hx.bind (fun texts out hout => by
    obtain ⟨new, rfl, hnew⟩ := hout
    exact hf texts new hnew) hk

/-- A node stays if its hook says so. -/
theorem keep {rw : Rewriter Stamper Error} {hook : Hook Stamper Error α} {label : String} {node : α}
    (h : ∀ stamper, hook node stamper = { result := .ok (.keep node), state := stamper })
    (hnode : P [] node) :
    HandsOut (rw.apply hook label node) 0 fun texts out => ∃ new, out = some new ∧ P texts new := by
  intro before
  unfold Rewriter.apply
  rw [h]
  exact ⟨[], .nil, ⟨node, rfl, hnode⟩, rfl⟩

/-- A node is replaced if its hook says so. -/
theorem replace {rw : Rewriter Stamper Error} {hook : Hook Stamper Error α} {label : String}
    {node new : α} {log : Log}
    (h : ∀ stamper, hook node stamper =
      { result := .ok (.replace new), state := stamper, log := log }) (hnew : P [] new) :
    HandsOut (rw.apply hook label node) 1 fun texts out => ∃ new, out = some new ∧ P texts new := by
  intro before
  unfold Rewriter.apply
  rw [h]
  exact ⟨[], .nil, ⟨new, rfl, hnew⟩, rfl⟩

end Rewriting.HandsOut

open Rewriting (HandsOut)

section Rules

variable {target : String}

/-- A call of the target is handed a stamp, if there is one. -/
theorem handsOut_stampCalls {e : Expr} {label : String} (h : e.isCallOf target = true) :
    HandsOut ((stampRules target).apply (stampCalls target) label e) 0 fun texts out =>
      ∃ stamp, texts = [stamp] ∧ out = some (withStamp stamp e) := by
  intro before
  unfold Rewriter.apply stampCalls
  rw [if_pos h]
  cases hstamp : before.state.stamp with
  | mk result after =>
    cases result with
    | error bad =>
      exact ⟨[], before.state, bad, .nil, hstamp, rfl, [""], _, List.cons_ne_nil _ _, "", rfl, rfl⟩
    | ok stamp => exact ⟨[stamp], .cons hstamp .nil, ⟨stamp, rfl, rfl⟩, rfl⟩

/-- Stamping the callee does not change whether a call is one of the target. -/
theorem Stamps.isCallOf_callee {place : Option Span → Prop} {texts : List String} {e e' : Expr}
    (h : Stamps target place texts e e') (span : Option Span) (es es' : List Expr)
    (ks ks' : List Keyword) :
    (Expr.call span e' es' ks').isCallOf target = (Expr.call span e es ks).isCallOf target := by
  cases h <;> rfl

/-- An expression that is no call stays. -/
theorem handsOut_applyExpr {P : List String → Expr → Prop} {e : Expr}
    (hcall : ∀ span callee es ks, e ≠ .call span callee es ks) (h : P [] e) :
    HandsOut ((stampRules target).applyExpr e) 0 fun texts out => ∃ new, out = some new ∧ P texts new := by
  cases e with
  | call => exact absurd rfl (hcall _ _ _ _)
  | _ =>
    unfold Rewriter.applyExpr
    exact .keep (fun _ => rfl) h

/-- A call whose parts are stamped is stamped if it is one of the target. -/
theorem handsOut_call {texts texts' texts'' : List String} {span : Option Span} {e e' : Expr}
    {es es' : List Expr} {ks ks' : List Keyword} (hcallee : Stamps target (· = none) texts e e')
    (hargs : StampsArgs target (· = none) texts' es es')
    (hkeywords : StampsKeywords target (· = none) texts'' ks ks') :
    HandsOut ((stampRules target).applyExpr (.call span e' es' ks')) 0 fun more out =>
      ∃ new, out = some new ∧
        Stamps target (· = none) (texts ++ (texts' ++ (texts'' ++ more))) (.call span e es ks) new := by
  have hcall' := hcallee.isCallOf_callee span es es' ks ks'
  cases hcall : (Expr.call span e es ks).isCallOf target with
  | false =>
    refine .keep (fun stamper => ?_) ?_
    · show stampCalls target _ stamper = _
      rw [stampCalls, hcall'.trans hcall]
      rfl
    · rw [List.append_nil]
      exact .call hcallee hargs hkeywords hcall
  | true =>
    refine (handsOut_stampCalls (hcall'.trans hcall)).imp fun more out ⟨stamp, hmore, hout⟩ => ?_
    obtain ⟨_, here, _, _, heq⟩ := Expr.exists_of_isCallOf hcall
    obtain ⟨rfl, rfl, rfl, rfl⟩ := Expr.call.inj heq
    cases hcallee
    subst hmore hout
    refine ⟨_, rfl, ?_⟩
    rw [List.nil_append, ← List.append_assoc]
    exact .stamped hargs hkeywords rfl rfl

mutual

theorem Expr.handsOut_rewrite : ∀ e : Expr, HandsOut (e.rewrite (stampRules target)) 0
    fun texts out => ∃ new, out = some new ∧ Stamps target (· = none) texts e new
  | .number .. => handsOut_applyExpr nofun .number
  | .text .. => handsOut_applyExpr nofun .text
  | .name .. => handsOut_applyExpr nofun .name
  | .member _ receiver _ => receiver.handsOut_rewrite.filled (fun _ _ h =>
    handsOut_applyExpr nofun (.member (by rwa [List.append_nil]))) rfl
  | .call _ callee args keywords => callee.handsOut_rewrite.filled (fun _ _ hcallee =>
    (handsOut_rewriteExprs args).bind (fun _ _ hargs =>
      (handsOut_rewriteKeywords keywords).bind (fun _ _ hkeywords =>
        handsOut_call hcallee hargs hkeywords) rfl) rfl) rfl
  | .binary _ _ left right => left.handsOut_rewrite.filled (fun _ _ hleft =>
    right.handsOut_rewrite.filled (fun _ _ hright =>
      handsOut_applyExpr nofun (.binary hleft (by rwa [List.append_nil]))) rfl) rfl
  | .negate _ operand => operand.handsOut_rewrite.filled (fun _ _ h =>
    handsOut_applyExpr nofun (.negate (by rwa [List.append_nil]))) rfl
  | .compare _ _ left right => left.handsOut_rewrite.filled (fun _ _ hleft =>
    right.handsOut_rewrite.filled (fun _ _ hright =>
      handsOut_applyExpr nofun (.compare hleft (by rwa [List.append_nil]))) rfl) rfl

theorem handsOut_rewriteExprs : ∀ es : List Expr, HandsOut (rewriteExprs (stampRules target) es) 0
    fun texts new => StampsArgs target (· = none) texts es new
  | [] => .pure .nil
  | e :: es => e.handsOut_rewrite.bind (fun _ _ hout => (handsOut_rewriteExprs es).bind
    (fun _ _ hrest => by
      obtain ⟨new, rfl, h⟩ := hout
      exact .pure (.cons h (by rwa [List.append_nil]))) rfl) rfl

theorem handsOut_rewriteKeywords : ∀ ks : List Keyword,
    HandsOut (rewriteKeywords (stampRules target) ks) 0
      fun texts new => StampsKeywords target (· = none) texts ks new
  | [] => .pure .nil
  | .mk span name value :: ks => by
    have hkeyword : HandsOut ((Keyword.mk span name value).rewrite (stampRules target)) 0
        fun texts out => ∃ new, out = some new ∧ ∃ e, new = .mk span name e ∧
          Stamps target (· = none) texts value e :=
      value.handsOut_rewrite.filled (fun _ e h =>
        .keep (fun _ => rfl) ⟨e, rfl, by rwa [List.append_nil]⟩) rfl
    exact hkeyword.bind (fun _ _ hout => (handsOut_rewriteKeywords ks).bind
      (fun _ _ hrest => by
        obtain ⟨_, rfl, e, rfl, h⟩ := hout
        exact .pure (.cons h (by rwa [List.append_nil]))) rfl) rfl

end

/-- A statement that is no definition stays. -/
theorem handsOut_applyStmt {P : List String → Stmt → Prop} {s : Stmt}
    (hdefine : ∀ span name params body, s ≠ .define span name params body) (h : P [] s) :
    HandsOut ((stampRules target).applyStmt s) 0 fun texts out => ∃ new, out = some new ∧ P texts new := by
  cases s with
  | define => exact absurd rfl (hdefine _ _ _ _)
  | _ =>
    unfold Rewriter.applyStmt
    exact .keep (fun _ => rfl) h

/-- A definition whose body is stamped gives the value of an expression at its end. -/
theorem handsOut_define {texts : List String} {span : Option Span} {name : String}
    {params : List Param} {body body' : List Stmt}
    (h : StampsBlock target (· = none) false texts body body') :
    HandsOut ((stampRules target).applyStmt (.define span name params body'))
      (if endsInExpr body then 1 else 0) fun more out => ∃ new, out = some new ∧
        StampsStmt target (· = none) (texts ++ more) (.define span name params body) new := by
  have hhook : ∀ stamper, (stampRules target).define (.define span name params body') stamper =
      giveLast (.define span name params body') stamper := fun _ => rfl
  have hbody := h.givingLast?
  cases hnew : givingLast? body' with
  | none =>
    rw [hnew] at hbody
    rw [hbody.2]
    exact .keep (fun stamper => by rw [hhook, giveLast, hnew])
      (by rw [List.append_nil]; exact .define hbody.1)
  | some new =>
    rw [hnew] at hbody
    rw [hbody.2]
    exact .replace (fun stamper => by rw [hhook, giveLast, hnew])
      (by rw [List.append_nil]; exact .define hbody.1)

mutual

theorem Stmt.handsOut_rewrite : ∀ s : Stmt, HandsOut (s.rewrite (stampRules target))
    (endings s.nodes) fun texts out => ∃ new, out = some new ∧
      StampsStmt target (· = none) texts s new
  | .define _ _ params body => (handsOut_rewriteBlock body).bind (fun _ _ h => handsOut_define h) (by
      rw [Stmt.nodes, endings_cons, endings_append, endings_params, Nat.zero_add]
      rfl)
  | .give _ none => by
    rw [Stmt.rewrite]
    exact handsOut_applyStmt nofun .giveZero
  | .give _ (some value) => value.handsOut_rewrite.filled (fun _ _ h =>
    handsOut_applyStmt nofun (.give (by rwa [List.append_nil])))
      (by simp [Stmt.nodes, Node.endsInExpr, value.endings_nodes])
  | .assign _ _ value => value.handsOut_rewrite.filled (fun _ _ h =>
    handsOut_applyStmt nofun (.assign (by rwa [List.append_nil])))
      (by simp [Stmt.nodes, Node.endsInExpr, value.endings_nodes])
  | .eval _ value => value.handsOut_rewrite.filled (fun _ _ h =>
    handsOut_applyStmt nofun (.eval (by rwa [List.append_nil])))
      (by simp [Stmt.nodes, Node.endsInExpr, value.endings_nodes])
  | .branch _ test body orelse => test.handsOut_rewrite.filled (fun _ _ h =>
    (handsOut_rewriteBlock body).bind (fun _ _ hbody => (handsOut_rewriteBlock orelse).bind
      (fun _ _ horelse => handsOut_applyStmt nofun
        (.branch h hbody (by rwa [List.append_nil]))) rfl) rfl)
      (by simp [Stmt.nodes, Node.endsInExpr, test.endings_nodes])
  | .loop _ test body => test.handsOut_rewrite.filled (fun _ _ h =>
    (handsOut_rewriteBlock body).bind (fun _ _ hbody => handsOut_applyStmt nofun
      (.loop h (by rwa [List.append_nil]))) rfl)
      (by simp [Stmt.nodes, Node.endsInExpr, test.endings_nodes])
  | .pass _ => by
    rw [Stmt.rewrite]
    exact handsOut_applyStmt nofun .pass

theorem handsOut_rewriteBlock : ∀ block : List Stmt,
    HandsOut (rewriteBlock (stampRules target) block) (endings (nodesIn block))
      fun texts new => StampsBlock target (· = none) false texts block new
  | [] => .pure .nil
  | s :: ss => s.handsOut_rewrite.bind (fun _ _ hout => (handsOut_rewriteBlock ss).bind
    (fun _ _ hrest => by
      obtain ⟨new, rfl, h⟩ := hout
      exact .pure (.cons h (by rwa [List.append_nil]) nofun)) rfl) (by simp [nodesIn])

end

/-- Rewriting a program by the rules of stamping. It fails only if a stamp cannot be handed out for one
of the calls of the target, and else gives the stamped program. It deletes nothing, and replaces the
calls of the target and the definitions whose body ends in an expression. -/
theorem Program.rewrite_stampRules (p : Program) (target : String) (stamper : Stamper) :
    match p.rewrite (stampRules target) stamper with
    | (.ok new, progress) => ∃ texts, stamper.HandsOut texts progress.state ∧
        StampsBlock target (· = none) false texts p new ∧
        progress.count = ⟨callsTo target p.nodes + endings p.nodes, 0⟩
    | (.error e, progress) => ∃ texts stamper' bad, stamper.HandsOut texts stamper' ∧
        stamper'.stamp = (.error bad, progress.state) ∧ e = .gaveUp (.pattern bad) ∧
        texts.length < callsTo target p.nodes := by
  have hblock : HandsOut (rewriteBlock (stampRules target) p) _ _ := handsOut_rewriteBlock p
  have h := hblock { state := stamper }
  unfold Program.rewrite
  cases hrun : (rewriteBlock (stampRules target) p).run.run { state := stamper } with
  | mk result progress =>
    replace hrun : rewriteBlock (stampRules target) p { state := stamper } = (result, progress) :=
      hrun
    rw [hrun] at h
    cases result with
    | error e =>
      obtain ⟨texts, stamper', bad, hhands, hbad, he, more, new, hmore, hstamps⟩ := h
      refine ⟨texts, stamper', bad, hhands, hbad, he, ?_⟩
      rw [Program.nodes, ← hstamps.length_eq, List.length_append]
      exact Nat.lt_add_of_pos_right (List.length_pos_iff.2 hmore)
    | ok new =>
      obtain ⟨texts, hhands, hstamps, hcount⟩ := h
      refine ⟨texts, hhands, hstamps, hcount.trans ?_⟩
      rw [Program.nodes, ← hstamps.length_eq, Nat.zero_add]

/-- A stamper with a fixed text never fails, and puts this text everywhere. -/
theorem Program.rewrite_fixed (p : Program) (target : String) {stamper : Stamper} {text : String}
    (hpolicy : stamper.policy = .fixed text) : ∃ new progress texts,
      p.rewrite (stampRules target) stamper = (.ok new, progress) ∧ (∀ t ∈ texts, t = text) ∧
        StampsBlock target (· = none) false texts p new ∧
        progress.count = ⟨callsTo target p.nodes + endings p.nodes, 0⟩ := by
  have h := p.rewrite_stampRules target stamper
  cases hrun : p.rewrite (stampRules target) stamper with
  | mk result progress =>
    rw [hrun] at h
    cases result with
    | error e =>
      obtain ⟨texts, stamper', bad, hhands, hbad, -⟩ := h
      obtain ⟨rfl, -⟩ := hhands.fixed hpolicy
      cases (Prod.mk.inj (hbad.symm.trans (Stamper.stamp_fixed hpolicy))).1
    | ok new =>
      obtain ⟨texts, hhands, hstamps, hcount⟩ := h
      exact ⟨new, progress, texts, rfl, (hhands.fixed hpolicy).2, hstamps, hcount⟩

end Rules

end Stampline
