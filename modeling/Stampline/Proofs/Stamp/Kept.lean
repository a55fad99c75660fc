import Stampline.Proofs.Syntax.Forms
import Stampline.Stamp.Rules

/-!
# What stamping keeps

The rules of stamping leave a program as well-formed as it is, and make it neither higher nor more
deeply nested: a text is no higher than a callee, and nests not at all.
-/

namespace Stampline

/-! ## Rewriting -/

/-- Where rewriting succeeds, its result has the property `P`. -/
def Rewriting.Makes {σ ε α : Type} (x : Rewriting σ ε α) (P : α → Prop) : Prop :=
  ∀ (before : Progress σ) (a : α) (after : Progress σ), x before = (.ok a, after) → P a

namespace Rewriting.Makes

variable {σ ε α β : Type} {x : Rewriting σ ε α} {f : α → Rewriting σ ε β} {P P' : α → Prop}
  {Q : β → Prop}

theorem pure {a : α} (ha : P a) : Makes (Pure.pure a : Rewriting σ ε α) P := by
  intro before a' after h
  obtain rfl := Except.ok.inj (Prod.mk.inj h).1
  exact ha

theorem bind (hx : Makes x P) (hf : ∀ a, P a → Makes (f a) Q) : Makes (x >>= f) Q := by
  intro before b after h
  cases hresult : x before with
  | mk result middle =>
    cases result with
    | error e =>
      rw [bind_of_error hresult] at h
      cases (Prod.mk.inj h).1
    | ok a =>
      rw [bind_of_ok hresult] at h
      exact hf a (hx before a middle hresult) middle b after h

theorem imp (hx : Makes x P) (h : ∀ a, P a → P' a) : Makes x P' :=
  fun before a after hrun => h a (hx before a after hrun)

/-- Rewriting goes on with what fills a place. -/
theorem filled {place : Place} {x : Rewriting σ ε (Option α)}
    (hx : Makes x fun out => ∃ new, out = some new ∧ P new) (hf : ∀ a, P a → Makes (f a) Q) :
    Makes (x >>= fun out => Rewriter.fill place out >>= f) Q :=
  hx.bind fun out hout => by
    obtain ⟨new, rfl, hnew⟩ := hout
    exact (pure hnew).bind hf

/-- A hook keeps a node, or says what takes the place of the node that it is handed. -/
theorem apply {rw : Rewriter σ ε} {hook : Hook σ ε α} {label : String} {node : α}
    (h : ∀ state verdict, (hook node state).result = .ok verdict →
      ∃ new, (verdict = .keep new ∨ verdict = .replace new) ∧ P new) :
    Makes (rw.apply hook label node) fun out => ∃ new, out = some new ∧ P new := by
  intro before out after hrun
  unfold Rewriter.apply at hrun
  dsimp only at hrun
  split at hrun
  · cases (Prod.mk.inj hrun).1
  · rename_i verdict hverdict
    obtain rfl := Except.ok.inj (Prod.mk.inj hrun).1
    obtain ⟨new, rfl | rfl, hnew⟩ := h _ _ hverdict
    · exact ⟨new, rfl, hnew⟩
    · exact ⟨new, rfl, hnew⟩

theorem keep (rw : Rewriter σ ε) (label : String) {node : α} (hnode : P node) :
    Makes (rw.apply Hook.keep label node) fun out => ∃ new, out = some new ∧ P new :=
  apply fun _ _ h => ⟨node, .inl (Except.ok.inj h).symm, hnode⟩

end Rewriting.Makes

/-! ## Expressions -/

/-- An expression takes the place of another: it is as well-formed, binds as tightly, and is neither
higher nor more deeply nested. -/
structure Expr.Keeps (e new : Expr) : Prop where
  formed : ∀ {number : Int64 → Prop}, e.Formed number → new.Formed number
  strength : new.strength = e.strength
  height : new.height = e.height
  nesting : new.nesting = e.nesting

/-- Expressions take the place of others. -/
structure ExprsKeep (es new : List Expr) : Prop where
  formed : ∀ {number : Int64 → Prop}, ExprsFormed number es → ExprsFormed number new
  height : heightOf new = heightOf es
  nesting : nestingOf new = nestingOf es

/-- Keyword arguments take the place of others. -/
structure KeywordsKeep (ks new : List Keyword) : Prop where
  formed : ∀ {number : Int64 → Prop}, KeywordsFormed number ks → KeywordsFormed number new
  names : new.map Keyword.name = ks.map Keyword.name
  height : heightBy new = heightBy ks
  nesting : nestingBy new = nestingBy ks

theorem Expr.Keeps.refl (e : Expr) : e.Keeps e := ⟨id, rfl, rfl, rfl⟩

theorem Expr.Keeps.trans {e e' new : Expr} (h : e.Keeps e') (h' : e'.Keeps new) : e.Keeps new :=
  ⟨h'.formed ∘ h.formed, h'.strength.trans h.strength, h'.height.trans h.height,
    h'.nesting.trans h.nesting⟩

theorem Expr.height_pos (e : Expr) : 0 < e.height := by
  cases e <;> exact Nat.succ_pos _

/-- A stamp in front of the arguments of a call changes neither its height nor its nesting. -/
theorem keeps_withStamp (stamp : String) : ∀ e : Expr, e.Keeps (withStamp stamp e)
  | .call _ callee args keywords => by
    have hpos := callee.height_pos
    refine ⟨fun h => ⟨h.1, ⟨trivial, h.2.1⟩, h.2.2⟩, rfl, ?_, ?_⟩
    · simp only [withStamp, Expr.height, heightOf]
      omega
    · simp only [withStamp, Expr.nesting, nestingOf]
      omega
  | .number .. | .text .. | .name .. | .member .. | .binary .. | .negate .. | .compare .. => .refl _

section Rules

variable {target : String}

theorem makes_applyExpr (e : Expr) : ((stampRules target).applyExpr e).Makes fun out =>
    ∃ new, out = some new ∧ e.Keeps new := by
  cases e with
  | call span callee args keywords =>
    refine Rewriting.Makes.apply fun stamper verdict h => ?_
    replace h : (stampCalls target (.call span callee args keywords) stamper).result = _ := h
    unfold stampCalls at h
    split at h
    · split at h
      · rename_i stamp _ _
        exact ⟨_, .inr (Except.ok.inj h).symm, keeps_withStamp stamp _⟩
      · cases h
    · exact ⟨_, .inl (Except.ok.inj h).symm, .refl _⟩
  | number | text | name | member | binary | negate | compare =>
    unfold Rewriter.applyExpr
    exact .keep (stampRules target) _ (.refl _)

/-- A node that keeps another is handed to its hook. -/
theorem makes_applyExpr_of_keeps {e e' : Expr} (h : e.Keeps e') :
    ((stampRules target).applyExpr e').Makes fun out => ∃ new, out = some new ∧ e.Keeps new :=
  (makes_applyExpr e').imp fun _ ⟨new, hout, hnew⟩ => ⟨new, hout, h.trans hnew⟩

mutual

theorem Expr.makes_rewrite : ∀ e : Expr, (e.rewrite (stampRules target)).Makes fun out =>
    ∃ new, out = some new ∧ e.Keeps new
  | .number .. | .text .. | .name .. => makes_applyExpr _
  | .member _ receiver _ => receiver.makes_rewrite.filled fun r hr =>
    makes_applyExpr_of_keeps ⟨fun h => ⟨hr.formed h.1, h.2⟩, rfl,
      by simp only [Expr.height, hr.height],
      by simp only [Expr.nesting, hr.strength, hr.nesting]⟩
  | .call _ callee args keywords => callee.makes_rewrite.filled fun c hc =>
    (makes_rewriteExprs args).bind fun es hes => (makes_rewriteKeywords keywords).bind fun ks hks =>
      makes_applyExpr_of_keeps ⟨fun h => ⟨hc.formed h.1, hes.formed h.2.1, hks.formed h.2.2.1,
          hks.names ▸ h.2.2.2⟩, rfl,
        by simp only [Expr.height, hc.height, hes.height, hks.height],
        by simp only [Expr.nesting, hc.strength, hc.nesting, hes.nesting, hks.nesting]⟩
  | .binary _ _ left right | .compare _ _ left right => left.makes_rewrite.filled fun l hl =>
    right.makes_rewrite.filled fun r hr =>
      makes_applyExpr_of_keeps ⟨fun h => ⟨hl.formed h.1, hr.formed h.2⟩, rfl,
        by simp only [Expr.height, hl.height, hr.height],
        by simp only [Expr.nesting, hl.strength, hl.nesting, hr.strength, hr.nesting]⟩
  | .negate _ operand => operand.makes_rewrite.filled fun o ho =>
    makes_applyExpr_of_keeps ⟨fun h => ho.formed h, rfl,
      by simp only [Expr.height, ho.height],
      by simp only [Expr.nesting, ho.strength, ho.nesting]⟩

theorem makes_rewriteExprs : ∀ es : List Expr,
    (rewriteExprs (stampRules target) es).Makes (ExprsKeep es)
  | [] => .pure ⟨id, rfl, rfl⟩
  | e :: es => e.makes_rewrite.bind fun out hout => (makes_rewriteExprs es).bind fun new hnew => by
    obtain ⟨e', rfl, he⟩ := hout
    exact .pure ⟨fun h => ⟨he.formed h.1, hnew.formed h.2⟩,
      by simp only [Option.toList_some, List.singleton_append, heightOf, he.height, hnew.height],
      by simp only [Option.toList_some, List.singleton_append, nestingOf, he.nesting, hnew.nesting]⟩

theorem makes_rewriteKeywords : ∀ ks : List Keyword,
    (rewriteKeywords (stampRules target) ks).Makes (KeywordsKeep ks)
  | [] => .pure ⟨id, rfl, rfl, rfl⟩
  | .mk span name value :: ks => by
    have hkeyword : ((Keyword.mk span name value).rewrite (stampRules target)).Makes fun out =>
        ∃ new, out = some new ∧ ∃ e, new = .mk span name e ∧ value.Keeps e :=
      value.makes_rewrite.filled fun e he => .keep (stampRules target) _ ⟨e, rfl, he⟩
    refine hkeyword.bind fun out hout => (makes_rewriteKeywords ks).bind fun new hnew => ?_
    obtain ⟨_, rfl, e, rfl, he⟩ := hout
    exact .pure ⟨fun h => ⟨h.1, he.formed h.2.1, hnew.formed h.2.2⟩,
      by simp only [Option.toList_some, List.singleton_append, List.map_cons, Keyword.name, hnew.names],
      by simp only [Option.toList_some, List.singleton_append, heightBy, he.height, hnew.height],
      by simp only [Option.toList_some, List.singleton_append, nestingBy, he.nesting, hnew.nesting]⟩

end

/-! ## Statements -/

/-- A statement takes the place of another. -/
structure Stmt.Keeps (s new : Stmt) : Prop where
  formed : ∀ {number : Int64 → Prop}, s.Formed number → new.Formed number
  height : new.height = s.height
  nesting : new.nesting = s.nesting

/-- A block takes the place of another. -/
structure BlockKeeps (block new : List Stmt) : Prop where
  formed : ∀ {number : Int64 → Prop}, BlockFormed number block → BlockFormed number new
  isEmpty : new.isEmpty = block.isEmpty
  height : heightIn new = heightIn block
  nesting : nestingIn new = nestingIn block

theorem Stmt.Keeps.refl (s : Stmt) : s.Keeps s := ⟨id, rfl, rfl⟩

theorem Stmt.Keeps.trans {s s' new : Stmt} (h : s.Keeps s') (h' : s'.Keeps new) : s.Keeps new :=
  ⟨h'.formed ∘ h.formed, h'.height.trans h.height, h'.nesting.trans h.nesting⟩

theorem BlockKeeps.nil : BlockKeeps [] [] := ⟨id, rfl, rfl, rfl⟩

theorem BlockKeeps.cons {s new : Stmt} {ss news : List Stmt} (hs : s.Keeps new)
    (hss : BlockKeeps ss news) : BlockKeeps (s :: ss) (new :: news) :=
  ⟨fun h => ⟨hs.formed h.1, hss.formed h.2⟩, rfl,
    by simp only [heightIn, hs.height, hss.height],
    by simp only [nestingIn, hs.nesting, hss.nesting]⟩

theorem BlockKeeps.ne_nil {block new : List Stmt} (h : BlockKeeps block new) (hne : block ≠ []) :
    new ≠ [] := by
  rintro rfl
  exact hne (List.isEmpty_iff.1 h.isEmpty.symm)

/-- A body that is made to give its last value is otherwise the same. -/
theorem keeps_givingLast? {body new : List Stmt} (h : givingLast? body = some new) :
    BlockKeeps body new := by
  fun_induction givingLast? body generalizing new with
  | case1 => cases h
  | case2 span value =>
    obtain rfl := Option.some.inj h
    exact .cons ⟨id, rfl, rfl⟩ .nil
  | case3 s ss _ ih =>
    obtain ⟨news, hnews, rfl⟩ := Option.map_eq_some_iff.1 h
    exact .cons (.refl s) (ih hnews)

theorem Stmt.Keeps.define {span : Option Span} {name : String} {params : List Param}
    {body new : List Stmt} (h : BlockKeeps body new) :
    (Stmt.define span name params body).Keeps (.define span name params new) :=
  ⟨fun hs => ⟨hs.1, hs.2.1, hs.2.2.1, h.ne_nil hs.2.2.2.1, h.formed hs.2.2.2.2⟩, h.height,
    congrArg (· + 1) h.nesting⟩

theorem makes_applyStmt (s : Stmt) : ((stampRules target).applyStmt s).Makes fun out =>
    ∃ new, out = some new ∧ s.Keeps new := by
  cases s with
  | define span name params body =>
    refine Rewriting.Makes.apply fun stamper verdict h => ?_
    replace h : (giveLast (.define span name params body) stamper).result = _ := h
    unfold giveLast at h
    dsimp only at h
    split at h
    · rename_i new hnew
      exact ⟨_, .inr (Except.ok.inj h).symm, .define (keeps_givingLast? hnew)⟩
    · exact ⟨_, .inl (Except.ok.inj h).symm, .refl _⟩
  | give | assign | eval | branch | loop | pass =>
    unfold Rewriter.applyStmt
    exact .keep (stampRules target) _ (.refl _)

/-- A statement that keeps another is handed to its hook. -/
theorem makes_applyStmt_of_keeps {s s' : Stmt} (h : s.Keeps s') :
    ((stampRules target).applyStmt s').Makes fun out => ∃ new, out = some new ∧ s.Keeps new :=
  (makes_applyStmt s').imp fun _ ⟨new, hout, hnew⟩ => ⟨new, hout, h.trans hnew⟩

mutual

theorem Stmt.makes_rewrite : ∀ s : Stmt, (s.rewrite (stampRules target)).Makes fun out =>
    ∃ new, out = some new ∧ s.Keeps new
  | .define _ _ _ body => (makes_rewriteBlock body).bind fun new hnew =>
    makes_applyStmt_of_keeps (.define hnew)
  | .give _ none | .pass _ => by
    rw [Stmt.rewrite]
    exact makes_applyStmt _
  | .give _ (some value) | .eval _ value => (value.makes_rewrite).filled fun e he =>
    makes_applyStmt_of_keeps ⟨fun h => he.formed h, he.height, he.nesting⟩
  | .assign _ _ value => (value.makes_rewrite).filled fun e he =>
    makes_applyStmt_of_keeps ⟨fun h => ⟨h.1, he.formed h.2⟩, he.height, he.nesting⟩
  | .branch _ test body orelse => test.makes_rewrite.filled fun e he =>
    (makes_rewriteBlock body).bind fun b hb => (makes_rewriteBlock orelse).bind fun o ho =>
      makes_applyStmt_of_keeps
        ⟨fun h => ⟨he.formed h.1, hb.ne_nil h.2.1, hb.formed h.2.2.1, ho.formed h.2.2.2⟩,
          by simp only [Stmt.height, he.height, hb.height, ho.height],
          by simp only [Stmt.nesting, he.nesting, hb.nesting, ho.nesting, ho.isEmpty]⟩
  | .loop _ test body => test.makes_rewrite.filled fun e he =>
    (makes_rewriteBlock body).bind fun b hb =>
      makes_applyStmt_of_keeps ⟨fun h => ⟨he.formed h.1, hb.ne_nil h.2.1, hb.formed h.2.2⟩,
        by simp only [Stmt.height, he.height, hb.height],
        by simp only [Stmt.nesting, he.nesting, hb.nesting]⟩

theorem makes_rewriteBlock : ∀ block : List Stmt,
    (rewriteBlock (stampRules target) block).Makes (BlockKeeps block)
  | [] => .pure .nil
  | s :: ss => s.makes_rewrite.bind fun out hout => (makes_rewriteBlock ss).bind fun news hnews => by
    obtain ⟨new, rfl, hnew⟩ := hout
    exact .pure (.cons hnew hnews)

end

/-- Where a program is stamped, what comes of it takes its place. -/
theorem keeps_rewrite {p new : Program} {stamper : Stamper} {progress : Progress Stamper}
    (h : p.rewrite (stampRules target) stamper = (.ok new, progress)) : BlockKeeps p new := by
  unfold Program.rewrite at h
  split at h
  · cases (Prod.mk.inj h).1
  · rename_i block after hrun
    obtain rfl := Except.ok.inj (Prod.mk.inj h).1
    exact makes_rewriteBlock p _ _ _ hrun

end Rules

end Stampline
