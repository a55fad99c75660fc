import Stampline.Proofs.Syntax.Forms
import Stampline.Syntax.Locate

/-!
# Programs and their places

Whether a program can be written, and how high it is and how deeply it nests, does not depend on where
it stands. To locate a program changes nothing but where it stands, and leaves no node without a
place.
-/

namespace Stampline

/-! ## Sizes and forms -/

mutual

@[simp] theorem Expr.height_erase : ∀ e : Expr, e.erase.height = e.height
  | .number .. | .text .. | .name .. => rfl
  | .member _ receiver _ => by simp only [Expr.erase, Expr.height, receiver.height_erase]
  | .call _ callee args keywords => by
    simp only [Expr.erase, Expr.height, callee.height_erase, heightOf_erase args,
      heightBy_erase keywords]
  | .binary _ _ left right | .compare _ _ left right => by
    simp only [Expr.erase, Expr.height, left.height_erase, right.height_erase]
  | .negate _ operand => by simp only [Expr.erase, Expr.height, operand.height_erase]

theorem heightOf_erase : ∀ es : List Expr, heightOf (eraseExprs es) = heightOf es
  | [] => rfl
  | e :: es => by simp only [eraseExprs, heightOf, e.height_erase, heightOf_erase es]

theorem heightBy_erase : ∀ ks : List Keyword, heightBy (eraseKeywords ks) = heightBy ks
  | [] => rfl
  | .mk _ _ value :: ks => by
    simp only [eraseKeywords, Keyword.erase, heightBy, value.height_erase, heightBy_erase ks]

end

mutual

@[simp] theorem Expr.nesting_erase : ∀ e : Expr, e.erase.nesting = e.nesting
  | .number .. | .text .. | .name .. => rfl
  | .member _ receiver _ => by
    simp only [Expr.erase, Expr.nesting, Expr.strength_erase, receiver.nesting_erase]
  | .call _ callee args keywords => by
    simp only [Expr.erase, Expr.nesting, Expr.strength_erase, callee.nesting_erase,
      nestingOf_erase args, nestingBy_erase keywords]
  | .binary _ _ left right | .compare _ _ left right => by
    simp only [Expr.erase, Expr.nesting, Expr.strength_erase, left.nesting_erase,
      right.nesting_erase]
  | .negate _ operand => by
    simp only [Expr.erase, Expr.nesting, Expr.strength_erase, operand.nesting_erase]

theorem nestingOf_erase : ∀ es : List Expr, nestingOf (eraseExprs es) = nestingOf es
  | [] => rfl
  | e :: es => by simp only [eraseExprs, nestingOf, e.nesting_erase, nestingOf_erase es]

theorem nestingBy_erase : ∀ ks : List Keyword, nestingBy (eraseKeywords ks) = nestingBy ks
  | [] => rfl
  | .mk _ _ value :: ks => by
    simp only [eraseKeywords, Keyword.erase, nestingBy, value.nesting_erase, nestingBy_erase ks]

end

theorem names_eraseKeywords (ks : List Keyword) :
    (eraseKeywords ks).map Keyword.name = ks.map Keyword.name := by
  simp [eraseKeywords_eq_map, Function.comp_def]

section Formed

variable {number : Int64 → Prop}

mutual

@[simp] theorem Expr.formed_erase : ∀ e : Expr, e.erase.Formed number ↔ e.Formed number
  | .number .. | .text .. | .name .. => .rfl
  | .member _ receiver _ => by simp only [Expr.erase, Expr.Formed, receiver.formed_erase]
  | .call _ callee args keywords => by
    simp only [Expr.erase, Expr.Formed, callee.formed_erase, exprsFormed_erase args,
      keywordsFormed_erase keywords, names_eraseKeywords]
  | .binary _ _ left right | .compare _ _ left right => by
    simp only [Expr.erase, Expr.Formed, left.formed_erase, right.formed_erase]
  | .negate _ operand => by simp only [Expr.erase, Expr.Formed, operand.formed_erase]

theorem exprsFormed_erase : ∀ es : List Expr,
    ExprsFormed number (eraseExprs es) ↔ ExprsFormed number es
  | [] => .rfl
  | e :: es => by simp only [eraseExprs, ExprsFormed, e.formed_erase, exprsFormed_erase es]

theorem keywordsFormed_erase : ∀ ks : List Keyword,
    KeywordsFormed number (eraseKeywords ks) ↔ KeywordsFormed number ks
  | [] => .rfl
  | .mk _ _ value :: ks => by
    simp only [eraseKeywords, Keyword.erase, KeywordsFormed, value.formed_erase,
      keywordsFormed_erase ks]

end

end Formed

theorem eraseBlock_eq_nil {block : List Stmt} : eraseBlock block = [] ↔ block = [] := by
  cases block <;> simp [eraseBlock]

theorem names_eraseParams (params : List Param) :
    (params.map Param.erase).map Param.name = params.map Param.name := by
  rw [List.map_map]
  rfl

mutual

theorem Stmt.height_erase : ∀ s : Stmt, s.erase.height = s.height
  | .define _ _ _ body => by simp only [Stmt.erase, Stmt.height, heightIn_erase body]
  | .give _ none | .pass _ => rfl
  | .give _ (some value) | .assign _ _ value | .eval _ value => value.height_erase
  | .branch _ test body orelse => by
    simp only [Stmt.erase, Stmt.height, test.height_erase, heightIn_erase body,
      heightIn_erase orelse]
  | .loop _ test body => by
    simp only [Stmt.erase, Stmt.height, test.height_erase, heightIn_erase body]

theorem heightIn_erase : ∀ block : List Stmt, heightIn (eraseBlock block) = heightIn block
  | [] => rfl
  | s :: ss => by simp only [eraseBlock, heightIn, s.height_erase, heightIn_erase ss]

end

mutual

theorem Stmt.nesting_erase : ∀ s : Stmt, s.erase.nesting = s.nesting
  | .define _ _ _ body => by simp only [Stmt.erase, Stmt.nesting, nestingIn_erase body]
  | .give _ none | .pass _ => rfl
  | .give _ (some value) | .assign _ _ value | .eval _ value => value.nesting_erase
  | .branch _ test body orelse => by
    simp only [Stmt.erase, Stmt.nesting, test.nesting_erase, nestingIn_erase body,
      nestingIn_erase orelse, eraseBlock_isEmpty]
  | .loop _ test body => by
    simp only [Stmt.erase, Stmt.nesting, test.nesting_erase, nestingIn_erase body]

theorem nestingIn_erase : ∀ block : List Stmt, nestingIn (eraseBlock block) = nestingIn block
  | [] => rfl
  | s :: ss => by simp only [eraseBlock, nestingIn, s.nesting_erase, nestingIn_erase ss]

end

section Formed

variable {number : Int64 → Prop}

mutual

theorem Stmt.formed_erase : ∀ s : Stmt, s.erase.Formed number ↔ s.Formed number
  | .define _ name params body => by
    have hnames : (∀ p ∈ params.map Param.erase, isName p.name = true) ↔
        ∀ p ∈ params, isName p.name = true := List.forall_mem_map
    simp only [Stmt.erase, Stmt.Formed, hnames, names_eraseParams, ne_eq, eraseBlock_eq_nil,
      blockFormed_erase body]
  | .give _ none | .pass _ => .rfl
  | .give _ (some value) | .eval _ value => value.formed_erase
  | .assign _ target value => by simp only [Stmt.erase, Stmt.Formed, value.formed_erase]
  | .branch _ test body orelse => by
    simp only [Stmt.erase, Stmt.Formed, test.formed_erase, ne_eq, eraseBlock_eq_nil,
      blockFormed_erase body, blockFormed_erase orelse]
  | .loop _ test body => by
    simp only [Stmt.erase, Stmt.Formed, test.formed_erase, ne_eq, eraseBlock_eq_nil,
      blockFormed_erase body]

theorem blockFormed_erase : ∀ block : List Stmt,
    BlockFormed number (eraseBlock block) ↔ BlockFormed number block
  | [] => .rfl
  | s :: ss => by simp only [eraseBlock, BlockFormed, s.formed_erase, blockFormed_erase ss]

end

end Formed

/-! ## Located programs -/

/-- Whatever the count of nodes that had no place, the result has the property `P`. -/
def Gives {α : Type} (x : StateM Nat α) (P : α → Prop) : Prop := ∀ count, P (x count).1

namespace Gives

variable {α β : Type} {x : StateM Nat α} {f : α → StateM Nat β} {P : α → Prop} {Q : β → Prop}

theorem pure {a : α} (ha : P a) : Gives (Pure.pure a) P := fun _ => ha

theorem bind (hx : Gives x P) (hf : ∀ a, P a → Gives (f a) Q) : Gives (x >>= f) Q :=
  fun count => hf _ (hx count) _

theorem settle {outer : Span} {span : Option Span} : Gives (settle outer span) fun _ => True :=
  fun _ => trivial

end Gives

mutual

theorem Expr.gives_locate : ∀ (e : Expr) (outer : Span), Gives (e.locate outer) fun located =>
    located.erase = e.erase ∧ located.firstUnlocated? = none
  | .number .., _ | .text .., _ | .name .., _ => Gives.settle.bind fun _ _ => .pure ⟨rfl, rfl⟩
  | .member _ receiver _, _ => Gives.settle.bind fun here _ =>
    (receiver.gives_locate here).bind fun e he =>
      .pure ⟨by simp only [Expr.erase, he.1], by simp [Expr.firstUnlocated?, he.2]⟩
  | .call _ callee args keywords, _ => Gives.settle.bind fun here _ =>
    (callee.gives_locate here).bind fun e he => (gives_locateExprs args here).bind fun es hes =>
      (gives_locateKeywords keywords here).bind fun ks hks =>
        .pure ⟨by simp only [Expr.erase, he.1, hes.1, hks.1],
          by simp [Expr.firstUnlocated?, he.2, hes.2, hks.2]⟩
  | .binary _ _ left right, _ | .compare _ _ left right, _ => Gives.settle.bind fun here _ =>
    (left.gives_locate here).bind fun l hl => (right.gives_locate here).bind fun r hr =>
      .pure ⟨by simp only [Expr.erase, hl.1, hr.1], by simp [Expr.firstUnlocated?, hl.2, hr.2]⟩
  | .negate _ operand, _ => Gives.settle.bind fun here _ =>
    (operand.gives_locate here).bind fun e he =>
      .pure ⟨by simp only [Expr.erase, he.1], by simp [Expr.firstUnlocated?, he.2]⟩

theorem gives_locateExprs : ∀ (es : List Expr) (outer : Span),
    Gives (locateExprs outer es) fun located =>
      eraseExprs located = eraseExprs es ∧ firstUnlocatedExpr? located = none
  | [], _ => .pure ⟨rfl, rfl⟩
  | e :: es, outer => (e.gives_locate outer).bind fun e he =>
    (gives_locateExprs es outer).bind fun es hes =>
      .pure ⟨by simp only [eraseExprs, he.1, hes.1], by simp [firstUnlocatedExpr?, he.2, hes.2]⟩

theorem Keyword.gives_locate : ∀ (k : Keyword) (outer : Span), Gives (k.locate outer) fun located =>
    located.erase = k.erase ∧ located.firstUnlocated? = none
  | .mk _ _ value, _ => Gives.settle.bind fun here _ =>
    (value.gives_locate here).bind fun e he =>
      .pure ⟨by simp only [Keyword.erase, he.1], by simp [Keyword.firstUnlocated?, he.2]⟩

theorem gives_locateKeywords : ∀ (ks : List Keyword) (outer : Span),
    Gives (locateKeywords outer ks) fun located =>
      eraseKeywords located = eraseKeywords ks ∧ firstUnlocatedKeyword? located = none
  | [], _ => .pure ⟨rfl, rfl⟩
  | k :: ks, outer => (k.gives_locate outer).bind fun k hk =>
    (gives_locateKeywords ks outer).bind fun ks hks =>
      .pure ⟨by simp only [eraseKeywords, hk.1, hks.1],
        by simp [firstUnlocatedKeyword?, hk.2, hks.2]⟩

end

theorem gives_locateParams : ∀ (params : List Param) (outer : Span),
    Gives (locateParams outer params) fun located =>
      located.map Param.erase = params.map Param.erase ∧ located.any (·.span.isNone) = false
  | [], _ => .pure ⟨rfl, rfl⟩
  | p :: ps, outer => Gives.settle.bind fun here _ =>
    (gives_locateParams ps outer).bind fun ps hps =>
      .pure ⟨by simp only [List.map_cons, hps.1, Param.erase], by simp [hps.2]⟩

mutual

theorem Stmt.gives_locate : ∀ (s : Stmt) (outer : Span), Gives (s.locate outer) fun located =>
    located.erase = s.erase ∧ located.firstUnlocated? = none
  | .define _ _ params body, _ => Gives.settle.bind fun here _ =>
    (gives_locateParams params here).bind fun ps hps => (gives_locateBlock body here).bind
      fun block hblock =>
        .pure ⟨by simp only [Stmt.erase, hps.1, hblock.1],
          by simp [Stmt.firstUnlocated?, hps.2, hblock.2]⟩
  | .give _ none, _ | .pass _, _ => Gives.settle.bind fun _ _ => .pure ⟨rfl, rfl⟩
  | .give _ (some value), _ | .assign _ _ value, _ | .eval _ value, _ =>
    Gives.settle.bind fun here _ => (value.gives_locate here).bind fun e he =>
      .pure ⟨by simp only [Stmt.erase, he.1], by simp [Stmt.firstUnlocated?, he.2]⟩
  | .branch _ test body orelse, _ => Gives.settle.bind fun here _ =>
    (test.gives_locate here).bind fun e he => (gives_locateBlock body here).bind fun block hblock =>
      (gives_locateBlock orelse here).bind fun other hother =>
        .pure ⟨by simp only [Stmt.erase, he.1, hblock.1, hother.1],
          by simp [Stmt.firstUnlocated?, he.2, hblock.2, hother.2]⟩
  | .loop _ test body, _ => Gives.settle.bind fun here _ =>
    (test.gives_locate here).bind fun e he => (gives_locateBlock body here).bind fun block hblock =>
      .pure ⟨by simp only [Stmt.erase, he.1, hblock.1],
        by simp [Stmt.firstUnlocated?, he.2, hblock.2]⟩

theorem gives_locateBlock : ∀ (block : List Stmt) (outer : Span),
    Gives (locateBlock outer block) fun located =>
      eraseBlock located = eraseBlock block ∧ firstUnlocatedStmt? located = none
  | [], _ => .pure ⟨rfl, rfl⟩
  | s :: ss, outer => (s.gives_locate outer).bind fun s hs =>
    (gives_locateBlock ss outer).bind fun ss hss =>
      .pure ⟨by simp only [eraseBlock, hs.1, hss.1], by simp [firstUnlocatedStmt?, hs.2, hss.2]⟩

end

/-- To locate a program changes nothing but where it stands. -/
@[simp] theorem Program.erase_locate (p : Program) : p.locate.1.erase = p.erase :=
  (gives_locateBlock p .root 0).1

/-- Every node of a located program has a place. -/
theorem Program.firstUnlocated?_locate (p : Program) : p.locate.1.firstUnlocated? = none :=
  (gives_locateBlock p .root 0).2

end Stampline
