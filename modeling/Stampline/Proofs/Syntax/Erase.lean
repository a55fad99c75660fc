import Stampline.Proofs.Syntax.Induction

/-!
# Programs without their places

`erase` takes the spans out of a program. Two programs are the same up to where they stand if they are
the same once they are erased, and the written form of a program does not depend on where it stands.
-/

namespace Stampline

mutual

/-- An expression without spans. -/
def Expr.erase : Expr → Expr
  | .number _ value => .number none value
  | .text _ value => .text none value
  | .name _ id => .name none id
  | .member _ receiver id => .member none receiver.erase id
  | .call _ callee args keywords =>
    .call none callee.erase (eraseExprs args) (eraseKeywords keywords)
  | .binary _ op left right => .binary none op left.erase right.erase
  | .negate _ operand => .negate none operand.erase
  | .compare _ op left right => .compare none op left.erase right.erase

/-- Expressions without spans. -/
def eraseExprs : List Expr → List Expr
  | [] => []
  | e :: es => e.erase :: eraseExprs es

/-- A keyword argument without spans. -/
def Keyword.erase : Keyword → Keyword
  | .mk _ name value => .mk none name value.erase

/-- Keyword arguments without spans. -/
def eraseKeywords : List Keyword → List Keyword
  | [] => []
  | k :: ks => k.erase :: eraseKeywords ks

end

/-- A parameter without its span. -/
def Param.erase (p : Param) : Param := { p with span := none }

mutual

/-- A statement without spans. -/
def Stmt.erase : Stmt → Stmt
  | .define _ name params body => .define none name (params.map Param.erase) (eraseBlock body)
  | .give _ none => .give none none
  | .give _ (some value) => .give none (some value.erase)
  | .assign _ target value => .assign none target value.erase
  | .eval _ value => .eval none value.erase
  | .branch _ test body orelse => .branch none test.erase (eraseBlock body) (eraseBlock orelse)
  | .loop _ test body => .loop none test.erase (eraseBlock body)
  | .pass _ => .pass none

/-- The statements of a block without spans. -/
def eraseBlock : List Stmt → List Stmt
  | [] => []
  | s :: ss => s.erase :: eraseBlock ss

end

/-- A program without spans. -/
def Program.erase (p : Program) : Program := eraseBlock p

theorem eraseExprs_eq_map (es : List Expr) : eraseExprs es = es.map Expr.erase := by
  induction es with
  | nil => rfl
  | cons e es ih => rw [eraseExprs, ih, List.map_cons]

theorem eraseKeywords_eq_map (ks : List Keyword) : eraseKeywords ks = ks.map Keyword.erase := by
  induction ks with
  | nil => rfl
  | cons k ks ih => rw [eraseKeywords, ih, List.map_cons]

theorem eraseBlock_eq_map (block : List Stmt) : eraseBlock block = block.map Stmt.erase := by
  induction block with
  | nil => rfl
  | cons s ss ih => rw [eraseBlock, ih, List.map_cons]

@[simp] theorem eraseBlock_isEmpty (block : List Stmt) :
    (eraseBlock block).isEmpty = block.isEmpty := by
  cases block <;> rfl

@[simp] theorem Keyword.name_erase (k : Keyword) : k.erase.name = k.name := by cases k; rfl

/-! ## Written forms -/

@[simp] theorem Expr.strength_erase (e : Expr) : e.erase.strength = e.strength := by
  cases e <;> rfl

mutual

@[simp] theorem Expr.bare_erase : ∀ e : Expr, e.erase.bare = e.bare
  | .number .. | .text .. | .name .. => rfl
  | .member _ receiver _ => by
    simp only [Expr.erase, Expr.bare, Expr.strength_erase, receiver.bare_erase]
  | .call _ callee args keywords => by
    simp only [Expr.erase, Expr.bare, Expr.strength_erase, callee.bare_erase, argTexts_erase args,
      keywordTexts_erase keywords]
  | .binary _ _ left right | .compare _ _ left right => by
    simp only [Expr.erase, Expr.bare, Expr.strength_erase, left.bare_erase, right.bare_erase]
  | .negate _ operand => by
    simp only [Expr.erase, Expr.bare, Expr.strength_erase, operand.bare_erase]

theorem argTexts_erase : ∀ es : List Expr, argTexts (eraseExprs es) = argTexts es
  | [] => rfl
  | e :: es => by simp only [eraseExprs, argTexts, e.bare_erase, argTexts_erase es]

theorem keywordTexts_erase : ∀ ks : List Keyword, keywordTexts (eraseKeywords ks) = keywordTexts ks
  | [] => rfl
  | .mk _ _ value :: ks => by
    simp only [eraseKeywords, Keyword.erase, keywordTexts, Keyword.written, value.bare_erase,
      keywordTexts_erase ks]

end

theorem isLink_of_erase {block : List Stmt} (h : IsLink (eraseBlock block)) : IsLink block := by
  obtain ⟨span, test, body, orelse, h⟩ := h
  match block, h with
  | [.branch span test body orelse], _ => exact ⟨span, test, body, orelse, rfl⟩

theorem written_erase : ByStatement (fun s => ∀ depth, s.erase.written depth = s.written depth)
    (fun block => ∀ depth, blockText depth (eraseBlock block) = blockText depth block)
    (fun orelse => ∀ depth, orelseText depth (eraseBlock orelse) = orelseText depth orelse) where
  define span name params body hbody depth := by
    have hparams : (params.map Param.erase).map Param.name = params.map Param.name := by
      rw [List.map_map]
      rfl
    simp only [Stmt.erase, Stmt.written, hbody, hparams]
  giveZero span depth := rfl
  give span value depth := by simp only [Stmt.erase, Stmt.written, value.bare_erase]
  assign span target value depth := by simp only [Stmt.erase, Stmt.written, value.bare_erase]
  eval span value depth := by simp only [Stmt.erase, Stmt.written, value.bare_erase]
  branch span test body orelse hbody horelse depth := by
    simp only [Stmt.erase, Stmt.written, test.bare_erase, hbody, horelse]
  loop span test body hbody depth := by
    simp only [Stmt.erase, Stmt.written, test.bare_erase, hbody]
  pass span depth := rfl
  nil depth := rfl
  cons s ss hs hss depth := by simp only [eraseBlock, blockText, hs, hss]
  absent depth := rfl
  link span test body orelse hbody horelse depth := by
    simp only [eraseBlock, Stmt.erase, orelseText, test.bare_erase, hbody, horelse]
  otherwise block hne hlink hblock depth := by
    rw [orelseText_of_not_isLink hne hlink,
      orelseText_of_not_isLink (by simpa [eraseBlock_eq_map] using hne)
        (hlink ∘ isLink_of_erase), hblock]

/-- The written form of a program does not depend on where it stands. -/
@[simp] theorem Program.print_erase (p : Program) : p.erase.print = p.print :=
  written_erase.block p 0

end Stampline
