import Stampline.Proofs.Syntax.Erase
import Stampline.Token.Scan

/-!
# Programs that can be written

A program is written so that it can be read back if its names are names, no block that must hold
something is empty, and no parameter or keyword argument is named twice. A negative number is written
as the negation of a number; `norm` is the program that is read back. What is written must also not
be too high nor nest too deeply.
-/

namespace Stampline

/-! ## Well-formed programs -/

/-- Whether a text is read as a name. -/
def isName (id : String) : Bool :=
  match id.toList with
  | [] => false
  | c :: cs => isNameStart c && cs.all isNameRest && (Reserved.ofSpelling? id).isNone

section Formed

variable (number : Int64 → Prop)

mutual

/-- The names of an expression are names, no call names a parameter twice, and `number` holds of the
numbers. -/
def Expr.Formed : Expr → Prop
  | .number _ value => number value
  | .text _ _ => True
  | .name _ id => isName id = true
  | .member _ receiver id => receiver.Formed ∧ isName id = true
  | .call _ callee args keywords =>
    callee.Formed ∧ ExprsFormed args ∧ KeywordsFormed keywords ∧ (keywords.map Keyword.name).Nodup
  | .binary _ _ left right => left.Formed ∧ right.Formed
  | .negate _ operand => operand.Formed
  | .compare _ _ left right => left.Formed ∧ right.Formed

/-- Expressions are well-formed. -/
def ExprsFormed : List Expr → Prop
  | [] => True
  | e :: es => e.Formed ∧ ExprsFormed es

/-- Keyword arguments are well-formed. -/
def KeywordsFormed : List Keyword → Prop
  | [] => True
  | .mk _ name value :: ks => isName name = true ∧ value.Formed ∧ KeywordsFormed ks

end

mutual

/-- A statement is well-formed: its expressions are, its names are names, no definition names a
parameter twice, and no body is empty. -/
def Stmt.Formed : Stmt → Prop
  | .define _ name params body =>
    isName name = true ∧ (∀ p ∈ params, isName p.name = true) ∧ (params.map Param.name).Nodup ∧
      body ≠ [] ∧ BlockFormed body
  | .give _ none => True
  | .give _ (some value) => value.Formed number
  | .assign _ target value => isName target = true ∧ value.Formed number
  | .eval _ value => value.Formed number
  | .branch _ test body orelse =>
    test.Formed number ∧ body ≠ [] ∧ BlockFormed body ∧ BlockFormed orelse
  | .loop _ test body => test.Formed number ∧ body ≠ [] ∧ BlockFormed body
  | .pass _ => True

/-- The statements of a block are well-formed. -/
def BlockFormed : List Stmt → Prop
  | [] => True
  | s :: ss => s.Formed ∧ BlockFormed ss

end

end Formed

/-- A program is well-formed, and can be written because the negations of its numbers are integers
too. -/
def Program.Formed (p : Program) : Prop := BlockFormed (fun value => Int64.minValue < value) p

/-! ## Signs -/

mutual

/-- An expression in which negative numbers are negations. -/
def Expr.norm : Expr → Expr
  | .number span value =>
    if value.toInt < 0 then .negate span (.number span (-value)) else .number span value
  | .text span value => .text span value
  | .name span id => .name span id
  | .member span receiver id => .member span receiver.norm id
  | .call span callee args keywords =>
    .call span callee.norm (normExprs args) (normKeywords keywords)
  | .binary span op left right => .binary span op left.norm right.norm
  | .negate span operand => .negate span operand.norm
  | .compare span op left right => .compare span op left.norm right.norm

/-- Expressions in which negative numbers are negations. -/
def normExprs : List Expr → List Expr
  | [] => []
  | e :: es => e.norm :: normExprs es

/-- Keyword arguments in which negative numbers are negations. -/
def normKeywords : List Keyword → List Keyword
  | [] => []
  | .mk span name value :: ks => .mk span name value.norm :: normKeywords ks

end

mutual

/-- A statement in which negative numbers are negations. -/
def Stmt.norm : Stmt → Stmt
  | .define span name params body => .define span name params (normBlock body)
  | .give span none => .give span none
  | .give span (some value) => .give span (some value.norm)
  | .assign span target value => .assign span target value.norm
  | .eval span value => .eval span value.norm
  | .branch span test body orelse => .branch span test.norm (normBlock body) (normBlock orelse)
  | .loop span test body => .loop span test.norm (normBlock body)
  | .pass span => .pass span

/-- The statements of a block, in which negative numbers are negations. -/
def normBlock : List Stmt → List Stmt
  | [] => []
  | s :: ss => s.norm :: normBlock ss

end

/-- A program in which negative numbers are negations. -/
def Program.norm (p : Program) : Program := normBlock p

/-! ## Sizes -/

mutual

/-- The height of the tree of an expression; a leaf has height one. -/
def Expr.height : Expr → Nat
  | .number .. | .text .. | .name .. => 1
  | .member _ receiver _ => receiver.height + 1
  | .call _ callee args keywords =>
    max callee.height (max (heightOf args) (heightBy keywords)) + 1
  | .binary _ _ left right | .compare _ _ left right => max left.height right.height + 1
  | .negate _ operand => operand.height + 1

/-- The greatest height of expressions. -/
def heightOf : List Expr → Nat
  | [] => 0
  | e :: es => max e.height (heightOf es)

/-- The greatest height of the values of keyword arguments. -/
def heightBy : List Keyword → Nat
  | [] => 0
  | .mk _ _ value :: ks => max value.height (heightBy ks)

end

/-- The parentheses around an expression in a place that asks for a strength of at least `least`. -/
def enclosure (least strength : Strength) : Nat := if strength.rank < least.rank then 1 else 0

mutual

/-- How deeply the written form of an expression nests, in signs, arguments and parentheses. -/
def Expr.nesting : Expr → Nat
  | .number _ value => if value.toInt < 0 then 1 else 0
  | .text .. | .name .. => 0
  | .member _ receiver _ => enclosure .postfixed receiver.strength + receiver.nesting
  | .call _ callee args keywords =>
    max (enclosure .postfixed callee.strength + callee.nesting)
      (max (nestingOf args) (nestingBy keywords) + 1)
  | .binary _ op left right =>
    max (enclosure op.strength left.strength + left.nesting)
      (enclosure op.strength.tighter right.strength + right.nesting)
  | .negate _ operand => enclosure .sign operand.strength + operand.nesting + 1
  | .compare _ _ left right =>
    max (enclosure .sum left.strength + left.nesting) (enclosure .sum right.strength + right.nesting)

/-- How deeply the written forms of expressions nest. -/
def nestingOf : List Expr → Nat
  | [] => 0
  | e :: es => max e.nesting (nestingOf es)

/-- How deeply the written forms of keyword arguments nest. -/
def nestingBy : List Keyword → Nat
  | [] => 0
  | .mk _ _ value :: ks => max value.nesting (nestingBy ks)

end

mutual

/-- The greatest height of the expressions of a statement. -/
def Stmt.height : Stmt → Nat
  | .define _ _ _ body => heightIn body
  | .give _ none | .pass _ => 0
  | .give _ (some value) | .assign _ _ value | .eval _ value => value.height
  | .branch _ test body orelse => max test.height (max (heightIn body) (heightIn orelse))
  | .loop _ test body => max test.height (heightIn body)

/-- The greatest height of the expressions of a block. -/
def heightIn : List Stmt → Nat
  | [] => 0
  | s :: ss => max s.height (heightIn ss)

end

mutual

/-- How deeply the written form of a statement nests, in blocks, links and expressions. -/
def Stmt.nesting : Stmt → Nat
  | .define _ _ _ body => nestingIn body + 1
  | .give _ none | .pass _ => 0
  | .give _ (some value) | .assign _ _ value | .eval _ value => value.nesting
  | .branch _ test body orelse =>
    max test.nesting (max (nestingIn body + 1) (if orelse.isEmpty then 0 else nestingIn orelse + 1))
  | .loop _ test body => max test.nesting (nestingIn body + 1)

/-- How deeply the written form of a block nests. A block that is written as a link nests as deeply
as one that is indented. -/
def nestingIn : List Stmt → Nat
  | [] => 0
  | s :: ss => max s.nesting (nestingIn ss)

end

/-- The greatest height of the expressions of a program. -/
def Program.height (p : Program) : Nat := heightIn p

/-- How deeply the written form of a program nests. -/
def Program.nesting (p : Program) : Nat := nestingIn p

/-! ## Written forms -/

theorem toInt_neg_of_lt {value : Int64} (h : Int64.minValue < value) :
    (-value).toInt = -value.toInt := by
  have hmin : (Int64.minValue).toInt = -9223372036854775808 := by decide
  have hle := value.toInt_le
  have hmax : (Int64.maxValue).toInt = 9223372036854775807 := by decide
  rw [Int64.lt_iff_toInt_lt] at h
  rw [Int64.toInt_neg]
  exact Int.bmod_eq_of_le (by omega) (by omega)

theorem toString_of_neg {n : Int} (h : n < 0) : toString n = "-" ++ toString (-n) := by
  obtain ⟨m, rfl⟩ := Int.eq_negSucc_of_lt_zero h
  rfl

/-- A number is written like its normal form. -/
theorem bare_norm_number {span : Option Span} {value : Int64} (h : Int64.minValue < value) :
    (Expr.norm (.number span value)).strength = Expr.strength (.number span value) ∧
      (Expr.norm (.number span value)).bare = Expr.bare (.number span value) := by
  rw [Expr.norm]
  split
  · rename_i hneg
    have hpos : ¬-value.toInt < 0 := by omega
    simp only [Expr.strength, Expr.bare, toInt_neg_of_lt h, hneg, hpos, if_true, if_false,
      toString_of_neg hneg]
    exact ⟨trivial, rfl⟩
  · exact ⟨rfl, rfl⟩

mutual

theorem Expr.bare_norm : ∀ {e : Expr}, e.Formed (fun value => Int64.minValue < value) →
    e.norm.strength = e.strength ∧ e.norm.bare = e.bare
  | .number .., h => bare_norm_number h
  | .text .., _ | .name .., _ => ⟨rfl, rfl⟩
  | .member _ receiver _, h => by
    obtain ⟨hstrength, hbare⟩ := receiver.bare_norm h.1
    exact ⟨rfl, by simp only [Expr.norm, Expr.bare, hstrength, hbare]⟩
  | .call _ callee args keywords, h => by
    obtain ⟨hcallee, hargs, hkeywords, -⟩ := h
    obtain ⟨hstrength, hbare⟩ := callee.bare_norm hcallee
    refine ⟨rfl, ?_⟩
    simp only [Expr.norm, Expr.bare, hstrength, hbare, argTexts_norm hargs,
      keywordTexts_norm hkeywords]
  | .binary _ _ left right, h | .compare _ _ left right, h => by
    obtain ⟨hleft, hbareLeft⟩ := left.bare_norm h.1
    obtain ⟨hright, hbareRight⟩ := right.bare_norm h.2
    refine ⟨rfl, ?_⟩
    simp only [Expr.norm, Expr.bare, hleft, hbareLeft, hright, hbareRight]
  | .negate _ operand, h => by
    obtain ⟨hstrength, hbare⟩ := operand.bare_norm h
    exact ⟨rfl, by simp only [Expr.norm, Expr.bare, hstrength, hbare]⟩

theorem argTexts_norm : ∀ {es : List Expr}, ExprsFormed (fun value => Int64.minValue < value) es →
    argTexts (normExprs es) = argTexts es
  | [], _ => rfl
  | e :: es, h => by simp only [normExprs, argTexts, (e.bare_norm h.1).2, argTexts_norm h.2]

theorem keywordTexts_norm : ∀ {ks : List Keyword},
    KeywordsFormed (fun value => Int64.minValue < value) ks →
      keywordTexts (normKeywords ks) = keywordTexts ks
  | [], _ => rfl
  | .mk _ _ value :: ks, h => by
    simp only [normKeywords, keywordTexts, Keyword.written, (value.bare_norm h.2.1).2,
      keywordTexts_norm h.2.2]

end

theorem normBlock_eq_map (block : List Stmt) : normBlock block = block.map Stmt.norm := by
  induction block with
  | nil => rfl
  | cons s ss ih => rw [normBlock, ih, List.map_cons]

theorem normBlock_ne_nil {block : List Stmt} (h : block ≠ []) : normBlock block ≠ [] := by
  simpa [normBlock_eq_map] using h

theorem isLink_of_norm {block : List Stmt} (h : IsLink (normBlock block)) : IsLink block := by
  obtain ⟨span, test, body, orelse, h⟩ := h
  match block, h with
  | [.branch span test body orelse], _ => exact ⟨span, test, body, orelse, rfl⟩

theorem written_norm : ByStatement
    (fun s => s.Formed (fun value => Int64.minValue < value) →
      ∀ depth, s.norm.written depth = s.written depth)
    (fun block => BlockFormed (fun value => Int64.minValue < value) block →
      ∀ depth, blockText depth (normBlock block) = blockText depth block)
    (fun orelse => BlockFormed (fun value => Int64.minValue < value) orelse →
      ∀ depth, orelseText depth (normBlock orelse) = orelseText depth orelse) where
  define span name params body hbody h depth := by
    simp only [Stmt.norm, Stmt.written, hbody h.2.2.2.2]
  giveZero span h depth := rfl
  give span value h depth := by simp only [Stmt.norm, Stmt.written, (Expr.bare_norm h).2]
  assign span target value h depth := by
    simp only [Stmt.norm, Stmt.written, (Expr.bare_norm h.2).2]
  eval span value h depth := by simp only [Stmt.norm, Stmt.written, (Expr.bare_norm h).2]
  branch span test body orelse hbody horelse h depth := by
    simp only [Stmt.norm, Stmt.written, (Expr.bare_norm h.1).2, hbody h.2.2.1, horelse h.2.2.2]
  loop span test body hbody h depth := by
    simp only [Stmt.norm, Stmt.written, (Expr.bare_norm h.1).2, hbody h.2.2]
  pass span h depth := rfl
  nil h depth := rfl
  cons s ss hs hss h depth := by simp only [normBlock, blockText, hs h.1, hss h.2]
  absent h depth := rfl
  link span test body orelse hbody horelse h depth := by
    obtain ⟨⟨htest, -, hbodyFormed, horelseFormed⟩, -⟩ := h
    simp only [normBlock, Stmt.norm, orelseText, (Expr.bare_norm htest).2, hbody hbodyFormed,
      horelse horelseFormed]
  otherwise block hne hlink hblock h depth := by
    rw [orelseText_of_not_isLink hne hlink,
      orelseText_of_not_isLink (normBlock_ne_nil hne) (hlink ∘ isLink_of_norm), hblock h]

/-- A program is written like its normal form. -/
theorem Program.print_norm {p : Program} (h : p.Formed) : p.norm.print = p.print :=
  written_norm.block p h 0

/-! ## Normal forms -/

mutual

theorem Expr.formed_norm : ∀ (e : Expr), e.Formed (fun value => Int64.minValue < value) →
    e.norm.Formed (fun value => 0 ≤ value.toInt)
  | .number _ value, h => by
    have h : Int64.minValue < value := h
    rw [Expr.norm]
    split
    · show 0 ≤ (-value).toInt
      rw [toInt_neg_of_lt h]
      omega
    · exact Int.not_lt.1 ‹_›
  | .text .., _ => trivial
  | .name .., h => h
  | .member _ receiver _, h => ⟨receiver.formed_norm h.1, h.2⟩
  | .call _ callee args keywords, h =>
    ⟨callee.formed_norm h.1, exprsFormed_norm h.2.1, keywordsFormed_norm h.2.2.1,
      (names_normKeywords keywords).symm ▸ h.2.2.2⟩
  | .binary _ _ left right, h | .compare _ _ left right, h =>
    ⟨left.formed_norm h.1, right.formed_norm h.2⟩
  | .negate _ operand, h => operand.formed_norm h

theorem exprsFormed_norm : ∀ {es : List Expr},
    ExprsFormed (fun value => Int64.minValue < value) es →
      ExprsFormed (fun value => 0 ≤ value.toInt) (normExprs es)
  | [], _ => trivial
  | e :: _, h => ⟨e.formed_norm h.1, exprsFormed_norm h.2⟩

theorem keywordsFormed_norm : ∀ {ks : List Keyword},
    KeywordsFormed (fun value => Int64.minValue < value) ks →
      KeywordsFormed (fun value => 0 ≤ value.toInt) (normKeywords ks)
  | [], _ => trivial
  | .mk _ _ value :: _, h => ⟨h.1, value.formed_norm h.2.1, keywordsFormed_norm h.2.2⟩

theorem names_normKeywords : ∀ ks : List Keyword,
    (normKeywords ks).map Keyword.name = ks.map Keyword.name
  | [] => rfl
  | .mk _ _ _ :: ks => by
    rw [normKeywords, List.map_cons, List.map_cons, names_normKeywords ks]
    rfl

end

mutual

theorem Stmt.formed_norm : ∀ {s : Stmt}, s.Formed (fun value => Int64.minValue < value) →
    s.norm.Formed (fun value => 0 ≤ value.toInt)
  | .define .., h =>
    ⟨h.1, h.2.1, h.2.2.1, normBlock_ne_nil h.2.2.2.1, blockFormed_norm h.2.2.2.2⟩
  | .give _ none, _ | .pass _, _ => trivial
  | .give _ (some value), h | .eval _ value, h => value.formed_norm h
  | .assign _ _ value, h => ⟨h.1, value.formed_norm h.2⟩
  | .branch _ test _ _, h => ⟨test.formed_norm h.1, normBlock_ne_nil h.2.1,
      blockFormed_norm h.2.2.1, blockFormed_norm h.2.2.2⟩
  | .loop _ test _, h =>
    ⟨test.formed_norm h.1, normBlock_ne_nil h.2.1, blockFormed_norm h.2.2⟩

theorem blockFormed_norm : ∀ {block : List Stmt},
    BlockFormed (fun value => Int64.minValue < value) block →
      BlockFormed (fun value => 0 ≤ value.toInt) (normBlock block)
  | [], _ => trivial
  | s :: _, h => ⟨s.formed_norm h.1, blockFormed_norm h.2⟩

end

end Stampline
