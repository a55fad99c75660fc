import Mathlib.Data.List.Nodup
import Stampline.Proofs.Syntax.Ensures
import Stampline.Proofs.Syntax.Statements
import Stampline.Pipeline

/-!
# What is accepted

Every program that is read can be written: it is well-formed, no expression of it is too high, and
its written form does not nest too deeply.
-/

namespace Stampline

open Stampline.Parser

/-! ## Expressions -/

/-- An operand fits into a place that asks for a strength of at least `least` and has `budget` levels
of nesting. -/
structure Fits (budget : Nat) (least : Strength) (o : Operand) : Prop where
  formed : o.expr.Formed fun value => 0 ≤ value.toInt
  height : o.height = o.expr.height
  low : o.expr.height ≤ maxNesting
  nesting : enclosure least o.expr.strength + o.expr.nesting ≤ budget

theorem enclosure_le_one (least strength : Strength) : enclosure least strength ≤ 1 := by
  unfold enclosure
  split <;> omega

theorem enclosure_self (strength : Strength) : enclosure strength strength = 0 :=
  if_neg (Nat.lt_irrefl _)

theorem enclosure_loosest (strength : Strength) : enclosure .loosest strength = 0 :=
  if_neg (Nat.not_lt_zero _)

theorem enclosure_mono {least least' : Strength} (h : least.rank ≤ least'.rank)
    (strength : Strength) : enclosure least strength ≤ enclosure least' strength := by
  unfold enclosure
  split <;> split <;> omega

variable {budget : Nat}

theorem Fits.loosen {least least' : Strength} {o : Operand} (h : Fits budget least' o)
    (hrank : least.rank ≤ least'.rank) : Fits budget least o :=
  ⟨h.formed, h.height, h.low,
    Nat.le_trans (Nat.add_le_add_right (enclosure_mono hrank _) _) h.nesting⟩

/-- What stands in parentheses fits everywhere. -/
theorem Fits.parens {o : Operand} (h : Fits budget .loosest o) (least : Strength) :
    Fits (budget + 1) least o := by
  have hnesting := h.nesting
  have hle := enclosure_le_one least o.expr.strength
  rw [enclosure_loosest] at hnesting
  exact ⟨h.formed, h.height, h.low, by omega⟩

theorem Fits.of_node {e : Expr} {height : Nat} {o : Operand}
    (h : o = ⟨e, height⟩ ∧ height ≤ maxNesting) (hformed : e.Formed fun value => 0 ≤ value.toInt)
    (hheight : height = e.height) (hnesting : e.nesting ≤ budget) : Fits budget e.strength o := by
  obtain ⟨rfl, hlow⟩ := h
  exact ⟨hformed, hheight, hheight ▸ hlow, by rw [enclosure_self, Nat.zero_add]; exact hnesting⟩

theorem Fits.of_leaf {e : Expr} (hformed : e.Formed fun value => 0 ≤ value.toInt)
    (hheight : e.height = 1) (hnesting : e.nesting = 0) : Fits budget e.strength ⟨e, 1⟩ :=
  .of_node ⟨rfl, by decide⟩ hformed hheight.symm (hnesting ▸ Nat.zero_le _)

theorem ensures_atom {inner : Option (Parser Operand)}
    (hinner : ∀ p ∈ inner, Ensures p fun o => ∀ least, Fits budget least o) :
    Ensures (atom inner) (Fits budget .atom) := by
  refine Ensures.take.bind fun l hl => ?_
  obtain ⟨token, span⟩ := l
  cases token with
  | integer value =>
    have hnonneg : ¬value.toInt < 0 := Int.not_lt.2 hl
    have hstrength : (Expr.number span value).strength = .atom := if_neg hnonneg
    exact .pure (hstrength ▸ .of_leaf hl rfl (if_neg hnonneg))
  | text value => exact .pure (.of_leaf (e := .text span value) trivial rfl rfl)
  | name id => exact .pure (.of_leaf (e := .name span id) hl rfl rfl)
  | symbol s =>
    cases s with
    | leftParen =>
      exact (Ensures.nested hinner).bind fun o ho => Ensures.expect.bind fun _ _ => .pure (ho _)
    | _ => exact .failAt
  | _ => exact .failAt

/-! ## Operators -/

section Joins

variable {left right : Operand}

/-- A node of two operands fits where neither operand nests too deeply. -/
theorem ensures_join {build : Option Span → Expr → Expr → Expr} {least : Strength}
    (hbuild : ∀ span, (build span left.expr right.expr).strength = least ∧
      ((build span left.expr right.expr).Formed fun value => 0 ≤ value.toInt) ∧
      (build span left.expr right.expr).height = max left.height right.height + 1 ∧
      (build span left.expr right.expr).nesting ≤ budget) :
    Ensures (join build left right) (Fits budget least) := by
  obtain ⟨hstrength, hformed, hheight, hnesting⟩ :=
    hbuild (Span.join left.expr.span right.expr.span)
  exact Ensures.node.imp fun o ho => hstrength ▸ .of_node ho hformed hheight.symm hnesting

theorem ensures_join_binary {op : BinaryOp} (hleft : Fits budget op.strength left)
    (hright : Fits budget op.strength.tighter right) :
    Ensures (join (fun s => .binary s op) left right) (Fits budget op.strength) :=
  ensures_join fun _ => ⟨rfl, ⟨hleft.formed, hright.formed⟩,
    by rw [hleft.height, hright.height]; rfl, Nat.max_le.2 ⟨hleft.nesting, hright.nesting⟩⟩

theorem ensures_join_compare {op : Comparison} (hleft : Fits budget .sum left)
    (hright : Fits budget .sum right) :
    Ensures (join (fun s => .compare s op) left right) (Fits budget .comparison) :=
  ensures_join fun _ => ⟨rfl, ⟨hleft.formed, hright.formed⟩,
    by rw [hleft.height, hright.height]; rfl, Nat.max_le.2 ⟨hleft.nesting, hright.nesting⟩⟩

end Joins

theorem ensures_chainFrom {op? : Token → Option BinaryOp} {least : Strength}
    {operand : Parser Operand} (hop : ∀ t op, op? t = some op → op.strength = least)
    (hoperand : Ensures operand (Fits budget least.tighter)) : ∀ (bound : List Lexeme)
    {left : Operand}, Fits budget least left →
      Ensures (chainFrom op? operand bound left) (Fits budget least)
  | [], _, hleft => .pure hleft
  | _ :: bound, left, hleft => by
    refine Ensures.peek.bind fun l _ => ?_
    split
    · exact .pure hleft
    · rename_i op hsome
      obtain rfl := hop _ _ hsome
      exact Ensures.take.bind fun _ _ => hoperand.bind fun right hright =>
        (ensures_join_binary hleft hright).bind fun o ho =>
          ensures_chainFrom hop hoperand bound ho

theorem ensures_chain {op? : Token → Option BinaryOp} {least : Strength}
    {operand : Parser Operand} (hop : ∀ t op, op? t = some op → op.strength = least)
    (hrank : least.rank ≤ least.tighter.rank)
    (hoperand : Ensures operand (Fits budget least.tighter)) :
    Ensures (chain op? operand) (Fits budget least) :=
  hoperand.bind fun _ hleft => Ensures.remaining.bind fun bound _ =>
    ensures_chainFrom hop hoperand bound (hleft.loosen hrank)

theorem strength_of_productOp? (t : Token) (op : BinaryOp) (h : productOp? t = some op) :
    op.strength = .product := by
  unfold productOp? at h
  split at h <;> first | (obtain rfl := Option.some.inj h; rfl) | cases h

theorem strength_of_sumOp? (t : Token) (op : BinaryOp) (h : sumOp? t = some op) :
    op.strength = .sum := by
  unfold sumOp? at h
  split at h <;> first | (obtain rfl := Option.some.inj h; rfl) | cases h

theorem ensures_compared {operand : Parser Operand} (h : Ensures operand (Fits budget .sign)) :
    Ensures (compared operand) (Fits budget .loosest) := by
  have hsum : Ensures (sum operand) (Fits budget .sum) :=
    ensures_chain strength_of_sumOp? (by decide)
      (ensures_chain strength_of_productOp? (by decide) h)
  refine hsum.bind fun left hleft => Ensures.peek.bind fun l _ => ?_
  split
  · exact .pure (hleft.loosen (by decide))
  · rename_i op _
    refine Ensures.take.bind fun _ _ => hsum.bind fun right hright => Ensures.peek.bind fun l' _ => ?_
    have hjoin : Ensures (join (fun s => .compare s op) left right) (Fits budget .loosest) :=
      (ensures_join_compare hleft hright).imp fun o ho => ho.loosen (by decide)
    split
    · exact Ensures.fail.bind fun _ (_ : False) => hjoin
    · exact hjoin

/-! ## Arguments -/

/-- Arguments fit into a call that has `budget` levels of nesting for them. -/
structure Parser.Arguments.Fit (budget : Nat) (a : Arguments) : Prop where
  formedArgs : ExprsFormed (fun value => 0 ≤ value.toInt) a.args
  formedKeywords : KeywordsFormed (fun value => 0 ≤ value.toInt) a.keywords
  distinct : (a.keywords.map Keyword.name).Nodup
  height : a.height = max (heightOf a.args) (heightBy a.keywords)
  nestingArgs : nestingOf a.args ≤ budget
  nestingKeywords : nestingBy a.keywords ≤ budget

theorem exprsFormed_append {number : Int64 → Prop} {es : List Expr} {e : Expr} :
    ExprsFormed number (es ++ [e]) ↔ ExprsFormed number es ∧ e.Formed number := by
  induction es with
  | nil => simp [ExprsFormed]
  | cons e' es ih => simp [ExprsFormed, ih, and_assoc]

theorem keywordsFormed_append {number : Int64 → Prop} {ks : List Keyword} {k : Keyword} :
    KeywordsFormed number (ks ++ [k]) ↔
      KeywordsFormed number ks ∧ isName k.name = true ∧ k.value.Formed number := by
  induction ks with
  | nil => cases k; simp [KeywordsFormed, Keyword.name, Keyword.value]
  | cons k' ks ih => cases k'; simp [KeywordsFormed, ih, and_assoc]

theorem nestingOf_append (es : List Expr) (e : Expr) :
    nestingOf (es ++ [e]) = max (nestingOf es) e.nesting := by
  induction es with
  | nil => simp [nestingOf]
  | cons e' es ih => simp [nestingOf, ih, Nat.max_assoc]

theorem nestingBy_append (ks : List Keyword) (k : Keyword) :
    nestingBy (ks ++ [k]) = max (nestingBy ks) k.value.nesting := by
  induction ks with
  | nil => cases k; simp [nestingBy, Keyword.value]
  | cons k' ks ih => cases k'; simp [nestingBy, ih, Nat.max_assoc]

theorem ensures_positional {value : Parser Operand} {before : Arguments} {start : Span}
    (hvalue : Ensures value (Fits budget .loosest)) (hbefore : before.Fit budget) :
    Ensures (positional value before start) (Arguments.Fit budget) := by
  unfold positional
  split
  · exact Ensures.failAt.bind fun _ (h : False) => h.elim
  · refine hvalue.bind fun o ho => .pure ?_
    have hnesting := ho.nesting
    rw [enclosure_loosest] at hnesting
    refine ⟨exprsFormed_append.2 ⟨hbefore.formedArgs, ho.formed⟩, hbefore.formedKeywords,
      hbefore.distinct, ?_, ?_, hbefore.nestingKeywords⟩
    · show max before.height o.height =
        max (heightOf (before.args ++ [o.expr])) (heightBy before.keywords)
      rw [heightOf_append, hbefore.height, ho.height]
      omega
    · rw [nestingOf_append]
      exact Nat.max_le.2 ⟨hbefore.nestingArgs, by omega⟩

theorem ensures_argument {value : Parser Operand} {before : Arguments}
    (hvalue : Ensures value (Fits budget .loosest)) (hbefore : before.Fit budget) :
    Ensures (argument value before) (Arguments.Fit budget) := by
  refine Ensures.peek.bind fun start hstart => Ensures.peekSecond.bind fun second _ => ?_
  split
  · rename_i id hid
    rw [hid] at hstart
    refine Ensures.take.bind fun _ _ => Ensures.take.bind fun _ _ => ?_
    split
    · exact Ensures.failAt.bind fun _ (h : False) => h.elim
    · rename_i hrepeated
      refine hvalue.bind fun o ho => Ensures.lastSpan.bind fun last _ => .pure ?_
      have hid : id ∉ before.keywords.map Keyword.name := by
        simpa using hrepeated
      have hnesting := ho.nesting
      rw [enclosure_loosest] at hnesting
      refine ⟨hbefore.formedArgs, keywordsFormed_append.2 ⟨hbefore.formedKeywords, hstart, ho.formed⟩,
        ?_, ?_, hbefore.nestingArgs, ?_⟩
      · rw [List.map_append]
        exact hbefore.distinct.append (List.nodup_singleton _) (List.disjoint_singleton.2 hid)
      · rw [heightBy_append, hbefore.height, ho.height]
        exact Nat.max_assoc ..
      · rw [nestingBy_append]
        exact Nat.max_le.2 ⟨hbefore.nestingKeywords, by rw [Keyword.value]; omega⟩
  · exact ensures_positional hvalue hbefore

theorem ensures_argumentsFrom {value : Parser Operand}
    (hvalue : Ensures value (Fits budget .loosest)) : ∀ (bound : List Lexeme) {before : Arguments},
    before.Fit budget → Ensures (argumentsFrom value bound before) (Arguments.Fit budget)
  | [], _, hbefore => .pure hbefore
  | _ :: bound, before, hbefore => by
    refine Ensures.peek.bind fun _ _ => ?_
    split
    · exact .pure hbefore
    · refine (ensures_argument hvalue hbefore).bind fun now hnow => Ensures.eat.bind fun more _ => ?_
      split
      · exact ensures_argumentsFrom hvalue bound hnow
      · exact .pure hnow

theorem ensures_arguments {value : Parser Operand}
    (hvalue : Ensures value (Fits budget .loosest)) :
    Ensures (arguments value) (Arguments.Fit budget) := by
  have hnone : ({} : Arguments).Fit budget :=
    ⟨trivial, trivial, .nil, rfl, Nat.zero_le _, Nat.zero_le _⟩
  exact Ensures.remaining.bind fun bound _ => (ensures_argumentsFrom hvalue bound hnone).bind
    fun _ hall => Ensures.expect.bind fun _ _ => .pure hall

/-! ## Calls, attributes and signs -/

section Levels

variable (hexpression : ∀ b, budget = b + 1 → Ensures (expression b) (Fits b .loosest))

include hexpression

theorem ensures_postfixFrom {start : Span} : ∀ (bound : List Lexeme) {operand : Operand},
    Fits budget .postfixed operand →
      Ensures (postfixFrom (inner budget) start bound operand) (Fits budget .postfixed)
  | [], _, hoperand => .pure hoperand
  | _ :: bound, operand, hoperand => by
    refine Ensures.peek.bind fun _ _ => ?_
    split
    · have harguments : Ensures (nested ((inner budget).map arguments)) fun a =>
          ∃ b, budget = b + 1 ∧ a.Fit b := by
        cases budget with
        | zero => exact .fail
        | succ b => exact (ensures_arguments (hexpression b rfl)).imp fun a ha => ⟨b, rfl, ha⟩
      refine Ensures.take.bind fun _ _ => harguments.bind fun a ha =>
        Ensures.lastSpan.bind fun _ _ => Ensures.node.bind fun o ho => ?_
      obtain ⟨b, hb, ha⟩ := ha
      refine ensures_postfixFrom bound (.of_node ho ⟨hoperand.formed, ha.formedArgs,
        ha.formedKeywords, ha.distinct⟩ (by rw [hoperand.height, ha.height]; rfl) ?_)
      exact Nat.max_le.2 ⟨hoperand.nesting,
        hb ▸ Nat.succ_le_succ (Nat.max_le.2 ⟨ha.nestingArgs, ha.nestingKeywords⟩)⟩
    · refine Ensures.take.bind fun _ _ => Ensures.expectName.bind fun id hid =>
        Ensures.lastSpan.bind fun _ _ => Ensures.node.bind fun o ho => ?_
      exact ensures_postfixFrom bound (.of_node ho ⟨hoperand.formed, hid⟩
        (by rw [hoperand.height]; rfl) hoperand.nesting)
    · exact .pure hoperand

theorem ensures_postfixed : Ensures (postfixed (inner budget)) (Fits budget .postfixed) := by
  refine Ensures.peek.bind fun start _ => (ensures_atom ?_).bind fun o ho =>
    Ensures.remaining.bind fun bound _ =>
      ensures_postfixFrom hexpression bound (ho.loosen (by decide))
  intro p hp
  cases budget with
  | zero => cases hp
  | succ b =>
    obtain rfl := Option.some.inj hp
    exact (hexpression b rfl).imp fun o ho => ho.parens

theorem ensures_signed (hnegation : ∀ b, budget = b + 1 → Ensures (negation b) (Fits b .sign)) :
    Ensures (signed (deeper budget) (inner budget)) (Fits budget .sign) := by
  refine Ensures.peek.bind fun start _ => ?_
  split
  · have hoperand : Ensures (nested (deeper budget)) fun o => ∃ b, budget = b + 1 ∧ Fits b .sign o := by
      cases budget with
      | zero => exact .fail
      | succ b => exact (hnegation b rfl).imp fun o ho => ⟨b, rfl, ho⟩
    refine Ensures.take.bind fun _ _ => hoperand.bind fun o ho => Ensures.lastSpan.bind fun _ _ =>
      Ensures.node.imp fun o' ho' => ?_
    obtain ⟨b, rfl, ho⟩ := ho
    exact .of_node ho' ho.formed (by rw [ho.height]; rfl) (Nat.succ_le_succ ho.nesting)
  · exact (ensures_postfixed hexpression).imp fun o ho => ho.loosen (by decide)

end Levels

/-- Every expression that is read fits. -/
theorem ensures_expression : ∀ budget : Nat, Ensures (expression budget) (Fits budget .loosest) ∧
    Ensures (negation budget) (Fits budget .sign)
  | 0 => by
    have hnegation : Ensures (negation 0) (Fits 0 .sign) := by
      rw [negation_eq]
      exact ensures_signed (by omega) (by omega)
    refine ⟨?_, hnegation⟩
    rw [expression_eq]
    exact ensures_compared hnegation
  | b + 1 => by
    obtain ⟨hexpression, hdeeper⟩ := ensures_expression b
    have hnegation : Ensures (negation (b + 1)) (Fits (b + 1) .sign) := by
      rw [negation_eq]
      refine ensures_signed ?_ ?_ <;> rintro _ ⟨⟩
      · exact hexpression
      · exact hdeeper
    refine ⟨?_, hnegation⟩
    rw [expression_eq]
    exact ensures_compared hnegation

/-! ## Statements -/

/-- A statement fits where there are `budget` levels of nesting. -/
structure Stmt.Fits (budget : Nat) (s : Stmt) : Prop where
  formed : s.Formed fun value => 0 ≤ value.toInt
  low : s.height ≤ maxNesting
  nesting : s.nesting ≤ budget

/-- A block fits where there are `budget` levels of nesting. -/
structure BlockFits (budget : Nat) (block : List Stmt) : Prop where
  formed : BlockFormed (fun value => 0 ≤ value.toInt) block
  low : heightIn block ≤ maxNesting
  nesting : nestingIn block ≤ budget

theorem Fits.expr {o : Operand} (h : Fits budget .loosest o) : o.expr.nesting ≤ budget := by
  have hnesting := h.nesting
  rwa [enclosure_loosest, Nat.zero_add] at hnesting

theorem BlockFits.nil : BlockFits budget [] := ⟨trivial, Nat.zero_le _, Nat.zero_le _⟩

theorem BlockFits.cons {s : Stmt} {ss : List Stmt} (hs : s.Fits budget) (hss : BlockFits budget ss) :
    BlockFits budget (s :: ss) :=
  ⟨⟨hs.formed, hss.formed⟩, Nat.max_le.2 ⟨hs.low, hss.low⟩, Nat.max_le.2 ⟨hs.nesting, hss.nesting⟩⟩

theorem ensures_simple {value : Parser Operand} (hvalue : Ensures value (Fits budget .loosest)) :
    Ensures (simple value) (Stmt.Fits budget) := by
  refine Ensures.peek.bind fun start _ => ?_
  split
  · exact Ensures.take.bind fun _ _ => .pure ⟨trivial, Nat.zero_le _, Nat.zero_le _⟩
  · refine Ensures.take.bind fun _ _ => Ensures.peek.bind fun next _ => ?_
    split
    · exact Ensures.lastSpan.bind fun _ _ => .pure ⟨trivial, Nat.zero_le _, Nat.zero_le _⟩
    · exact hvalue.bind fun o ho => Ensures.lastSpan.bind fun _ _ =>
        .pure ⟨ho.formed, ho.low, ho.expr⟩
  · refine hvalue.bind fun left hleft => Ensures.eat.bind fun found _ => ?_
    split
    · split
      · rename_i span id hid
        have hname := hleft.formed
        rw [hid] at hname
        exact hvalue.bind fun o ho => Ensures.lastSpan.bind fun _ _ =>
          .pure ⟨⟨hname, ho.formed⟩, ho.low, ho.expr⟩
      · exact .failAt
    · exact .pure ⟨hleft.formed, hleft.low, hleft.expr⟩

theorem ensures_line {value : Parser Operand} (hvalue : Ensures value (Fits budget .loosest)) :
    Ensures (line value) (Stmt.Fits budget) :=
  (ensures_simple hvalue).bind fun _ hs => Ensures.expect.bind fun _ _ => .pure hs

/-- Parameters that are read are names, each of them once. -/
theorem ensures_paramsFrom : ∀ (bound : List Lexeme) {before : List Param},
    (∀ p ∈ before, isName p.name = true) → (before.map Param.name).Nodup →
    Ensures (paramsFrom bound before) fun params =>
      (∀ p ∈ params, isName p.name = true) ∧ (params.map Param.name).Nodup
  | [], _, hnames, hdistinct => .pure ⟨hnames, hdistinct⟩
  | _ :: bound, before, hnames, hdistinct => by
    refine Ensures.peek.bind fun start _ => ?_
    split
    · exact .pure ⟨hnames, hdistinct⟩
    · refine Ensures.expectName.bind fun id hid => ?_
      split
      · exact Ensures.failAt.bind fun _ (h : False) => h.elim
      · rename_i hrepeated
        have hnow : ∀ p ∈ before ++ [(⟨id, start.span⟩ : Param)], isName p.name = true := by
          simpa [or_imp, forall_and] using ⟨hnames, hid⟩
        have hdistinctNow : ((before ++ [(⟨id, start.span⟩ : Param)]).map Param.name).Nodup := by
          rw [List.map_append]
          exact hdistinct.append (List.nodup_singleton _)
            (List.disjoint_singleton.2 (by simpa using hrepeated))
        refine Ensures.eat.bind fun more _ => ?_
        split
        · exact ensures_paramsFrom bound hnow hdistinctNow
        · exact .pure ⟨hnow, hdistinctNow⟩

/-- A block that is read behind what opens it fits, and is not empty. -/
def Encloses (budget : Nat) : Prop :=
  Ensures (nested (bodies budget)) fun block =>
    block ≠ [] ∧ ∃ b, budget = b + 1 ∧ BlockFits b block

theorem ensures_definition (hbody : Encloses budget) :
    Ensures (definition (bodies budget)) (Stmt.Fits budget) := by
  refine Ensures.take.bind fun start _ => Ensures.expectName.bind fun name hname =>
    Ensures.expect.bind fun _ _ => Ensures.remaining.bind fun bound _ =>
    (@ensures_paramsFrom bound [] (by simp) .nil).bind fun params hparams =>
    Ensures.expect.bind fun _ _ => Ensures.expect.bind fun _ _ => hbody.bind fun body hbody =>
    Ensures.lastSpan.bind fun _ _ => .pure ?_
  obtain ⟨hne, b, rfl, hfits⟩ := hbody
  exact ⟨⟨hname, hparams.1, hparams.2, hne, hfits.formed⟩, hfits.low,
    Nat.succ_le_succ hfits.nesting⟩

theorem ensures_repetition (hbody : Encloses budget) :
    Ensures (repetition (expression budget) (bodies budget)) (Stmt.Fits budget) := by
  refine Ensures.take.bind fun start _ => (ensures_expression budget).1.bind fun test htest =>
    Ensures.expect.bind fun _ _ => hbody.bind fun body hbody =>
    Ensures.lastSpan.bind fun _ _ => .pure ?_
  have hnesting := htest.expr
  obtain ⟨hne, b, rfl, hfits⟩ := hbody
  exact ⟨⟨htest.formed, hne, hfits.formed⟩, Nat.max_le.2 ⟨htest.low, hfits.low⟩,
    Nat.max_le.2 ⟨hnesting, Nat.succ_le_succ hfits.nesting⟩⟩

theorem ensures_conditional (hbody : Encloses budget)
    (hlink : ∀ b, budget = b + 1 → Ensures (conditional b) (Stmt.Fits b)) :
    Ensures (conditional budget) (Stmt.Fits budget) := by
  have halternative : Ensures (alternative (bodies budget) (links budget)) fun orelse =>
      orelse = [] ∨ ∃ b, budget = b + 1 ∧ BlockFits b orelse := by
    refine Ensures.peek.bind fun l _ => ?_
    split
    · rw [← bind_pure_comp]
      have hnested : Ensures (nested (links budget)) fun s => ∃ b, budget = b + 1 ∧ s.Fits b := by
        cases budget with
        | zero => exact .fail
        | succ b => exact (hlink b rfl).imp fun s hs => ⟨b, rfl, hs⟩
      refine hnested.bind fun s hs => .pure (.inr ?_)
      obtain ⟨b, hb, hs⟩ := hs
      exact ⟨b, hb, .cons hs .nil⟩
    · exact Ensures.take.bind fun _ _ => Ensures.expect.bind fun _ _ =>
        hbody.imp fun block hblock => .inr hblock.2
    · exact .pure (.inl rfl)
  rw [conditional_eq]
  refine Ensures.take.bind fun start _ => (ensures_expression budget).1.bind fun test htest =>
    Ensures.expect.bind fun _ _ => hbody.bind fun body hbody =>
    halternative.bind fun orelse horelse => Ensures.lastSpan.bind fun _ _ => .pure ?_
  have hnesting := htest.expr
  obtain ⟨hne, b, rfl, hfits⟩ := hbody
  have hfitsOrelse : BlockFits b orelse := by
    rcases horelse with rfl | ⟨b', hb, horelse⟩
    · exact .nil
    · obtain rfl := Nat.succ.inj hb
      exact horelse
  refine ⟨⟨htest.formed, hne, hfits.formed, hfitsOrelse.formed⟩,
    Nat.max_le.2 ⟨htest.low, Nat.max_le.2 ⟨hfits.low, hfitsOrelse.low⟩⟩,
    Nat.max_le.2 ⟨hnesting, Nat.max_le.2 ⟨Nat.succ_le_succ hfits.nesting, ?_⟩⟩⟩
  split
  · exact Nat.zero_le _
  · exact Nat.succ_le_succ hfitsOrelse.nesting

theorem ensures_statement (hbody : Encloses budget)
    (hlink : ∀ b, budget = b + 1 → Ensures (conditional b) (Stmt.Fits b)) :
    Ensures (statement budget) (Stmt.Fits budget) := by
  rw [statement_eq]
  refine Ensures.peek.bind fun l _ => ?_
  split
  · exact ensures_definition hbody
  · rw [← conditional_eq]
    exact ensures_conditional hbody hlink
  · exact ensures_repetition hbody
  · exact ensures_line (ensures_expression budget).1

/-! ## Blocks -/

theorem ensures_statementsFrom {statement : Parser Stmt}
    (h : Ensures statement (Stmt.Fits budget)) : ∀ (bound : List Lexeme) (before : List Stmt),
    Ensures (statementsFrom statement bound before) fun all =>
      ∃ block, all = before.reverse ++ block ∧ BlockFits budget block
  | [], before => .pure ⟨[], (List.append_nil _).symm, .nil⟩
  | _ :: bound, before => by
    refine Ensures.eat.bind fun found _ => ?_
    split
    · exact .pure ⟨[], (List.append_nil _).symm, .nil⟩
    · refine h.bind fun s hs => (ensures_statementsFrom h bound (s :: before)).imp ?_
      rintro _ ⟨block, rfl, hblock⟩
      exact ⟨s :: block, by simp, .cons hs hblock⟩

/-- A block that was opened is read to its end and holds something. -/
theorem ensures_indented {statement : Parser Stmt} (h : Ensures statement (Stmt.Fits budget)) :
    Ensures (do expect .indent; statementsFrom statement (← remaining) []) fun block =>
      block ≠ [] ∧ BlockFits budget block := by
  intro s block s' hs hblock
  obtain ⟨_, s₁, hexpect, hblock⟩ := Parser.bind_eq_ok hblock
  obtain ⟨t, ts, hs₁, hdedent⟩ := opened_of_expect hs hexpect
  obtain ⟨bound, s₂, hs₂, hbound, hremaining⟩ := (Reads.remaining hs₁).bind_eq
  rw [hremaining] at hblock
  obtain ⟨l, bound, rfl⟩ : ∃ l ls, bound = l :: ls :=
    List.exists_cons_of_ne_nil (List.ne_nil_of_length_pos (hbound ▸ Nat.succ_pos _))
  obtain ⟨found, s₃, hs₃, hfound, heat⟩ := (Reads.eat_of_ne hs₂ hdedent).bind_eq
  rw [statementsFrom] at hblock
  simp only [monadLift_self, heat, hfound] at hblock
  have hsound : Sound s₃.tokens := hs₃ ▸ hs₁ ▸ (Ensures.expect s _ s₁ hs hexpect).1
  have hrest : Ensures (do let s ← statement; statementsFrom statement bound [s]) fun block =>
      block ≠ [] ∧ BlockFits budget block := by
    refine h.bind fun s hs => (ensures_statementsFrom h bound [s]).imp ?_
    rintro _ ⟨block, rfl, hblock⟩
    exact ⟨by simp, .cons hs hblock⟩
  exact hrest s₃ block s' hsound hblock

theorem ensures_block (h : Ensures (statement budget) (Stmt.Fits budget)) :
    Ensures (block budget) fun block => block ≠ [] ∧ BlockFits budget block := by
  rw [block_eq]
  refine Ensures.eat.bind fun found _ => ?_
  split
  · exact ensures_indented h
  · exact (ensures_line (ensures_expression budget).1).bind fun s hs =>
      .pure ⟨by simp, .cons hs .nil⟩

/-- Every block and every conditional that is read fits. -/
theorem ensures_nested : ∀ budget : Nat, Encloses budget ∧
    ∀ b, budget = b + 1 → Ensures (conditional b) (Stmt.Fits b)
  | 0 => ⟨.fail, by omega⟩
  | b + 1 => by
    obtain ⟨hbody, hlink⟩ := ensures_nested b
    refine ⟨?_, ?_⟩
    · exact (ensures_block (ensures_statement hbody hlink)).imp fun block hblock =>
        ⟨hblock.1, b, rfl, hblock.2⟩
    · rintro _ ⟨⟩
      exact ensures_conditional hbody hlink

theorem ensures_programFrom {statement : Parser Stmt} (h : Ensures statement (Stmt.Fits budget)) :
    ∀ (bound : List Lexeme) (before : List Stmt),
      Ensures (programFrom statement bound before) fun all =>
        ∃ block, all = before.reverse ++ block ∧ BlockFits budget block
  | [], before => .pure ⟨[], (List.append_nil _).symm, .nil⟩
  | _ :: bound, before => by
    refine Ensures.peek.bind fun l _ => ?_
    split
    · exact .pure ⟨[], (List.append_nil _).symm, .nil⟩
    · refine Ensures.eat.bind fun found _ => ?_
      split
      · exact ensures_programFrom h bound before
      · refine h.bind fun s hs => (ensures_programFrom h bound (s :: before)).imp ?_
        rintro _ ⟨block, rfl, hblock⟩
        exact ⟨s :: block, by simp, .cons hs hblock⟩

/-- Every program that is read is well-formed, no expression of it is too high, and its written form
does not nest too deeply. -/
theorem Program.fits_of_parse {source : String} {p : Program} (h : Program.parse source = .ok p) :
    BlockFits maxNesting p := by
  unfold Program.parse at h
  split at h
  · cases h
  · rename_i lexemes hscan
    split at h
    · cases h
    · rename_i p' hparse
      obtain rfl := Except.ok.inj h
      cases hread : (program lexemes).run ⟨lexemes, .root⟩ with
      | error e =>
        rw [parseLexemes, hread] at hparse
        cases hparse
      | ok r =>
        rw [parseLexemes, hread] at hparse
        obtain rfl := Except.ok.inj hparse
        obtain ⟨hbody, hlink⟩ := ensures_nested maxNesting
        obtain ⟨-, block, hblock, hfits⟩ :=
          ensures_programFrom (ensures_statement hbody hlink) lexemes [] ⟨lexemes, .root⟩ r.1 r.2
            (sound_scan hscan) hread
        show BlockFits maxNesting r.1
        rw [hblock]
        exact hfits

end Stampline
